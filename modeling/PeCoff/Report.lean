import PeCoff.Outline.Image
import PeCoff.RvaText

/-!
# Reports

What the command line prints of an image, one text per kind of report. Each
line ends in a newline.
-/

namespace PeCoff.Report

open Numeral (address alignLeft alignRight blanks)

def headers (image : Image) : String :=
  image.headers.file.outline.dump 0 ++ "\n" ++
    match image.headers.optional with
    | some optional => optional.outline.dump 0 ++ "\n"
    | none => "no optional header (COFF object)\n"

def sectionLine (index : Nat) (header : SectionHeader) : String :=
  alignRight 2 (toString index) ++ " " ++ alignLeft 8 header.displayName ++
    " RVA " ++ address 8 header.virtualAddress.toNat ++
    " size " ++ address 8 header.virtualSize.toNat ++
    " raw " ++ address 8 header.pointerToRawData.toNat ++
    " size " ++ address 8 header.sizeOfRawData.toNat ++
    " " ++ SectionCharacteristics.table.label header.characteristics.bits.toNat ++ "\n"

def sections (image : Image) : String :=
  String.join (image.headers.sections.zipIdx.map fun (header, index) => sectionLine index header)

def exportLine (item : Export) : String :=
  alignRight 5 (toString item.ordinal.toNat) ++ " " ++
    match item.target with
    | .code place => address 16 place.toNat ++ " " ++ item.name ++ "\n"
    | .forwarded function =>
      alignRight 18 "forwarded" ++ " " ++ item.name ++ " -> " ++ function ++ "\n"

def exports (image : Image) : String :=
  match image.exports with
  | none => "no exports\n"
  | some table =>
    (match table.moduleName with
      | some name => name ++ "\n"
      | none => "") ++
      String.join (table.exports.map exportLine)

def importLine (item : ImportedModule) : String :=
  item.name.getD "?" ++
    " (lookup table " ++ address 8 item.descriptor.originalFirstThunk.toNat ++
    ", address table " ++ address 8 item.descriptor.firstThunk.toNat ++ ")\n"

def imports (image : Image) : String :=
  String.join (image.imports.map importLine)

def debugLines (record : DebugRecord) : String :=
  record.entry.outline.dump 0 ++ "\n" ++
    match record.codeView with
    | some codeView =>
      "  PDB " ++ codeView.path ++ " " ++ codeView.signature.display ++
        " age " ++ toString codeView.age.toInt ++ "\n"
    | none => ""

def debug (image : Image) : String :=
  String.join (image.debug.map debugLines)

def entryLabel (entry : Resource.Entry σ) : String :=
  match entry.name?, entry.id? with
  | some name, _ => Quoted.quote name
  | none, some id => "#" ++ toString id.toNat
  | none, none => "?"

def dataText (entry : Resource.DataEntry) : String :=
  "RVA " ++ address 8 entry.rva.toNat ++ ", " ++ toString entry.size.toNat ++
    " bytes, code page " ++ toString entry.codePage.toNat ++ ", offset " ++
    match entry.offset with
    | some offset => address 1 offset
    | none => "unmapped"

/-- The entries of a level and all below, each level further to the right. -/
def level (indent : Nat) (tree : Resource.Level) : String :=
  String.join <| tree.entries.attach.map fun ⟨entry, _hm⟩ =>
    blanks indent ++ entryLabel entry ++
      match _hc : entry.child with
      | .directory below => "\n" ++ level (indent + 2) below
      | .data data => ": " ++ dataText data ++ "\n"
termination_by sizeOf tree
decreasing_by exact Resource.Level.sizeOf_below _hm _hc

def resources (image : Image) : String :=
  level 0 image.resources.root

def version (image : Image) : String :=
  match image.resources.version with
  | some record =>
    "file version " ++ record.fixedInfo.fileVersion.display ++ "\n" ++
      "product version " ++ record.fixedInfo.productVersion.display ++ "\n" ++
      record.fixedInfo.outline.dump 0 ++ "\n"
  | none => "no version information\n"

def managed (image : Image) : String :=
  match image.managed with
  | some header => header.outline.dump 0 ++ "\n"
  | none => "no COR20 header\n"

def json (image : Image) : String :=
  image.outline.toJson.pretty 0 ++ "\n"

def location (rva : UInt32) (image : Image) : String :=
  "RVA " ++ address 8 rva.toNat ++
    match image.headers.sectionIndex? rva, image.headers.section? rva with
    | some index, some container =>
      " -> offset " ++ address 1 (image.headers.offsetWithin container rva) ++
        " (section " ++ toString index ++ " " ++ container.displayName ++ ")\n"
    | _, _ => " is not contained in any section\n"

inductive Mode where
  | headers
  | sections
  | exports
  | imports
  | debug
  | resources
  | version
  | managed
  | json
  | location (rva : String)

/-- The report of a kind. A mistyped address is found before any image is
read. -/
def Mode.prepare : Mode → Except RvaText.Error (Image → String)
  | .headers => .ok Report.headers
  | .sections => .ok Report.sections
  | .exports => .ok Report.exports
  | .imports => .ok Report.imports
  | .debug => .ok Report.debug
  | .resources => .ok Report.resources
  | .version => .ok Report.version
  | .managed => .ok Report.managed
  | .json => .ok Report.json
  | .location rva => (RvaText.parse rva).map Report.location

inductive Outcome where
  | printed (text : String)
  | mistyped (cause : RvaText.Error)
  | unreadable (cause : ReadError)

def Outcome.exitCode : Outcome → UInt32
  | .printed _ => 0
  | .mistyped _ => 2
  | .unreadable _ => 101

def Outcome.output : Outcome → String
  | .printed text => text
  | _ => ""

def run (mode : Mode) (bytes : ByteArray) (loaded : Bool) : Outcome :=
  match mode.prepare with
  | .error cause => .mistyped cause
  | .ok report =>
    match Image.read bytes loaded with
    | .error cause => .unreadable cause
    | .ok image => .printed (report image)

end PeCoff.Report
