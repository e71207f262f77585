import PeCoff.Headers.Addressing

/-!
# Exports

The export table names functions of the image. A name's place in the name table
says nothing about its function: the ordinal table holds the function's place.
A function address that lies in the export directory itself is not code but the
name of a function of another module.
-/

namespace PeCoff

structure ExportHeader where
  characteristics : UInt32
  timeDateStamp : UInt32
  majorVersion : UInt16
  minorVersion : UInt16
  name : UInt32
  base : UInt32
  numberOfFunctions : UInt32
  numberOfNames : UInt32
  addressOfFunctions : UInt32
  addressOfNames : UInt32
  addressOfNameOrdinals : UInt32
  deriving DecidableEq

open Reader in
def ExportHeader.read : Reader ExportHeader := do
  let characteristics ← u32
  let timeDateStamp ← u32
  let majorVersion ← u16
  let minorVersion ← u16
  let name ← u32
  let base ← u32
  let numberOfFunctions ← u32
  let numberOfNames ← u32
  let addressOfFunctions ← u32
  let addressOfNames ← u32
  let addressOfNameOrdinals ← u32
  pure {
    characteristics, timeDateStamp, majorVersion, minorVersion, name, base, numberOfFunctions
    numberOfNames, addressOfFunctions, addressOfNames, addressOfNameOrdinals }

inductive ExportTarget where
  /-- An address in memory, the image being at its preferred base. -/
  | code (address : UInt64)
  /-- A function of another module, as `Module.Function`. -/
  | forwarded (function : String)
  deriving DecidableEq

structure Export where
  name : String
  index : UInt32
  /-- The place in the function table, counted from the table's base. -/
  ordinal : UInt32
  target : ExportTarget
  deriving DecidableEq

def Export.isForwarded (item : Export) : Bool :=
  match item.target with
  | .code _ => false
  | .forwarded _ => true

structure ExportTable where
  header : ExportHeader
  moduleName : Option String
  exports : List Export

namespace ExportTable

open Reader

/-- A table of `count` elements at an address. An empty table lies anywhere;
any other gives nothing if no section contains it. -/
def readColumn (headers : Headers) (rva count : UInt32) (element : Reader α) :
    Reader (Option (List α)) :=
  if count = 0 then pure (some [])
  else
    match headers.offset? rva with
    | none => pure none
    | some offset => do
      seek offset
      pure (some (← times count.toNat element))

/-- Whether a function address lies in the export directory. The end of the
directory may lie past the last 32-bit address. -/
def isForwarder (directory : DataDirectory) (function : UInt32) : Bool :=
  directory.rva.toNat ≤ function.toNat &&
    function.toNat < directory.rva.toNat + directory.size.toNat

def readTarget (headers : Headers) (directory : DataDirectory) (function : UInt32) :
    Reader (Option ExportTarget) :=
  if isForwarder directory function then do
    match ← headers.textAt function with
    | none => pure none
    | some text => pure (some (.forwarded text))
  else pure (some (.code (headers.imageBase + function.toUInt64)))

structure Row where
  index : Nat
  name : UInt32
  place : UInt16

def rows (names : List UInt32) (places : List UInt16) : List Row :=
  (names.zip places).zipIdx.map fun ((name, place), index) => { index, name, place }

/-- The export of a row. A row whose name, or whose forwarding text, no section
contains is passed over. -/
def readRow (headers : Headers) (header : ExportHeader) (functions : Array UInt32) (row : Row) :
    Reader (Option Export) := do
  match ← headers.textAt row.name with
  | none => pure none
  | some name =>
    match functions[row.place.toNat]? with
    | none => fail (.exportOrdinal row.place.toUInt32 header.numberOfFunctions)
    | some function =>
      match ← readTarget headers (headers.directory .exportTable) function with
      | none => pure none
      | some target => pure (some {
          name
          index := .ofNat row.index
          ordinal := row.place.toUInt32 + header.base
          target })

/-- The export table, if the image has one whose three columns are in
sections. -/
def read (headers : Headers) : Reader (Option ExportTable) := do
  match ← headers.locateDirectory .exportTable with
  | none => pure none
  | some start => do
    seek start
    let header ← ExportHeader.read
    let moduleName ← headers.textAt header.name
    match ← readColumn headers header.addressOfFunctions header.numberOfFunctions u32 with
    | none => pure none
    | some functions =>
      match ← readColumn headers header.addressOfNames header.numberOfNames u32 with
      | none => pure none
      | some names =>
        match ← readColumn headers header.addressOfNameOrdinals header.numberOfNames u16 with
        | none => pure none
        | some places =>
          let exports ← filterMap (readRow headers header functions.toArray) (rows names places)
          pure (some { header, moduleName, exports })

def findName? (table : ExportTable) (name : String) : Option Export :=
  table.exports.find? (·.name == name)

def findOrdinal? (table : ExportTable) (ordinal : UInt32) : Option Export :=
  table.exports.find? (·.ordinal == ordinal)

end ExportTable

end PeCoff
