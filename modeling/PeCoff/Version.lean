import PeCoff.Bytes.Text
import PeCoff.FlagTable

/-!
# Version records

The fixed part of a version resource. A record whose fixed part carries another
signature is no version record, which is not an error.
-/

namespace PeCoff.Version

structure Number where
  major : UInt16
  minor : UInt16
  build : UInt16
  revision : UInt16
  deriving DecidableEq

def Number.display (number : Number) : String :=
  toString number.major.toNat ++ "." ++ toString number.minor.toNat ++ "." ++
    toString number.build.toNat ++ "." ++ toString number.revision.toNat

instance : Ord Number where
  compare a b :=
    (compare a.major b.major).then <| (compare a.minor b.minor).then <|
      (compare a.build b.build).then <| compare a.revision b.revision

structure FileFlags where
  bits : UInt32
  deriving DecidableEq

def FileFlags.table : FlagTable where
  title := "FileFlags"
  flags := [
    ("DEBUG", 0),
    ("PRERELEASE", 1),
    ("PATCHED", 2),
    ("PRIVATE_BUILD", 3),
    ("INFO_INFERRED", 4),
    ("SPECIAL_BUILD", 5)]

/-- The numbers of each half of a version are stored low half first. -/
structure FixedInfo where
  signature : UInt32
  structureVersion : UInt32
  fileMinor : UInt16
  fileMajor : UInt16
  fileRevision : UInt16
  fileBuild : UInt16
  productMinor : UInt16
  productMajor : UInt16
  productRevision : UInt16
  productBuild : UInt16
  fileFlagsMask : UInt32
  fileFlags : FileFlags
  fileOs : UInt32
  fileType : UInt32
  fileSubtype : UInt32
  fileDateHigh : UInt32
  fileDateLow : UInt32
  deriving DecidableEq

namespace FixedInfo

def expectedSignature : UInt32 := 0xFEEF04BD

open Reader in
def read : Reader FixedInfo := do
  let signature ← u32
  let structureVersion ← u32
  let fileMinor ← u16
  let fileMajor ← u16
  let fileRevision ← u16
  let fileBuild ← u16
  let productMinor ← u16
  let productMajor ← u16
  let productRevision ← u16
  let productBuild ← u16
  let fileFlagsMask ← u32
  let fileFlags ← u32
  let fileOs ← u32
  let fileType ← u32
  let fileSubtype ← u32
  let fileDateHigh ← u32
  let fileDateLow ← u32
  pure {
    signature, structureVersion, fileMinor, fileMajor, fileRevision, fileBuild, productMinor
    productMajor, productRevision, productBuild, fileFlagsMask
    fileFlags := ⟨fileFlags⟩
    fileOs, fileType, fileSubtype, fileDateHigh, fileDateLow }

def fileVersion (info : FixedInfo) : Number :=
  ⟨info.fileMajor, info.fileMinor, info.fileBuild, info.fileRevision⟩

def productVersion (info : FixedInfo) : Number :=
  ⟨info.productMajor, info.productMinor, info.productBuild, info.productRevision⟩

end FixedInfo

structure Record where
  length : UInt16
  valueLength : UInt16
  valueType : UInt16
  key : String
  fixedInfo : FixedInfo
  deriving DecidableEq

namespace Record

/-- The units of the key, the NULs behind it included. -/
def keyUnits : Nat := 16

def trimNuls (text : String) : String :=
  String.ofList (text.toList.reverse.dropWhile (· = '\x00')).reverse

open Reader in
def read : Reader (Option Record) := do
  let length ← u16
  let valueLength ← u16
  let valueType ← u16
  let key ← utf16 keyUnits
  let _padding ← u16
  let fixedInfo ← FixedInfo.read
  if fixedInfo.signature = FixedInfo.expectedSignature then
    pure (some { length, valueLength, valueType, key := trimNuls key, fixedInfo })
  else pure none

end Record

end PeCoff.Version
