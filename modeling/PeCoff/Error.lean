import PeCoff.Text.Numeral

/-!
# Causes of failure

Reading an image fails in one of two ways: the bytes break a rule of the
format, or they end before a read is complete. The wording of each cause is
fixed here and nowhere else.
-/

namespace PeCoff

inductive FormatError where
  | anonymousObject
  | peSignature (obtained : UInt32)
  | negativeSectionCount (obtained : Int16)
  | optionalHeaderMagic (obtained : UInt16)
  | optionalHeaderSize (atLeast obtained : UInt16)
  | directoryCrossesSection (rva size : UInt32)
  | directorySize (size entrySize : UInt32)
  | managedHeaderSize (atLeast obtained : UInt32)
  | debugCharacteristics (obtained : UInt32)
  | codeViewMagic (obtained : Vector UInt8 4)
  | exportOrdinal (ordinal functionCount : UInt32)
  | resourceEntryCount (limit : Nat)
  | resourceTreeDepth (limit : Nat)
  | invalidText
  deriving DecidableEq

/-- Why a read failed. `position` is where the failing read began and
`requested` the number of bytes it asked for. -/
inductive ReadError where
  | format (cause : FormatError)
  | truncated (position requested : Nat)
  deriving DecidableEq

open Numeral (address)

def FormatError.message : FormatError → String
  | .anonymousObject => "anonymous object headers are not supported"
  | .peSignature obtained =>
    "wrong PE signature (expected 0x00004550, obtained " ++ address 8 obtained.toNat ++ ")"
  | .negativeSectionCount obtained => "negative section count " ++ toString obtained.toInt
  | .optionalHeaderMagic obtained =>
    "unknown optional header magic " ++ address 4 obtained.toNat
  | .optionalHeaderSize atLeast obtained =>
    "optional header too small (expected at least " ++ toString atLeast.toNat ++
      ", obtained " ++ toString obtained.toNat ++ ")"
  | .directoryCrossesSection rva size =>
    "directory at RVA " ++ address 8 rva.toNat ++ " with size " ++ address 1 size.toNat ++
      " runs past the end of its section"
  | .directorySize size entrySize =>
    "directory size " ++ toString size.toNat ++ " is not a multiple of the entry size " ++
      toString entrySize.toNat
  | .managedHeaderSize atLeast obtained =>
    "COR20 header has unexpected size (expected at least " ++ toString atLeast.toNat ++
      ", obtained " ++ toString obtained.toNat ++ ")"
  | .debugCharacteristics obtained =>
    "debug directory entry has non-zero characteristics " ++ address 8 obtained.toNat
  | .codeViewMagic obtained =>
    "CodeView record has wrong magic [" ++
      ", ".intercalate (obtained.toList.map fun byte => toString byte.toNat) ++
      "] (expected \"RSDS\")"
  | .exportOrdinal ordinal functionCount =>
    "export ordinal " ++ toString ordinal.toNat ++ " out of range (" ++
      toString functionCount.toNat ++ " functions)"
  | .resourceEntryCount limit =>
    "resource directory holds more than " ++ toString limit ++ " entries"
  | .resourceTreeDepth limit =>
    "resource directory nested deeper than " ++ toString limit ++ " levels"
  | .invalidText => "invalid encoding of a textual string"

def ReadError.message : ReadError → String
  | .format cause => "invalid format: " ++ cause.message
  | .truncated position requested =>
    "truncated input: failed to read " ++ toString requested ++ " bytes at offset " ++
      address 1 position

end PeCoff
