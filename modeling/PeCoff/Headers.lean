import PeCoff.Headers.FileHeader
import PeCoff.Headers.OptionalHeader
import PeCoff.Headers.SectionHeader

/-!
# Headers

The headers of an image or a bare object. An image starts with a DOS header
that points to its NT headers; anything else is read as an object whose file
header comes first, except the anonymous object header, which is refused.
Whether the bytes are a file or an image mapped into memory cannot be seen in
them and is given by the caller.
-/

namespace PeCoff

structure Headers where
  loaded : Bool
  ntOffset : Option UInt32
  file : FileHeader
  optional : Option OptionalHeader
  sections : List SectionHeader

namespace Headers

open Reader

/-- An object may start with a zero, unless 0xFFFF follows it. -/
def refuseAnonymous (magic : UInt16) : Reader Unit :=
  if magic = 0 then do
    let second ← u16
    require (second ≠ 0xFFFF) .anonymousObject
  else pure ()

/-- Finds the NT headers of an image and leaves the position at the file
header. -/
def locate : Reader (Option UInt32) := do
  seek 0
  let magic ← u16
  if magic = 0x5A4D then do
    seek 0x3C
    let ntOffset ← u32
    seek ntOffset.toNat
    let signature ← u32
    require (signature = 0x00004550) (.peSignature signature)
    pure (some ntOffset)
  else do
    refuseAnonymous magic
    seek 0
    pure none

def fileHeaderEnd : Option UInt32 → Nat
  | some ntOffset => ntOffset.toNat + 4 + FileHeader.length
  | none => FileHeader.length

def readOptional (ntOffset : Option UInt32) (size : UInt16) : Reader (Option OptionalHeader) :=
  if ntOffset.isSome && size != 0 then do pure (some (← OptionalHeader.read size))
  else pure none

/-- The section table follows the declared size of the optional header, however
much of that was read. -/
def read (loaded : Bool) : Reader Headers := do
  let ntOffset ← locate
  let file ← FileHeader.read
  let optional ← readOptional ntOffset file.sizeOfOptionalHeader
  seek (fileHeaderEnd ntOffset + file.sizeOfOptionalHeader.toNat)
  let sections ← times file.numberOfSections.toNat SectionHeader.read
  pure { loaded, ntOffset, file, optional, sections }

def isObject (headers : Headers) : Bool := headers.ntOffset.isNone

def is64Bit (headers : Headers) : Bool :=
  headers.optional.any OptionalHeader.is64Bit

def imageBase (headers : Headers) : UInt64 :=
  match headers.optional with
  | some optional => optional.imageBase
  | none => 0

def directory (headers : Headers) (slot : DirectorySlot) : DataDirectory :=
  match headers.optional with
  | some optional => optional.directory slot
  | none => .absent

end Headers

end PeCoff
