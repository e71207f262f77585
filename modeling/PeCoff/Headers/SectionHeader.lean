import PeCoff.Bytes.Reader
import PeCoff.FlagTable
import PeCoff.Text.Utf8

/-!
# Section headers

A section maps a range of relative virtual addresses to a place in the file.
The range begins at its virtual address and is as long as its virtual size, and
may reach past the last 32-bit address.
-/

namespace PeCoff

structure SectionCharacteristics where
  bits : UInt32
  deriving DecidableEq

def SectionCharacteristics.table : FlagTable where
  title := "SectionCharacteristics"
  flags := [
    ("NO_PAD", 3),
    ("CONTAINS_CODE", 5),
    ("CONTAINS_INITIALIZED_DATA", 6),
    ("CONTAINS_UNINITIALIZED_DATA", 7),
    ("LINK_OTHER", 8),
    ("LINK_INFO", 9),
    ("LINK_REMOVE", 11),
    ("LINK_COMDAT", 12),
    ("GLOBAL_POINTER_RELATIVE", 15),
    ("MEM_LOCKED", 18),
    ("MEM_PRELOAD", 19),
    ("ALIGN_BYTES_SHIFT_COUNT_1", 20),
    ("ALIGN_BYTES_SHIFT_COUNT_2", 21),
    ("ALIGN_BYTES_SHIFT_COUNT_4", 22),
    ("ALIGN_BYTES_SHIFT_COUNT_8", 23),
    ("LINK_NRELOC_OVFL", 24),
    ("MEM_DISCARDABLE", 25),
    ("MEM_NOT_CACHED", 26),
    ("MEM_NOT_PAGED", 27),
    ("MEM_SHARED", 28),
    ("MEM_EXECUTE", 29),
    ("MEM_READ", 30),
    ("MEM_WRITE", 31)]

structure SectionHeader where
  name : Vector UInt8 8
  virtualSize : UInt32
  virtualAddress : UInt32
  sizeOfRawData : UInt32
  pointerToRawData : UInt32
  pointerToRelocations : UInt32
  pointerToLineNumbers : UInt32
  numberOfRelocations : UInt16
  numberOfLineNumbers : UInt16
  characteristics : SectionCharacteristics
  deriving DecidableEq

namespace SectionHeader

def length : Nat := 40

open Reader in
def read : Reader SectionHeader := do
  let name ← exact 8
  let virtualSize ← u32
  let virtualAddress ← u32
  let sizeOfRawData ← u32
  let pointerToRawData ← u32
  let pointerToRelocations ← u32
  let pointerToLineNumbers ← u32
  let numberOfRelocations ← u16
  let numberOfLineNumbers ← u16
  let characteristics ← u32
  pure {
    name, virtualSize, virtualAddress, sizeOfRawData, pointerToRawData, pointerToRelocations
    pointerToLineNumbers, numberOfRelocations, numberOfLineNumbers
    characteristics := ⟨characteristics⟩ }

/-- The name's text, up to the first zero byte. -/
def displayName (header : SectionHeader) : String :=
  Utf8.replacing (header.name.toList.takeWhile (· != 0)).toByteArray

def contains (header : SectionHeader) (rva : UInt32) : Bool :=
  header.virtualAddress ≤ rva && rva - header.virtualAddress < header.virtualSize

end SectionHeader

end PeCoff
