import PeCoff.CodeTable
import PeCoff.FlagTable
import PeCoff.Headers.DataDirectory

/-!
# The optional header

Present in images, absent in bare objects. Its magic decides whether addresses
take four bytes (PE32) or eight (PE32+), and with that the length of its fixed
part. The data directories behind the fixed part are as many as both their
stored count and the declared size of the header allow.
-/

namespace PeCoff

structure OptionalMagic where
  code : UInt16
  deriving DecidableEq, Ord

namespace OptionalMagic

def names : CodeTable := [(0x010B, "Pe32"), (0x020B, "Pe32Plus")]

def pe32 : OptionalMagic := ⟨0x010B⟩
def pe32Plus : OptionalMagic := ⟨0x020B⟩

def fixedSize? (magic : OptionalMagic) : Option UInt16 :=
  if magic = pe32 then some 96
  else if magic = pe32Plus then some 112
  else none

end OptionalMagic

structure Subsystem where
  code : UInt16
  deriving DecidableEq, Ord

def Subsystem.names : CodeTable := [
  (0, "Unknown"),
  (1, "Native"),
  (2, "WindowsGui"),
  (3, "WindowsCui"),
  (5, "Os2Cui"),
  (7, "PosixCui"),
  (8, "NativeWindows"),
  (9, "WindowsCeGui"),
  (10, "EfiApplication"),
  (11, "EfiBootServiceDriver"),
  (12, "EfiRuntimeDriver"),
  (13, "EfiRom"),
  (14, "Xbox"),
  (16, "WindowsBootApplication")]

structure DllCharacteristics where
  bits : UInt16
  deriving DecidableEq

def DllCharacteristics.table : FlagTable where
  title := "DllCharacteristics"
  flags := [
    ("HIGH_ENTROPY_VIRTUAL_ADDRESSES", 5),
    ("DYNAMIC_BASE", 6),
    ("FORCE_INTEGRITY", 7),
    ("NX_COMPATIBILITY", 8),
    ("NO_ISOLATION", 9),
    ("NO_SEH", 10),
    ("NO_BIND", 11),
    ("APPCONTAINER", 12),
    ("WDM_DRIVER", 13),
    ("GUARD_CF", 14),
    ("TERMINAL_SERVER_AWARE", 15)]

structure OptionalHeader where
  magic : OptionalMagic
  majorLinkerVersion : UInt8
  minorLinkerVersion : UInt8
  sizeOfCode : UInt32
  sizeOfInitializedData : UInt32
  sizeOfUninitializedData : UInt32
  addressOfEntryPoint : UInt32
  baseOfCode : UInt32
  /-- Stored in PE32 only. -/
  baseOfData : Option UInt32
  imageBase : UInt64
  sectionAlignment : UInt32
  fileAlignment : UInt32
  majorOperatingSystemVersion : UInt16
  minorOperatingSystemVersion : UInt16
  majorImageVersion : UInt16
  minorImageVersion : UInt16
  majorSubsystemVersion : UInt16
  minorSubsystemVersion : UInt16
  win32VersionValue : UInt32
  sizeOfImage : UInt32
  sizeOfHeaders : UInt32
  checksum : UInt32
  subsystem : Subsystem
  dllCharacteristics : DllCharacteristics
  sizeOfStackReserve : UInt64
  sizeOfStackCommit : UInt64
  sizeOfHeapReserve : UInt64
  sizeOfHeapCommit : UInt64
  loaderFlags : UInt32
  numberOfRvaAndSizes : UInt32
  dataDirectories : List DataDirectory

namespace OptionalHeader

open Reader

def readAddress (wide : Bool) : Reader UInt64 :=
  if wide then u64 else do pure (← u32).toUInt64

/-- How many data directories are read: the stored count, as far as the
declared size leaves room behind the fixed part. -/
def directoryCount (size fixed : UInt16) (stored : UInt32) : Nat :=
  min stored.toNat ((size - fixed).toNat / 8)

def readBody (magic : OptionalMagic) (size fixed : UInt16) : Reader OptionalHeader := do
  let wide := magic = .pe32Plus
  let majorLinkerVersion ← u8
  let minorLinkerVersion ← u8
  let sizeOfCode ← u32
  let sizeOfInitializedData ← u32
  let sizeOfUninitializedData ← u32
  let addressOfEntryPoint ← u32
  let baseOfCode ← u32
  let baseOfData ← if wide then pure none else do pure (some (← u32))
  let imageBase ← readAddress wide
  let sectionAlignment ← u32
  let fileAlignment ← u32
  let majorOperatingSystemVersion ← u16
  let minorOperatingSystemVersion ← u16
  let majorImageVersion ← u16
  let minorImageVersion ← u16
  let majorSubsystemVersion ← u16
  let minorSubsystemVersion ← u16
  let win32VersionValue ← u32
  let sizeOfImage ← u32
  let sizeOfHeaders ← u32
  let checksum ← u32
  let subsystem ← u16
  let dllCharacteristics ← u16
  let sizeOfStackReserve ← readAddress wide
  let sizeOfStackCommit ← readAddress wide
  let sizeOfHeapReserve ← readAddress wide
  let sizeOfHeapCommit ← readAddress wide
  let loaderFlags ← u32
  let numberOfRvaAndSizes ← u32
  let dataDirectories ← times (directoryCount size fixed numberOfRvaAndSizes) DataDirectory.read
  pure {
    magic, majorLinkerVersion, minorLinkerVersion, sizeOfCode, sizeOfInitializedData
    sizeOfUninitializedData, addressOfEntryPoint, baseOfCode, baseOfData, imageBase
    sectionAlignment, fileAlignment, majorOperatingSystemVersion, minorOperatingSystemVersion
    majorImageVersion, minorImageVersion, majorSubsystemVersion, minorSubsystemVersion
    win32VersionValue, sizeOfImage, sizeOfHeaders, checksum
    subsystem := ⟨subsystem⟩
    dllCharacteristics := ⟨dllCharacteristics⟩
    sizeOfStackReserve, sizeOfStackCommit, sizeOfHeapReserve, sizeOfHeapCommit
    loaderFlags, numberOfRvaAndSizes, dataDirectories }

def read (size : UInt16) : Reader OptionalHeader := do
  require (2 ≤ size) (.optionalHeaderSize 2 size)
  let magic ← u16
  match OptionalMagic.fixedSize? ⟨magic⟩ with
  | none => fail (.optionalHeaderMagic magic)
  | some fixed => do
    require (fixed ≤ size) (.optionalHeaderSize fixed size)
    readBody ⟨magic⟩ size fixed

def is64Bit (header : OptionalHeader) : Bool := header.magic = .pe32Plus

/-- The directory in a slot, absent where the list is too short. -/
def directory (header : OptionalHeader) (slot : DirectorySlot) : DataDirectory :=
  header.dataDirectories[slot.index]?.getD .absent

end OptionalHeader

end PeCoff
