import PeCoff.Bytes.Reader

/-!
# Data directories

A data directory says where a structure of the image lies and how long it is.
The optional header lists them by slot. A directory of size zero is absent, and
its address then means nothing.
-/

namespace PeCoff

structure DataDirectory where
  rva : UInt32
  size : UInt32
  deriving DecidableEq

namespace DataDirectory

def absent : DataDirectory := ⟨0, 0⟩

def isPresent (directory : DataDirectory) : Bool := directory.size != 0

open Reader in
def read : Reader DataDirectory := do
  let rva ← u32
  let size ← u32
  pure { rva, size }

end DataDirectory

inductive DirectorySlot where
  | exportTable
  | importTable
  | resourceTable
  | exceptionTable
  | certificateTable
  | baseRelocation
  | debug
  | architecture
  | globalPointer
  | threadLocalStorage
  | loadConfig
  | boundImport
  | importAddressTable
  | delayImport
  | managedHeader
  | reserved

def DirectorySlot.index : DirectorySlot → Nat
  | .exportTable => 0
  | .importTable => 1
  | .resourceTable => 2
  | .exceptionTable => 3
  | .certificateTable => 4
  | .baseRelocation => 5
  | .debug => 6
  | .architecture => 7
  | .globalPointer => 8
  | .threadLocalStorage => 9
  | .loadConfig => 10
  | .boundImport => 11
  | .importAddressTable => 12
  | .delayImport => 13
  | .managedHeader => 14
  | .reserved => 15

end PeCoff
