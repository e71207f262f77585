import PeCoff.FlagTable
import PeCoff.Headers.Addressing

/-!
# The managed header

The COR20 header of images that hold managed code. Its directory must have room
for the whole header.
-/

namespace PeCoff

structure ManagedFlags where
  bits : UInt32
  deriving DecidableEq

namespace ManagedFlags

def table : FlagTable where
  title := "ComImageFlags"
  flags := [
    ("IL_ONLY", 0),
    ("REQUIRES_32BIT", 1),
    ("IL_LIBRARY", 2),
    ("STRONG_NAME_SIGNED", 3),
    ("NATIVE_ENTRY_POINT", 4),
    ("TRACK_DEBUG_DATA", 16),
    ("PREFERS_32BIT", 17)]

def ilOnly (flags : ManagedFlags) : Bool := flags.bits.toNat.testBit 0

end ManagedFlags

structure ManagedHeader where
  /-- The length that the header states for itself, which nothing relies on. -/
  statedSize : UInt32
  majorRuntimeVersion : UInt16
  minorRuntimeVersion : UInt16
  metadata : DataDirectory
  flags : ManagedFlags
  entryPoint : UInt32
  resources : DataDirectory
  strongNameSignature : DataDirectory
  codeManagerTable : DataDirectory
  vtableFixups : DataDirectory
  exportAddressTableJumps : DataDirectory
  managedNativeHeader : DataDirectory
  deriving DecidableEq

namespace ManagedHeader

def length : UInt32 := 72

open Reader

def read : Reader ManagedHeader := do
  let statedSize ← u32
  let majorRuntimeVersion ← u16
  let minorRuntimeVersion ← u16
  let metadata ← DataDirectory.read
  let flags ← u32
  let entryPoint ← u32
  let resources ← DataDirectory.read
  let strongNameSignature ← DataDirectory.read
  let codeManagerTable ← DataDirectory.read
  let vtableFixups ← DataDirectory.read
  let exportAddressTableJumps ← DataDirectory.read
  let managedNativeHeader ← DataDirectory.read
  pure {
    statedSize, majorRuntimeVersion, minorRuntimeVersion, metadata
    flags := ⟨flags⟩
    entryPoint, resources, strongNameSignature, codeManagerTable, vtableFixups
    exportAddressTableJumps, managedNativeHeader }

def find (headers : Headers) : Reader (Option ManagedHeader) := do
  match ← headers.locateDirectory .managedHeader with
  | none => pure none
  | some start => do
    let size := (headers.directory .managedHeader).size
    require (length ≤ size) (.managedHeaderSize length size)
    seek start
    pure (some (← read))

end ManagedHeader

end PeCoff
