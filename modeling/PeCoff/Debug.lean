import PeCoff.CodeTable
import PeCoff.Guid
import PeCoff.Headers.Addressing

/-!
# Debug directory

Entries of 28 bytes that point to debugging data. All entries are read before
any data is followed. A CodeView record names the program database that the
image was linked with.
-/

namespace PeCoff

structure DebugKind where
  code : UInt32
  deriving DecidableEq, Ord

namespace DebugKind

def names : CodeTable := [
  (0, "Unknown"),
  (1, "Coff"),
  (2, "CodeView"),
  (3, "Fpo"),
  (4, "Misc"),
  (5, "Exception"),
  (6, "Fixup"),
  (7, "OmapToSrc"),
  (8, "OmapFromSrc"),
  (9, "Borland"),
  (10, "Reserved10"),
  (11, "Clsid"),
  (12, "VcFeature"),
  (13, "Pogo"),
  (14, "Iltcg"),
  (15, "Mpx"),
  (16, "Repro"),
  (17, "EmbeddedPortablePdb"),
  (19, "PdbChecksum"),
  (20, "ExDllCharacteristics")]

def codeView : DebugKind := ⟨2⟩

end DebugKind

structure DebugEntry where
  characteristics : UInt32
  timeDateStamp : UInt32
  majorVersion : UInt16
  minorVersion : UInt16
  kind : DebugKind
  sizeOfData : UInt32
  addressOfRawData : UInt32
  pointerToRawData : UInt32
  deriving DecidableEq

namespace DebugEntry

def length : UInt32 := 28

open Reader in
/-- The characteristics are reserved and must be zero. -/
def read : Reader DebugEntry := do
  let characteristics ← u32
  require (characteristics = 0) (.debugCharacteristics characteristics)
  let timeDateStamp ← u32
  let majorVersion ← u16
  let minorVersion ← u16
  let kind ← u32
  let sizeOfData ← u32
  let addressOfRawData ← u32
  let pointerToRawData ← u32
  pure {
    characteristics, timeDateStamp, majorVersion, minorVersion
    kind := ⟨kind⟩
    sizeOfData, addressOfRawData, pointerToRawData }

end DebugEntry

structure CodeView where
  signature : Guid
  age : Int32
  path : String
  deriving DecidableEq

namespace CodeView

def magic : Vector UInt8 4 := #v[0x52, 0x53, 0x44, 0x53]

open Reader in
def read : Reader CodeView := do
  let obtained ← exact 4
  require (obtained = magic) (.codeViewMagic obtained)
  let signature ← Guid.read
  let age ← i32
  let path ← terminated
  pure { signature, age, path }

end CodeView

structure DebugRecord where
  entry : DebugEntry
  codeView : Option CodeView
  deriving DecidableEq

namespace DebugRecord

open Reader

/-- Where an entry's data is in the layout at hand, zero if it is not there. -/
def dataOffset (headers : Headers) (entry : DebugEntry) : UInt32 :=
  if headers.loaded then entry.addressOfRawData else entry.pointerToRawData

def readCodeView (headers : Headers) (entry : DebugEntry) : Reader (Option CodeView) :=
  if entry.kind = .codeView && dataOffset headers entry != 0 then do
    seek (dataOffset headers entry).toNat
    pure (some (← CodeView.read))
  else pure none

def readAll (headers : Headers) : Reader (List DebugRecord) := do
  match ← headers.locateDirectory .debug with
  | none => pure []
  | some start => do
    let size := (headers.directory .debug).size
    require (size % DebugEntry.length = 0) (.directorySize size DebugEntry.length)
    seek start
    let entries ← times (size / DebugEntry.length).toNat DebugEntry.read
    mapEach (fun entry => do pure { entry, codeView := ← readCodeView headers entry }) entries

end DebugRecord

end PeCoff
