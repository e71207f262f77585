import PeCoff.Headers.Addressing

/-!
# Imports

One descriptor per imported module, up to the first that is all zero or to the
end of the directory. Only the module's name is followed; the tables of its
functions are left alone.
-/

namespace PeCoff

structure ImportDescriptor where
  originalFirstThunk : UInt32
  timeDateStamp : UInt32
  forwarderChain : UInt32
  name : UInt32
  firstThunk : UInt32
  deriving DecidableEq

namespace ImportDescriptor

def length : Nat := 20

open Reader in
def read : Reader ImportDescriptor := do
  let originalFirstThunk ← u32
  let timeDateStamp ← u32
  let forwarderChain ← u32
  let name ← u32
  let firstThunk ← u32
  pure { originalFirstThunk, timeDateStamp, forwarderChain, name, firstThunk }

/-- The all-zero descriptor, which ends the table. -/
def terminator : ImportDescriptor := ⟨0, 0, 0, 0, 0⟩

def isTerminator (descriptor : ImportDescriptor) : Bool := descriptor = terminator

/-- The addresses of the imported functions are already filled in. -/
def isBound (descriptor : ImportDescriptor) : Bool := descriptor.timeDateStamp != 0

end ImportDescriptor

structure ImportedModule where
  descriptor : ImportDescriptor
  name : Option String
  deriving DecidableEq

namespace ImportedModule

open Reader

/-- The module of the descriptor at a position, none for the terminator. -/
def readAt (headers : Headers) (position : Nat) : Reader (Option ImportedModule) := do
  seek position
  let descriptor ← ImportDescriptor.read
  if descriptor.isTerminator then pure none
  else do
    let name ← headers.textAt descriptor.name
    pure (some { descriptor, name })

def readAll (headers : Headers) : Reader (List ImportedModule) := do
  match ← headers.locateDirectory .importTable with
  | none => pure []
  | some start =>
    let room := (headers.directory .importTable).size.toNat / ImportDescriptor.length
    collect room fun index => readAt headers (start + ImportDescriptor.length * index)

end ImportedModule

end PeCoff
