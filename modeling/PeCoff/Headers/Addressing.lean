import PeCoff.Bytes.Text
import PeCoff.Headers

/-!
# Addresses and positions

A relative virtual address belongs to the first section whose range contains
it. In a mapped image the address is the position; in a file the position is
relative to the section's raw data. Every directory is located here and nowhere
else.
-/

namespace PeCoff.Headers

def section? (headers : Headers) (rva : UInt32) : Option SectionHeader :=
  headers.sections.find? (·.contains rva)

theorem of_section? {headers : Headers} {rva : UInt32} {container : SectionHeader}
    (h : headers.section? rva = some container) :
    container.virtualAddress ≤ rva ∧ rva - container.virtualAddress < container.virtualSize := by
  have hc := List.find?_some h
  simp only [SectionHeader.contains, Bool.and_eq_true, decide_eq_true_eq] at hc
  exact hc

def sectionIndex? (headers : Headers) (rva : UInt32) : Option Nat :=
  headers.sections.findIdx? (·.contains rva)

def offsetWithin (headers : Headers) (container : SectionHeader) (rva : UInt32) : Nat :=
  if headers.loaded then rva.toNat
  else container.pointerToRawData.toNat + (rva - container.virtualAddress).toNat

def offset? (headers : Headers) (rva : UInt32) : Option Nat :=
  match headers.section? rva with
  | some container => some (headers.offsetWithin container rva)
  | none => none

/-- The position of a directory: none if it is absent or in no section. Unless
crossing is allowed, it must end within the section that it starts in. -/
def directoryOffset? (headers : Headers) (directory : DataDirectory) (mayCross : Bool) :
    Except FormatError (Option Nat) :=
  if directory.isPresent then
    match headers.section? directory.rva with
    | none => .ok none
    | some container =>
      let room := container.virtualSize - (directory.rva - container.virtualAddress)
      if !mayCross && room < directory.size then
        .error (.directoryCrossesSection directory.rva directory.size)
      else .ok (some (headers.offsetWithin container directory.rva))
  else .ok none

open Reader

def locateDirectory (headers : Headers) (slot : DirectorySlot) : Reader (Option Nat) :=
  lift (headers.directoryOffset? (headers.directory slot) false)

def textAt (headers : Headers) (rva : UInt32) : Reader (Option String) :=
  match headers.offset? rva with
  | none => pure none
  | some offset => do
    seek offset
    pure (some (← terminated))

end PeCoff.Headers
