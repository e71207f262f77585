import PeCoff.Resource.Table

/-!
# Moved resource trees

The data that a tree leads to may lie elsewhere without the tree changing
otherwise: keys, links, labels and addresses stay. What is searched for is found
in the same place of the moved tree.
-/

namespace PeCoff.Resource

def DataEntry.relocate (shift : Nat) (entry : DataEntry) : DataEntry :=
  { entry with offset := entry.offset.map (· + shift) }

mutual
/-- The tree with the data of every leaf `shift` places further on. -/
def Level.relocate (shift : Nat) : Level → Level
  | ⟨header, entries⟩ => ⟨header, relocateEntries shift entries⟩
def relocateEntries (shift : Nat) : List (Entry Level) → List (Entry Level)
  | [] => []
  | entry :: rest => relocateEntry shift entry :: relocateEntries shift rest
def relocateEntry (shift : Nat) : Entry Level → Entry Level
  | ⟨key, link, label, child⟩ => ⟨key, link, label, relocateChild shift child⟩
def relocateChild (shift : Nat) : Child Level → Child Level
  | .directory level => .directory (level.relocate shift)
  | .data entry => .data (entry.relocate shift)
end

mutual
@[simp] theorem Level.relocate_zero : (level : Level) → level.relocate 0 = level
  | ⟨header, entries⟩ => by rw [Level.relocate, relocateEntries_zero entries]
theorem relocateEntries_zero : (entries : List (Entry Level)) → relocateEntries 0 entries = entries
  | [] => rfl
  | entry :: rest => by rw [relocateEntries, relocateEntry_zero entry, relocateEntries_zero rest]
theorem relocateEntry_zero : (entry : Entry Level) → relocateEntry 0 entry = entry
  | ⟨key, link, label, child⟩ => by rw [relocateEntry, relocateChild_zero child]
theorem relocateChild_zero : (child : Child Level) → relocateChild 0 child = child
  | .directory level => by rw [relocateChild, level.relocate_zero]
  | .data entry => by simp [relocateChild, DataEntry.relocate]
end

theorem relocateEntries_eq_map (shift : Nat) (entries : List (Entry Level)) :
    relocateEntries shift entries = entries.map (relocateEntry shift) := by
  induction entries with
  | nil => rfl
  | cons entry rest ih => rw [relocateEntries, ih, List.map_cons]

theorem Level.entries_relocate (shift : Nat) (level : Level) :
    (level.relocate shift).entries = level.entries.map (relocateEntry shift) := by
  cases level with
  | mk header entries => exact relocateEntries_eq_map shift entries

theorem Level.findId?_relocate (shift : Nat) (level : Level) (id : UInt16) :
    (level.relocate shift).findId? id = (level.findId? id).map (relocateEntry shift) := by
  have hk : (fun entry : Entry Level => entry.id? == some id) ∘ relocateEntry shift =
      fun entry => entry.id? == some id := by
    funext entry
    cases entry
    rfl
  rw [findId?, Level.entries_relocate, List.find?_map, hk]
  rfl

theorem level?_relocate (shift : Nat) (entry : Entry Level) :
    (relocateEntry shift entry).child.level? = entry.child.level?.map (·.relocate shift) := by
  rcases entry with ⟨key, link, label, level | data⟩ <;> rfl

theorem data?_relocate (shift : Nat) (entry : Entry Level) :
    (relocateEntry shift entry).child.data? = entry.child.data?.map (·.relocate shift) := by
  rcases entry with ⟨key, link, label, level | data⟩ <;> rfl

theorem versionLeaf?_relocate (shift : Nat) (root : Level) :
    versionLeaf? (root.relocate shift) = (versionLeaf? root).map (·.relocate shift) := by
  unfold versionLeaf?
  simp only [Option.bind_eq_bind, Level.findId?_relocate, Option.bind_map, Option.map_bind,
    level?_relocate, data?_relocate, Function.comp_def, Level.entries_relocate, List.head?_map]

theorem versionOffset_relocate (shift : Nat) (root : Level) :
    (versionLeaf? (root.relocate shift)).bind DataEntry.offset =
      ((versionLeaf? root).bind DataEntry.offset).map (· + shift) := by
  rw [versionLeaf?_relocate]
  cases versionLeaf? root <;> rfl

end PeCoff.Resource
