import PeCoff.Resource.Summary

/-!
# Counting a resource tree

The summary of a level from the summaries of the levels right below it: its
entries are its own and those below each of them, and it stays within a number
of levels if it may have one and each level below stays within one less.
-/

namespace PeCoff.Resource

def Child.summarize : Child Level → Child Summary
  | .directory below => .directory below.summary
  | .data entry => .data entry

def Child.entryCount : Child Level → Nat
  | .directory below => below.summary.entries
  | .data _ => 0

def Child.Under (limit : Nat) : Child Level → Prop
  | .directory below => below.summary.levels < limit
  | .data _ => True

def entriesBelow : List (Entry Level) → Nat
  | [] => 0
  | entry :: rest => entry.child.entryCount + entriesBelow rest

theorem Level.summary_eq (level : Level) :
    level.summary = level.entries.foldl
      (fun whole entry => whole.addEntry entry.label.isSome entry.child.summarize) .bare := by
  rw [Level.summary]
  refine Eq.trans ?_ List.foldl_attach
  congr 1
  funext whole entry
  rcases entry with ⟨⟨key, link, label, below | data⟩, hm⟩ <;> rfl

theorem foldl_entries (whole : Summary) (entries : List (Entry Level)) :
    (entries.foldl
      (fun whole entry => whole.addEntry entry.label.isSome entry.child.summarize) whole).entries =
      whole.entries + (entries.length + entriesBelow entries) := by
  induction entries generalizing whole with
  | nil => rfl
  | cons entry rest ih =>
    rw [List.foldl_cons, ih, List.length_cons, entriesBelow]
    cases entry.child <;> simp only [Child.summarize, Summary.addEntry, Child.entryCount] <;> omega

theorem foldl_levels_le (whole : Summary) (entries : List (Entry Level)) (limit : Nat) :
    (entries.foldl
      (fun whole entry => whole.addEntry entry.label.isSome entry.child.summarize) whole).levels ≤
        limit ↔
      whole.levels ≤ limit ∧ ∀ entry ∈ entries, entry.child.Under limit := by
  induction entries generalizing whole with
  | nil => simp
  | cons entry rest ih =>
    rw [List.foldl_cons, ih, List.forall_mem_cons, ← and_assoc]
    refine and_congr_left fun _ => ?_
    cases entry.child with
    | directory below => exact Nat.max_le
    | data entry => simp [Child.summarize, Summary.addEntry, Child.Under]

theorem summary_entries (header : LevelHeader) (entries : List (Entry Level)) :
    (Level.mk header entries).summary.entries = entries.length + entriesBelow entries := by
  rw [Level.summary_eq, foldl_entries]
  simp [Summary.bare]

theorem summary_levels_le (header : LevelHeader) (entries : List (Entry Level)) (limit : Nat) :
    (Level.mk header entries).summary.levels ≤ limit ↔
      0 < limit ∧ ∀ entry ∈ entries, entry.child.Under limit := by
  rw [Level.summary_eq, foldl_levels_le]
  rfl

theorem summary_levels_pos (level : Level) : 0 < level.summary.levels := by
  cases level with
  | mk header entries => exact ((summary_levels_le header entries _).mp (Nat.le_refl _)).1

end PeCoff.Resource
