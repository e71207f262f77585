import PeCoff.Resource.Level

/-!
# Summary of a resource tree

Counts over the whole tree. A level that several entries lead to counts once
for each of them.
-/

namespace PeCoff.Resource

structure Summary where
  levels : Nat
  entries : Nat
  named : Nat
  leaves : Nat
  mappedLeaves : Nat
  deriving DecidableEq

namespace Summary

def bare : Summary := ⟨1, 0, 0, 0, 0⟩

/-- One more entry on a level, with the summary of what it leads to. -/
def addEntry (whole : Summary) (isNamed : Bool) : Child Summary → Summary
  | .data entry => {
      whole with
      entries := whole.entries + 1
      named := whole.named + isNamed.toNat
      leaves := whole.leaves + 1
      mappedLeaves := whole.mappedLeaves + entry.offset.isSome.toNat }
  | .directory below => {
      levels := max whole.levels (below.levels + 1)
      entries := whole.entries + 1 + below.entries
      named := whole.named + isNamed.toNat + below.named
      leaves := whole.leaves + below.leaves
      mappedLeaves := whole.mappedLeaves + below.mappedLeaves }

end Summary

theorem Level.sizeOf_below {level below : Level} {entry : Entry Level}
    (hm : entry ∈ level.entries) (hc : entry.child = .directory below) :
    sizeOf below < sizeOf level := by
  have he := List.sizeOf_lt_of_mem hm
  cases level with
  | mk header entries =>
    cases entry with
    | mk key link label child =>
      simp only at hc
      subst hc
      simp only [Level.mk.sizeOf_spec, Entry.mk.sizeOf_spec, Child.directory.sizeOf_spec] at *
      omega

def Level.summary (level : Level) : Summary :=
  level.entries.attach.foldl (fun whole ⟨entry, _hm⟩ =>
    whole.addEntry entry.label.isSome <|
      match _hc : entry.child with
      | .directory below => .directory below.summary
      | .data data => .data data) .bare
termination_by sizeOf level
decreasing_by exact Level.sizeOf_below _hm _hc

end PeCoff.Resource
