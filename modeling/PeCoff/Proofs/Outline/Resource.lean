import PeCoff.Outline.Resource
import PeCoff.Proofs.Outline.Faithful

/-!
# The outlines of resources and version records are faithful

A level is shown with everything below it. Two levels with the same JSON have the
same entries by induction on the tree: what an entry leads to is smaller than the
level that it stands in.
-/

namespace PeCoff

open Outline

namespace Version

@[simp] theorem FileFlags.faithful : Faithful outline :=
  .flags (by decide +kernel) fun h => congrArg mk (UInt32.toNat_inj.mp h)

@[simp] theorem FixedInfo.faithful : Faithful outline := .record fun a b h => by
  cases a; cases b
  simpa using h

@[simp] theorem Record.faithful : Faithful outline := .record fun a b h => by
  cases a; cases b
  simpa using h

end Version

namespace Resource

@[simp] theorem Key.faithful : Faithful outline where
  inj {a b} h := by cases a <;> cases b <;> simp_all [outline]
  ne_null a := by cases a <;> simp [outline]

@[simp] theorem Link.faithful : Faithful outline where
  inj {a b} h := by cases a <;> cases b <;> simp_all [outline]
  ne_null a := by cases a <;> simp [outline]

@[simp] theorem Label.faithful : Faithful outline := .record fun a b h => by
  cases a; cases b
  simpa using h

@[simp] theorem DataEntry.faithful : Faithful outline := .record fun a b h => by
  cases a; cases b
  simpa using h

def Child.outline : Child Level → Outline
  | .directory below => .alternative "Directory" below.outline
  | .data leaf => .alternative "Data" leaf.outline

theorem Level.outline_eq (level : Level) :
    level.outline =
      level.header.outline (level.entries.map fun entry => entry.outline entry.child.outline) := by
  rw [Level.outline]
  refine congrArg level.header.outline (.trans (List.map_congr_left fun ⟨entry, _⟩ _ => ?_)
    (List.attach_map_val (f := fun entry : Entry Level => entry.outline entry.child.outline)))
  refine congrArg entry.outline ?_
  cases entry.child <;> rfl

theorem LevelHeader.inj {header header' : LevelHeader} {entries entries' : List Outline}
    (h : (header.outline entries).toJson = (header'.outline entries').toJson) :
    header = header' ∧ entries.map toJson = entries'.map toJson := by
  cases header; cases header'
  simpa [outline, and_assoc] using h

theorem Child.inj {child child' : Child Level}
    (hl : ∀ below below', child = .directory below → child' = .directory below' →
      below.outline.toJson = below'.outline.toJson → below = below')
    (h : child.outline.toJson = child'.outline.toJson) : child = child' := by
  cases child with
  | directory below =>
    cases child' with
    | directory below' => exact congrArg directory (hl _ _ rfl rfl (by simpa [outline] using h))
    | data leaf => simp [outline] at h
  | data leaf =>
    cases child' with
    | directory below => simp [outline] at h
    | data leaf' => exact congrArg data (by simpa [outline] using h)

theorem Entry.inj {entry entry' : Entry Level}
    (hc : entry.child.outline.toJson = entry'.child.outline.toJson → entry.child = entry'.child)
    (h : (entry.outline entry.child.outline).toJson =
      (entry'.outline entry'.child.outline).toJson) : entry = entry' := by
  cases entry; cases entry'
  simp only [outline, toJson_record, List.map_cons, Json.object.injEq, List.cons.injEq,
    Prod.mk.injEq, true_and, Key.faithful.iff, Link.faithful.iff, Label.faithful.ofOption_iff] at h
  obtain ⟨rfl, rfl, rfl, h, -⟩ := h
  exact congrArg (mk _ _ _) (hc h)

theorem Level.inj (level other : Level) (h : level.outline.toJson = other.outline.toJson) :
    level = other := by
  rw [outline_eq, outline_eq] at h
  obtain ⟨hh, he⟩ := LevelHeader.inj h
  rw [List.map_map, List.map_map] at he
  have hm : level.entries = other.entries := by
    refine map_inj (fun entry hm entry' _ he => Entry.inj (Child.inj ?_) he) he
    exact fun below below' hc _ hb => inj below below' hb
  cases level; cases other
  cases hh; cases hm
  rfl
termination_by sizeOf level
decreasing_by exact Level.sizeOf_below hm hc

@[simp] theorem Level.faithful : Faithful outline where
  inj {a b} h := Level.inj a b h
  ne_null level := by simp [outline_eq, LevelHeader.outline]

@[simp] theorem Table.faithful : Faithful outline := .record fun a b h => by
  cases a; cases b
  simpa using h

end Resource

end PeCoff
