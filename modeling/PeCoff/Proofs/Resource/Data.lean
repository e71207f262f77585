import PeCoff.Proofs.Addressing
import PeCoff.Proofs.Image.Degradation
import PeCoff.Proofs.Resource.VersionRecord

/-!
# The data of leaves

A run of bytes is read whole or refused, whichever of the two readers is asked
for it. `bulk_exact`: so is the data that a leaf of a resource tree leads to,
and there is none exactly where no section holds the leaf's address.
-/

namespace PeCoff

/-- So many bytes are there at the position. None are there anywhere. -/
def Fits (bytes : ByteArray) (position count : Nat) : Prop :=
  count = 0 ∨ position + count ≤ bytes.size

instance (bytes : ByteArray) (position count : Nat) : Decidable (Fits bytes position count) :=
  inferInstanceAs (Decidable (_ ∨ _))

/-- What reading so many bytes comes to, `list` being those that were read: all of them if
they are there, and otherwise a failure that says where and how many. -/
structure Whole (bytes : ByteArray) (position count : Nat) (list : α → List UInt8)
    (outcome : Except ReadError (α × Nat)) : Prop where
  succeeds : (∃ found, outcome = .ok found) ↔ Fits bytes position count
  taken : ∀ data after, outcome = .ok (data, after) ↔
    (list data).length = count ∧ Stands bytes position (list data) ∧ after = position + count
  refused : ∀ cause, outcome = .error cause ↔
    ¬Fits bytes position count ∧ cause = .truncated position count

namespace Resource

inductive Level.HasLeaf : Level → DataEntry → Prop
  | here {level : Level} {entry : Entry Level} {leaf : DataEntry} : entry ∈ level.entries →
      entry.child = .data leaf → level.HasLeaf leaf
  | down {level lower : Level} {entry : Entry Level} {leaf : DataEntry} : entry ∈ level.entries →
      entry.child = .directory lower → lower.HasLeaf leaf → level.HasLeaf leaf

/-- What reading the data of a leaf comes to: nothing if no section holds its address, and
otherwise as many bytes as it says or a failure. -/
structure DataEntry.Answers (headers : Headers) (source : ByteArray) (position : Nat)
    (leaf : DataEntry) : Prop where
  placed : leaf.offset = headers.offset? leaf.rva
  unmapped : leaf.readData.value source position = .ok none ↔ ¬headers.Maps leaf.rva
  taken : ∀ data, leaf.readData.value source position = .ok (some data) ↔
    ∃ start, leaf.offset = some start ∧ data.size = leaf.size.toNat ∧
      PeCoff.Stands source start data.data.toList
  refused : ∀ cause, leaf.readData.value source position = .error cause ↔
    ∃ start, leaf.offset = some start ∧ ¬Fits source start leaf.size.toNat ∧
      cause = .truncated start leaf.size.toNat

end Resource

-- ---------------------------------------------------------------------------
-- Runs of bytes
-- ---------------------------------------------------------------------------

namespace Reader

variable {bytes : ByteArray} {position count after : Nat}

theorem whole_exact (bytes : ByteArray) (position count : Nat) :
    Whole bytes position count Vector.toList ((exact count).run bytes position) where
  succeeds := by
    unfold exact Fits
    dsimp only
    split
    next h => exact iff_of_true ⟨_, rfl⟩ h
    next h => exact iff_of_false nofun h
  taken data after := by
    rw [run_exact_stands, iff_and_self]
    exact fun _ => data.length_toList
  refused cause := by
    rw [run_exact_error, Fits, not_or, Nat.not_le, ← ne_eq, ← Nat.pos_iff_ne_zero, and_assoc]

theorem whole_bytes (bytes : ByteArray) (position count : Nat) :
    Whole bytes position count (fun data => data.data.toList)
      ((Reader.bytes count).run bytes position) where
  succeeds := by
    rw [run_bytes, Fits]
    split
    next h => exact iff_of_true ⟨_, rfl⟩ h
    next h => exact iff_of_false nofun h
  taken data after := by
    rw [run_bytes, stands_iff_window]
    split
    next hf =>
      have hc : (bytes.extract position (position + count)).data.toList.length = count := by
        rw [Array.length_toList, ByteArray.size_data, ByteArray.size_extract]
        omega
      rw [Except.ok.injEq, Prod.mk.injEq]
      constructor
      · rintro ⟨rfl, rfl⟩
        exact ⟨hc, ⟨by rwa [hc], by rw [hc]; rfl⟩, rfl⟩
      · rintro ⟨rfl, ⟨-, hw⟩, rfl⟩
        exact ⟨ByteArray.ext (Array.toList_inj.mp hw), rfl⟩
    next hf =>
      refine iff_of_false nofun ?_
      rintro ⟨rfl, ⟨hc, -⟩, -⟩
      exact hf hc
  refused cause := by
    rw [run_bytes, Fits]
    split
    next h => exact iff_of_false nofun fun hr => hr.1 h
    next h => simp [h, eq_comm]

theorem run_bytes_eq_map :
    (Reader.bytes count).run bytes position =
      ((exact count).run bytes position).map fun found => (⟨found.1.toArray⟩, found.2) := by
  rw [run_bytes, exact]
  dsimp only
  split <;> rfl

end Reader

namespace Resource

open Reader

variable {headers : Headers} {bytes source : ByteArray} {root position : Nat} {leaf : DataEntry}

theorem DataEntry.value_readData_none (ho : leaf.offset = none) :
    leaf.readData.value source position = .ok none := by
  rw [readData, ho]
  rfl

theorem DataEntry.value_readData_some {start : Nat} (ho : leaf.offset = some start) :
    leaf.readData.value source position =
      ((Reader.bytes leaf.size.toNat).value source start).map some := by
  rw [readData, ho]
  simp only [Reader.value, run_bind, seek]
  cases (Reader.bytes leaf.size.toNat).run source start <;> rfl

theorem DataEntry.answers (h : leaf.offset = headers.offset? leaf.rva) (source : ByteArray)
    (position : Nat) : leaf.Answers headers source position := by
  have hn : leaf.offset = none ↔ ¬headers.Maps leaf.rva := by rw [h, Headers.offset?_eq_none]
  cases ho : leaf.offset with
  | none =>
    have hv := @value_readData_none source position leaf ho
    exact ⟨h, iff_of_true hv (hn.mp ho), by simp [hv, ho], by simp [hv, ho]⟩
  | some start =>
    have hb := whole_bytes source start leaf.size.toNat
    have ht (data : ByteArray) : (Reader.bytes leaf.size.toNat).value source start = .ok data ↔
        data.size = leaf.size.toNat ∧ PeCoff.Stands source start data.data.toList := by
      simp [value_eq_ok, hb.taken]
    have hr (cause : ReadError) : (Reader.bytes leaf.size.toNat).value source start =
        .error cause ↔ _ := value_eq_error.trans (hb.refused cause)
    have hm : headers.Maps leaf.rva := Headers.maps_of_offset? (h.symm.trans ho)
    have hv := @value_readData_some source position leaf start ho
    generalize (Reader.bytes leaf.size.toNat).value source start = outcome at hv ht hr
    refine ⟨h, ?_, fun data => ?_, fun cause => ?_⟩ <;> rw [hv]
    · refine iff_of_false ?_ (not_not_intro hm)
      cases outcome <;> exact nofun
    · simp only [ho, Option.some.injEq, exists_eq_left', ← ht]
      cases outcome <;> simp [Except.map]
    · simp only [ho, Option.some.injEq, exists_eq_left', ← hr]
      cases outcome <;> simp [Except.map]

theorem Unfolds.offset_leaf {offset : UInt32} {level : Level} (hl : level.HasLeaf leaf)
    (hu : Unfolds headers bytes root offset level) :
    leaf.offset = headers.offset? leaf.rva := by
  induction hl generalizing offset with
  | here hm hc =>
    refine (hu.leadsTo hm).offset_eq ?_
    rw [hc]
    rfl
  | down hm hc _ ih =>
    obtain ⟨_, hu⟩ := (hu.leadsTo hm).unfolds (Child.level?_eq_some.mpr hc)
    exact ih hu

theorem not_hasLeaf_empty : ¬Level.empty.HasLeaf leaf := by
  rintro (⟨hm, -⟩ | ⟨hm, -⟩) <;> contradiction

/-- A run of bytes is read whole or not at all, by either reader, and so is the data of every
leaf that a tree has, whether the tree is read alone or with its image. -/
theorem bulk_exact (bytes : ByteArray) :
    (∀ position count,
      Whole bytes position count Vector.toList ((exact count).run bytes position) ∧
      Whole bytes position count (fun data => data.data.toList)
        ((Reader.bytes count).run bytes position) ∧
      (Reader.bytes count).run bytes position =
        ((exact count).run bytes position).map fun found => (⟨found.1.toArray⟩, found.2)) ∧
    (∀ headers root depth offset budget start tree left,
      (Level.read headers root depth offset budget).value bytes start = .ok (tree, left) →
        ∀ leaf, tree.HasLeaf leaf →
          ∀ source position, leaf.Answers headers source position) ∧
    ∀ loaded image, Image.read bytes loaded = .ok image →
      ∀ leaf, image.resources.root.HasLeaf leaf →
        ∀ source position, leaf.Answers image.headers source position := by
  refine ⟨fun position count => ⟨whole_exact bytes position count,
    whole_bytes bytes position count, run_bytes_eq_map⟩, ?_, ?_⟩
  · intro headers root depth offset budget start tree left ht leaf hl source position
    obtain ⟨hu, -⟩ := (gives_level depth offset budget start _).mp ht
    exact DataEntry.answers (hu.offset_leaf hl) source position
  · intro loaded image hi leaf hl source position
    have ho := outcome_ofBytes image.headers bytes
    rw [← resources_of_read hi] at ho
    generalize image.resources = resources at ho hl
    cases ho with
    | missing | broken => exact absurd hl not_hasLeaf_empty
    | whole _ _ hu => exact DataEntry.answers (hu.offset_leaf hl) source position

def scattered : Headers :=
  .ofDirectories [] [⟨.replicate 8 0, 16, 0x1000, 4, 112, 0, 0, 0, 0, ⟨0⟩⟩]

/-- Two leaves side by side and one on the level below, their addresses, and the four bytes of
the section. Each field is given by its width and its value. -/
def scatteredBytes : ByteArray :=
  ⟨(([
      (14, 0), (2, 3), (4, 1), (4, 64), (4, 2), (4, 80), (4, 3), (4, 0x80000028),
      (14, 0), (2, 1), (4, 1), (4, 96),
      (4, 0x1000), (4, 4), (8, 0),
      (4, 0x1002), (4, 4), (8, 0),
      (4, 0x1010), (4, 4), (8, 0),
      (4, 0x44332211)] : List (Nat × Nat)).flatMap fun field =>
    LittleEndian.bytes field.1 field.2).toArray⟩

def scatteredTree : Level :=
  ⟨⟨0, 0, 0, 0, 0, 3⟩, [
    ⟨.id 1, .data 64, none, .data ⟨0x1000, 4, 0, 0, some 112⟩⟩,
    ⟨.id 2, .data 80, none, .data ⟨0x1002, 4, 0, 0, some 114⟩⟩,
    ⟨.id 3, .directory 40, none,
      .directory (single 1 (.data 96) (.data ⟨0x1010, 4, 0, 0, none⟩))⟩]⟩

set_option maxRecDepth 4000 in
/-- The section ends in front of the third leaf's address. The second leaf's data is in the
section, but the bytes end before it does. -/
theorem bulk_exact_scattered :
    (Level.read scattered 0 maxDepth 0 maxEntries).value scatteredBytes 0 =
        .ok (scatteredTree, 65532) ∧
      (DataEntry.mk 0x1000 4 0 0 (some 112)).readData.value scatteredBytes 0 =
        .ok (some ⟨#[0x11, 0x22, 0x33, 0x44]⟩) ∧
      (DataEntry.mk 0x1002 4 0 0 (some 114)).readData.value scatteredBytes 0 =
        .error (.truncated 114 4) ∧
      (DataEntry.mk 0x1010 4 0 0 none).readData.value scatteredBytes 0 = .ok none := by
  have ht : (Level.read scattered 0 maxDepth 0 maxEntries).value scatteredBytes 0 =
      .ok (scatteredTree, 65532) := rfl
  obtain ⟨-, hl, -⟩ := bulk_exact scatteredBytes
  have hw := hl _ _ _ _ _ _ _ _ ht _ (.here (.head _) rfl) scatteredBytes 0
  have hc := hl _ _ _ _ _ _ _ _ ht _ (.here (.tail _ (.head _)) rfl) scatteredBytes 0
  have hn := hl _ _ _ _ _ _ _ _ ht _
    (.down (.tail _ (.tail _ (.head _))) rfl (.here (.head _) rfl)) scatteredBytes 0
  exact ⟨ht, (hw.taken _).mpr ⟨112, rfl, rfl, rfl, rfl, rfl, rfl, trivial⟩,
    (hc.refused _).mpr ⟨114, rfl, by decide, rfl⟩,
    hn.unmapped.mpr (by decide)⟩

end Resource

end PeCoff
