import Mathlib.Data.Nat.Bitwise
import PeCoff.Proofs.Bytes.Access
import PeCoff.Proofs.Bytes.Anchored
import PeCoff.Proofs.Resource.Summary
import PeCoff.Resource.Table

/-!
# What a resource tree is

The tree at an offset, defined by what stands where, with no order of reading
and no limits. Reading gives this tree and no other, exactly if it is within the
number of levels and of entries that are allowed.

Nothing is said of which failure it is when reading fails.
-/

namespace PeCoff.Resource

-- ---------------------------------------------------------------------------
-- The unfolding of the bytes
-- ---------------------------------------------------------------------------

structure LevelHeader.At (bytes : ByteArray) (position : Nat) (header : LevelHeader) : Prop where
  characteristics : u32At bytes position = some header.characteristics
  timeDateStamp : u32At bytes (position + 4) = some header.timeDateStamp
  majorVersion : u16At bytes (position + 8) = some header.majorVersion
  minorVersion : u16At bytes (position + 10) = some header.minorVersion
  numberOfNamedEntries : u16At bytes (position + 12) = some header.numberOfNamedEntries
  numberOfIdEntries : u16At bytes (position + 14) = some header.numberOfIdEntries

/-- A first field from 2³¹ on is the offset of a name above that, and any other ends in a
number of 16 bits. -/
inductive Key.Stored (field : UInt32) : Key → Prop
  | name {offset : UInt32} : field.toNat = 2 ^ 31 + offset.toNat → Stored field (.name offset)
  | id {number : UInt16} : field.toNat < 2 ^ 31 → number.toNat = field.toNat % 2 ^ 16 →
      Stored field (.id number)

/-- A second field from 2³¹ on is the offset of a level above that, and any other is the offset
of a leaf. -/
inductive Link.Stored (field : UInt32) : Link → Prop
  | directory {offset : UInt32} : field.toNat = 2 ^ 31 + offset.toNat →
      Stored field (.directory offset)
  | data : field.toNat < 2 ^ 31 → Stored field (.data field)

structure RawEntry.At (bytes : ByteArray) (position : Nat) (raw : RawEntry) : Prop where
  key : ∃ field, u32At bytes position = some field ∧ raw.key.Stored field
  link : ∃ field, u32At bytes (position + 4) = some field ∧ raw.link.Stored field

structure Label.At (bytes : ByteArray) (position : Nat) (label : Label) : Prop where
  length : u16At bytes position = some label.length
  text : unitsAt bytes label.length.toNat (position + 2) = some (Utf16.encode label.text)

structure DataEntry.At (headers : Headers) (bytes : ByteArray) (position : Nat)
    (entry : DataEntry) : Prop where
  rva : u32At bytes position = some entry.rva
  size : u32At bytes (position + 4) = some entry.size
  codePage : u32At bytes (position + 8) = some entry.codePage
  reserved : u32At bytes (position + 12) = some entry.reserved
  offset : entry.offset = headers.offset? entry.rva

def Entry.raw (entry : Entry σ) : RawEntry := ⟨entry.key, entry.link⟩

/-- A named entry has the label at its offset, another has none. -/
def Labelled (bytes : ByteArray) (root : Nat) : Key → Option Label → Prop
  | .name offset, some label => label.At bytes (root + offset.toNat)
  | .name _, none => False
  | .id _, label => label = none

mutual
/-- The level at an offset from the root, with everything below it. -/
inductive Unfolds (headers : Headers) (bytes : ByteArray) (root : Nat) : UInt32 → Level → Prop
  | level {offset : UInt32} {header : LevelHeader} {entries : List (Entry Level)} :
      header.At bytes (root + offset.toNat) →
      entries.length = header.numberOfNamedEntries.toNat + header.numberOfIdEntries.toNat →
      (∀ (k : Nat) (entry : Entry Level), entries[k]? = some entry →
        entry.raw.At bytes (root + offset.toNat + 16 + 8 * k)) →
      (∀ entry ∈ entries, Labelled bytes root entry.key entry.label) →
      (∀ entry ∈ entries, LeadsTo headers bytes root entry.link entry.child) →
      Unfolds headers bytes root offset ⟨header, entries⟩
inductive LeadsTo (headers : Headers) (bytes : ByteArray) (root : Nat) : Link → Child Level → Prop
  | directory {offset : UInt32} {level : Level} : Unfolds headers bytes root offset level →
      LeadsTo headers bytes root (.directory offset) (.directory level)
  | data {offset : UInt32} {entry : DataEntry} :
      entry.At headers bytes (root + offset.toNat) →
      LeadsTo headers bytes root (.data offset) (.data entry)
end

-- ---------------------------------------------------------------------------
-- Records
-- ---------------------------------------------------------------------------

open Reader

variable {headers : Headers} {bytes : ByteArray} {root position after : Nat}

theorem LevelHeader.run_read_ok {header : LevelHeader} :
    read.run bytes position = .ok (header, after) ↔
      header.At bytes position ∧ after = position + 16 := by
  simp only [read, run_bind_ok, run_u32_ok, run_u16_ok, run_pure_ok]
  constructor
  · rintro ⟨_, _, ⟨h₀, rfl⟩, _, _, ⟨h₁, rfl⟩, _, _, ⟨h₂, rfl⟩, _, _, ⟨h₃, rfl⟩, _, _, ⟨h₄, rfl⟩,
      _, _, ⟨h₅, rfl⟩, rfl, rfl⟩
    exact ⟨⟨h₀, h₁, h₂, h₃, h₄, h₅⟩, rfl⟩
  · rintro ⟨⟨h₀, h₁, h₂, h₃, h₄, h₅⟩, rfl⟩
    exact ⟨_, _, ⟨h₀, rfl⟩, _, _, ⟨h₁, rfl⟩, _, _, ⟨h₂, rfl⟩, _, _, ⟨h₃, rfl⟩, _, _, ⟨h₄, rfl⟩,
      _, _, ⟨h₅, rfl⟩, rfl, rfl⟩

theorem highBit_iff {field : UInt32} : field &&& highBit = 0 ↔ field.toNat < 2 ^ 31 := by
  have hf := field.toNat_lt
  have hb : (field &&& highBit).toNat = (field.toNat.testBit 31).toNat * 2 ^ 31 := by
    rw [UInt32.toNat_and]
    exact Nat.and_two_pow _ 31
  have ht : field.toNat.testBit 31 = false ↔ field.toNat < 2 ^ 31 := by
    rw [Nat.testBit_eq_decide_div_mod_eq, decide_eq_false_iff_not]
    omega
  rw [← UInt32.toNat_inj, hb, ← ht]
  cases field.toNat.testBit 31 <;> decide

theorem toNat_offset (field : UInt32) : (field &&& offsetMask).toNat = field.toNat % 2 ^ 31 := by
  rw [UInt32.toNat_and]
  exact Nat.and_two_pow_sub_one_eq_mod _ 31

theorem offset_eq_iff {field offset : UInt32} :
    (field &&& highBit ≠ 0 ∧ field &&& offsetMask = offset) ↔
      field.toNat = 2 ^ 31 + offset.toNat := by
  have hf := field.toNat_lt
  have ho := offset.toNat_lt
  rw [ne_eq, highBit_iff, ← UInt32.toNat_inj, toNat_offset]
  omega

theorem Key.ofField_eq_iff {field : UInt32} {key : Key} :
    ofField field = key ↔ key.Stored field := by
  constructor
  · rintro rfl
    unfold ofField
    split
    next h => exact .id (highBit_iff.mp h) (UInt32.toNat_toUInt16 field)
    next h => exact .name (offset_eq_iff.mp ⟨h, rfl⟩)
  · rintro (ho | ⟨hl, hn⟩)
    · obtain ⟨hb, rfl⟩ := offset_eq_iff.mpr ho
      rw [ofField, if_neg hb]
    · rw [ofField, if_pos (highBit_iff.mpr hl), Key.id.injEq, ← UInt16.toNat_inj,
        UInt32.toNat_toUInt16, hn]

theorem Link.ofField_eq_iff {field : UInt32} {link : Link} :
    ofField field = link ↔ link.Stored field := by
  constructor
  · rintro rfl
    unfold ofField
    split
    next h => exact .data (highBit_iff.mp h)
    next h => exact .directory (offset_eq_iff.mp ⟨h, rfl⟩)
  · rintro (ho | hl)
    · obtain ⟨hb, rfl⟩ := offset_eq_iff.mpr ho
      rw [ofField, if_neg hb]
    · rw [ofField, if_pos (highBit_iff.mpr hl)]

theorem RawEntry.run_read_ok {raw : RawEntry} :
    read.run bytes position = .ok (raw, after) ↔
      raw.At bytes position ∧ after = position + 8 := by
  simp only [read, run_bind_ok, run_u32_ok, run_pure_ok]
  constructor
  · rintro ⟨_, _, ⟨h₀, rfl⟩, _, _, ⟨h₁, rfl⟩, rfl, rfl⟩
    exact ⟨⟨⟨_, h₀, Key.ofField_eq_iff.mp rfl⟩, _, h₁, Link.ofField_eq_iff.mp rfl⟩, rfl⟩
  · rintro ⟨⟨⟨first, h₀, hk⟩, second, h₁, hl⟩, rfl⟩
    refine ⟨first, _, ⟨h₀, rfl⟩, second, _, ⟨h₁, rfl⟩, ?_, rfl⟩
    rw [Key.ofField_eq_iff.mpr hk, Link.ofField_eq_iff.mpr hl]

theorem Label.run_read_ok {label : Label} :
    read.run bytes position = .ok (label, after) ↔
      label.At bytes position ∧ after = position + 2 + 2 * label.length.toNat := by
  simp only [read, run_bind_ok, run_u16_ok, run_utf16_ok (units_lt _), run_pure_ok]
  constructor
  · rintro ⟨_, _, ⟨h₀, rfl⟩, _, _, ⟨h₁, rfl⟩, rfl, rfl⟩
    exact ⟨⟨h₀, h₁⟩, rfl⟩
  · rintro ⟨⟨h₀, h₁⟩, rfl⟩
    exact ⟨_, _, ⟨h₀, rfl⟩, _, _, ⟨h₁, rfl⟩, rfl, rfl⟩

theorem DataEntry.run_read_ok {entry : DataEntry} :
    (read headers).run bytes position = .ok (entry, after) ↔
      entry.At headers bytes position ∧ after = position + 16 := by
  simp only [read, run_bind_ok, run_u32_ok, run_pure_ok]
  constructor
  · rintro ⟨_, _, ⟨h₀, rfl⟩, _, _, ⟨h₁, rfl⟩, _, _, ⟨h₂, rfl⟩, _, _, ⟨h₃, rfl⟩, rfl, rfl⟩
    exact ⟨⟨h₀, h₁, h₂, h₃, rfl⟩, rfl⟩
  · rintro ⟨⟨h₀, h₁, h₂, h₃, ho⟩, rfl⟩
    refine ⟨_, _, ⟨h₀, rfl⟩, _, _, ⟨h₁, rfl⟩, _, _, ⟨h₂, rfl⟩, _, _, ⟨h₃, rfl⟩, ?_, rfl⟩
    rw [← ho]

-- ---------------------------------------------------------------------------
-- Entries
-- ---------------------------------------------------------------------------

/-- An entry has its label and its child from the bytes, and is no deeper than a
level with `limit` levels allows. -/
structure Stands (headers : Headers) (bytes : ByteArray) (root limit : Nat) (entry : Entry Level) :
    Prop where
  label : Labelled bytes root entry.key entry.label
  child : LeadsTo headers bytes root entry.link entry.child
  under : entry.child.Under limit

theorem gives_label (key : Key) :
    Gives (readLabel root key) bytes (Labelled bytes root key) := by
  unfold readLabel
  cases key with
  | id number => exact .pure none
  | name offset =>
    refine .seek_bind fun label => ?_
    simp only [value_eq_ok, run_bind_ok, Label.run_read_ok, run_pure_ok]
    constructor
    · rintro ⟨_, _, _, ⟨hl, rfl⟩, rfl, rfl⟩
      exact hl
    · intro hl
      cases label with
      | none => contradiction
      | some label => exact ⟨_, label, _, ⟨hl, rfl⟩, rfl, rfl⟩

section

-- A level's entries are read with a reader for the levels below it. What that
-- reader gives is known here, and shown by the induction over the levels.
variable {below : UInt32 → Nat → Reader (Level × Nat)} {limit : Nat}
  (hb : ∀ offset budget, Gives (below offset budget) bytes fun found =>
    Unfolds headers bytes root offset found.1 ∧ found.1.summary.levels < limit ∧
      found.1.summary.entries ≤ budget ∧ found.2 = budget - found.1.summary.entries)
include hb

theorem gives_child (budget : Nat) (link : Link) :
    Gives (Level.readChild headers root below budget link) bytes fun found =>
      LeadsTo headers bytes root link found.1 ∧ found.1.Under limit ∧
        found.1.entryCount ≤ budget ∧ found.2 = budget - found.1.entryCount := by
  unfold Level.readChild
  cases link with
  | directory offset =>
    intro position found
    rw [(hb offset budget).bind (fun _ => .pure _) position found]
    constructor
    · rintro ⟨⟨level, left⟩, ⟨hu, hl, he, hs⟩, rfl⟩
      exact ⟨.directory hu, hl, he, hs⟩
    · rcases found with ⟨child, left⟩
      rintro ⟨h, hl, he, hs⟩
      cases h with
      | directory hu => exact ⟨(_, left), ⟨hu, hl, he, hs⟩, rfl⟩
  | data offset =>
    refine .seek_bind fun found => ?_
    simp only [value_eq_ok, run_bind_ok, DataEntry.run_read_ok, run_pure_ok]
    constructor
    · rintro ⟨_, entry, _, ⟨he, rfl⟩, rfl, rfl⟩
      exact ⟨.data he, trivial, Nat.zero_le _, rfl⟩
    · rcases found with ⟨child, left⟩
      rintro ⟨h, -, -, hs⟩
      cases h with
      | data he =>
        cases hs
        exact ⟨_, _, _, ⟨he, rfl⟩, rfl, rfl⟩

theorem gives_entry (done : List (Entry Level) × Nat) (raw : RawEntry) :
    Gives (Level.readEntry headers root below done raw) bytes fun later =>
      ∃ entry, entry.raw = raw ∧ Stands headers bytes root limit entry ∧
        entry.child.entryCount ≤ done.2 ∧
        later = (entry :: done.1, done.2 - entry.child.entryCount) := by
  intro position later
  unfold Level.readEntry
  rw [(gives_label raw.key).bind (fun label => (gives_child hb done.2 raw.link).bind
    fun found => .pure _) position later]
  constructor
  · rintro ⟨label, hl, ⟨child, left⟩, ⟨hc, hu, he, hs⟩, rfl⟩
    simp only at hs
    subst hs
    exact ⟨⟨raw.key, raw.link, label, child⟩, rfl, ⟨hl, hc, hu⟩, he, rfl⟩
  · rintro ⟨⟨key, link, label, child⟩, rfl, ⟨hl, hc, hu⟩, he, rfl⟩
    exact ⟨label, hl, (child, _), ⟨hc, hu, he, rfl⟩, rfl⟩

theorem gives_entries (done : List (Entry Level) × Nat) (raw : List RawEntry) :
    Gives (fold (Level.readEntry headers root below) done raw) bytes fun later =>
      ∃ entries, entries.map Entry.raw = raw ∧
        (∀ entry ∈ entries, Stands headers bytes root limit entry) ∧
        entriesBelow entries ≤ done.2 ∧
        later = (entries.reverse ++ done.1, done.2 - entriesBelow entries) := by
  induction raw generalizing done with
  | nil =>
    intro position later
    rw [fold_nil, Gives.pure done position later]
    constructor
    · rintro rfl
      exact ⟨[], rfl, by simp, Nat.zero_le _, rfl⟩
    · rintro ⟨entries, hm, -, -, rfl⟩
      cases List.map_eq_nil_iff.mp hm
      rfl
  | cons first rest ih =>
    intro position later
    rw [fold_cons, (gives_entry hb done first).bind ih position later]
    constructor
    · rintro ⟨_, ⟨entry, rfl, hs, he, rfl⟩, entries, rfl, ha, hl, rfl⟩
      refine ⟨entry :: entries, rfl, List.forall_mem_cons.mpr ⟨hs, ha⟩, ?_, ?_⟩
      · rw [entriesBelow]
        exact Nat.add_le_of_le_sub' he hl
      · rw [entriesBelow, List.reverse_cons, List.append_assoc, Nat.sub_sub]
        rfl
    · rintro ⟨entries, hm, ha, hl, rfl⟩
      cases entries with
      | nil => contradiction
      | cons entry entries =>
        obtain ⟨rfl, rfl⟩ := List.cons.inj hm
        obtain ⟨hs, ha⟩ := List.forall_mem_cons.mp ha
        rw [entriesBelow] at hl ⊢
        refine ⟨_, ⟨entry, rfl, hs, by omega, rfl⟩, entries, rfl, ha, ?_, ?_⟩
        · show entriesBelow entries ≤ done.2 - entry.child.entryCount
          omega
        · rw [List.reverse_cons, List.append_assoc, Nat.sub_sub]
          rfl

end

-- ---------------------------------------------------------------------------
-- Levels
-- ---------------------------------------------------------------------------

theorem gives_level (depth : Nat) (offset : UInt32) (budget : Nat) :
    Gives (Level.read headers root depth offset budget) bytes fun found =>
      Unfolds headers bytes root offset found.1 ∧ found.1.summary.levels ≤ depth ∧
        found.1.summary.entries ≤ budget ∧ found.2 = budget - found.1.summary.entries := by
  induction depth generalizing offset budget with
  | zero =>
    rintro position ⟨level, left⟩
    have hl := summary_levels_pos level
    constructor
    · intro h
      contradiction
    · rintro ⟨-, hd, -⟩
      simp only at hd
      omega
  | succ depth ih =>
    -- Within one level less is fewer levels than this.
    have hb := fun offset budget position found =>
      (ih offset budget position found).trans (and_congr_right fun _ =>
        and_congr_left fun _ => Nat.lt_succ_iff.symm)
    unfold Level.read
    refine .seek_bind fun found => ?_
    simp only [value_eq_ok, run_bind_ok, LevelHeader.run_read_ok, run_require_ok,
      run_times_ok fun _ _ _ => RawEntry.run_read_ok, run_pure_ok]
    constructor
    · rintro ⟨after, header, _, ⟨hh, rfl⟩, _, _, ⟨hc, rfl⟩, raw, _, ⟨hl, hr, rfl⟩, done, middle,
        hd, rfl, rfl⟩
      obtain ⟨entries, rfl, hs, he, rfl⟩ := (gives_entries hb _ raw _ done).mp
        (value_eq_ok.mpr ⟨_, hd⟩)
      rw [List.length_map] at hl
      simp only [List.append_nil, List.reverse_reverse] at he ⊢
      rw [summary_entries, summary_levels_le, hl]
      refine ⟨.level hh hl (fun k entry hk => hr k _ ?_) (fun entry hm => (hs entry hm).label)
        (fun entry hm => (hs entry hm).child), ⟨by omega, fun entry hm => (hs entry hm).under⟩,
        Nat.add_le_of_le_sub' hc he, Nat.sub_sub _ _ _⟩
      rw [List.getElem?_map, hk]
      rfl
    · rcases found with ⟨⟨header, entries⟩, left⟩
      rintro ⟨hu, hl, he, hs⟩
      simp only at hu hl he hs
      rw [summary_levels_le] at hl
      rw [summary_entries] at he hs
      cases hu with
      | level hh hc hr hn hx =>
        have hc : entries.length = header.entryCount := hc
        rw [hc] at he hs
        have ha : ∀ entry ∈ entries, Stands headers bytes root (depth + 1) entry :=
          fun entry hm => ⟨hn entry hm, hx entry hm, hl.2 entry hm⟩
        obtain ⟨after, hd⟩ := value_eq_ok.mp ((gives_entries hb ([], budget - header.entryCount) _
          (root + offset.toNat + 16 + 8 * header.entryCount) _).mpr
            ⟨entries, rfl, ha, Nat.le_sub_of_add_le' he, rfl⟩)
        refine ⟨_, header, _, ⟨hh, rfl⟩, (), _, ⟨by omega, rfl⟩, entries.map Entry.raw, _,
          ⟨by rw [List.length_map, hc], fun k raw hk => ?_, rfl⟩, _, _, hd, ?_, rfl⟩
        · rw [List.getElem?_map] at hk
          obtain ⟨entry, he, rfl⟩ := Option.map_eq_some_iff.mp hk
          exact hr k entry he
        · rw [hs, List.append_nil, List.reverse_reverse, Nat.sub_sub]

/-- Reading from anywhere gives exactly the tree at the offset, `depth` of the
levels being used up already. -/
theorem Level.value_read_iff (headers : Headers) (bytes : ByteArray) (root position depth : Nat)
    (offset : UInt32) (budget left : Nat) (level : Level) :
    (Level.read headers root (maxDepth - depth) offset budget).value bytes position =
        .ok (level, left) ↔
      Unfolds headers bytes root offset level ∧ depth + level.summary.levels ≤ 8 ∧
        level.summary.entries ≤ budget ∧ left = budget - level.summary.entries := by
  have hm : maxDepth = 8 := rfl
  have hl := summary_levels_pos level
  rw [gives_level (maxDepth - depth) offset budget position (level, left)]
  refine and_congr_right fun _ => and_congr_left fun _ => ?_
  simp only
  omega

/-- A named entry and a numbered one that lead to the same level. Each field is given by its
width and its value. -/
def nestedBytes : ByteArray :=
  ⟨(([
      (12, 0), (2, 1), (2, 1), (4, 0x80000048), (4, 0x80000020), (4, 0x70005), (4, 0x80000020),
      (14, 0), (2, 1), (4, 1033), (4, 56),
      (4, 0x1000), (4, 4), (8, 0),
      (2, 2), (2, 0x41), (2, 0x42)] : List (Nat × Nat)).flatMap fun field =>
    LittleEndian.bytes field.1 field.2).toArray⟩

def nestedHeaders : Headers where
  loaded := false
  ntOffset := none
  file := ⟨⟨0⟩, 1, 0, 0, 0, 0, ⟨0⟩⟩
  optional := none
  sections := [⟨.replicate 8 0, 16, 0x1000, 4, 112, 0, 0, 0, 0, ⟨0⟩⟩]

def nestedTree : Level :=
  let below : Level := ⟨⟨0, 0, 0, 0, 0, 1⟩, [
    ⟨.id 1033, .data 56, none, .data ⟨0x1000, 4, 0, 0, some 112⟩⟩]⟩
  ⟨⟨0, 0, 0, 0, 1, 1⟩, [
    ⟨.name 72, .directory 32, some ⟨2, "AB"⟩, .directory below⟩,
    ⟨.id 5, .directory 32, none, .directory below⟩]⟩

/-- The two levels may be the seventh and the last, and the entry that is shared counts twice. -/
theorem Level.value_read_iff_nested :
    (Level.read nestedHeaders 0 (maxDepth - 6) 0 4).value nestedBytes 0 = .ok (nestedTree, 0) ∧
      Unfolds nestedHeaders nestedBytes 0 0 nestedTree ∧
      6 + nestedTree.summary.levels ≤ 8 ∧ nestedTree.summary.entries ≤ 4 := by
  have hr : (Level.read nestedHeaders 0 (maxDepth - 6) 0 4).value nestedBytes 0 =
      .ok (nestedTree, 0) := rfl
  obtain ⟨hu, hl, he, -⟩ := (Level.value_read_iff _ _ _ _ _ _ _ _ _).mp hr
  exact ⟨hr, hu, hl, he⟩

theorem Unfolds.value_read {offset : UInt32} {level : Level} {depth budget : Nat}
    (hu : Unfolds headers bytes root offset level) (hd : level.summary.levels ≤ depth)
    (hb : level.summary.entries ≤ budget) (position : Nat) :
    (Level.read headers root depth offset budget).value bytes position =
      .ok (level, budget - level.summary.entries) :=
  (gives_level depth offset budget position _).mpr ⟨hu, hd, hb, rfl⟩

/-- There is no other tree at an offset, whether within the limits or not. -/
theorem Unfolds.unique {offset : UInt32} {first second : Level}
    (hf : Unfolds headers bytes root offset first) (hs : Unfolds headers bytes root offset second) :
    first = second := by
  have h := (hf.value_read (Nat.le_max_left _ second.summary.levels)
    (Nat.le_max_left _ second.summary.entries) 0).symm.trans
      (hs.value_read (Nat.le_max_right first.summary.levels _)
        (Nat.le_max_right first.summary.entries _) 0)
  exact congrArg Prod.fst (Except.ok.inj h)

-- ---------------------------------------------------------------------------
-- Leaves
-- ---------------------------------------------------------------------------

theorem Unfolds.leadsTo {offset : UInt32} {level : Level} {entry : Entry Level}
    (hu : Unfolds headers bytes root offset level) (hm : entry ∈ level.entries) :
    LeadsTo headers bytes root entry.link entry.child := by
  cases hu with
  | level _ _ _ _ hx => exact hx entry hm

theorem LeadsTo.unfolds {link : Link} {child : Child Level} {level : Level}
    (hx : LeadsTo headers bytes root link child) (hl : child.level? = some level) :
    ∃ offset, Unfolds headers bytes root offset level := by
  cases hx with
  | directory hu =>
    cases hl
    exact ⟨_, hu⟩
  | data _ => contradiction

theorem LeadsTo.offset_eq {link : Link} {child : Child Level} {entry : DataEntry}
    (hx : LeadsTo headers bytes root link child) (hd : child.data? = some entry) :
    entry.offset = headers.offset? entry.rva := by
  cases hx with
  | directory _ => contradiction
  | data he =>
    cases hd
    exact he.offset

theorem Unfolds.offset_versionLeaf {offset : UInt32} {level : Level} {entry : DataEntry}
    (hu : Unfolds headers bytes root offset level) (hv : versionLeaf? level = some entry) :
    entry.offset = headers.offset? entry.rva := by
  simp only [versionLeaf?, Level.findId?, Option.bind_eq_bind, Option.bind_eq_some_iff] at hv
  obtain ⟨type, ht, names, hn, name, hm, languages, hl, language, hg, hd⟩ := hv
  obtain ⟨_, hu⟩ := (hu.leadsTo (List.mem_of_find?_eq_some ht)).unfolds hn
  obtain ⟨_, hu⟩ := (hu.leadsTo (List.mem_of_find?_eq_some hm)).unfolds hl
  exact (hu.leadsTo (List.mem_of_head? hg)).offset_eq hd

end PeCoff.Resource
