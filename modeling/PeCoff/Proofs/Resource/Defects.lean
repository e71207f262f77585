import PeCoff.Proofs.Resource.Unfolding

/-!
# What keeps a resource tree from being read

The levels that can be reached from the root, each found by its offset alone,
form a graph of any shape. `unfolds_iff_not_defect`: there is a tree within the
limits exactly if the graph has no cycle, no path of too many levels, not too
many entries counted along all paths, and nothing in it that cannot be read.
-/

namespace PeCoff.Resource

-- ---------------------------------------------------------------------------
-- The graph of levels
-- ---------------------------------------------------------------------------

def entryCountAt (bytes : ByteArray) (root : Nat) (level : UInt32) : Option Nat := do
  let named ← u16At bytes (root + level.toNat + 12)
  let numbered ← u16At bytes (root + level.toNat + 14)
  pure (named.toNat + numbered.toNat)

/-- The level that an entry of the level leads to, if it does not lead to a leaf. -/
def lowerAt (bytes : ByteArray) (root : Nat) (level : UInt32) (index : Nat) : Option UInt32 := do
  let field ← u32At bytes (root + level.toNat + 16 + 8 * index + 4)
  if 2 ^ 31 ≤ field.toNat then some (.ofNat (field.toNat - 2 ^ 31)) else none

def Below (bytes : ByteArray) (root : Nat) (upper lower : UInt32) : Prop :=
  ∃ count index, entryCountAt bytes root upper = some count ∧ index < count ∧
    lowerAt bytes root upper index = some lower

inductive Path (bytes : ByteArray) (root : Nat) : Nat → UInt32 → UInt32 → Prop
  | here {level : UInt32} : Path bytes root 0 level level
  | step {upper middle lower : UInt32} {steps : Nat} : Below bytes root upper middle →
      Path bytes root steps middle lower → Path bytes root (steps + 1) upper lower

/-- The entries of a level and of those below it, `depth` levels in all, a level
counting once for each way to it. -/
def expansion (bytes : ByteArray) (root : Nat) : (depth : Nat) → (level : UInt32) → Nat
  | 0, _ => 0
  | depth + 1, level =>
    let count := (entryCountAt bytes root level).getD 0
    count + ((List.range count).map fun index =>
      match lowerAt bytes root level index with
      | some lower => expansion bytes root depth lower
      | none => 0).foldr (· + ·) 0

/-- The level's own records can be read, and its names and data entries. -/
def Readable (headers : Headers) (bytes : ByteArray) (root : Nat) (level : UInt32) : Prop :=
  ∃ header : LevelHeader, header.At bytes (root + level.toNat) ∧
    ∀ index < header.numberOfNamedEntries.toNat + header.numberOfIdEntries.toNat,
      ∃ (raw : RawEntry) (label : Option Label),
        raw.At bytes (root + level.toNat + 16 + 8 * index) ∧ Labelled bytes root raw.key label ∧
          ∀ offset, raw.link = .data offset →
            ∃ entry : DataEntry, entry.At headers bytes (root + offset.toNat)

/-- A reason for which there is no tree at the root, or none within the limits. -/
inductive Defect (headers : Headers) (bytes : ByteArray) (root : Nat) : Prop
  | cycle {level : UInt32} {steps length : Nat} : Path bytes root steps 0 level →
      Path bytes root (length + 1) level level → Defect headers bytes root
  | depth {level : UInt32} : Path bytes root 8 0 level → Defect headers bytes root
  | size {depth : Nat} : 65536 < expansion bytes root depth 0 → Defect headers bytes root
  | unreadable {level : UInt32} {steps : Nat} : Path bytes root steps 0 level →
      ¬Readable headers bytes root level → Defect headers bytes root

variable {headers : Headers} {bytes : ByteArray} {root : Nat} {level lower : UInt32} {tree : Level}

-- ---------------------------------------------------------------------------
-- Along the paths of a tree
-- ---------------------------------------------------------------------------

theorem LevelHeader.At.entryCountAt {header : LevelHeader}
    (h : header.At bytes (root + level.toNat)) :
    entryCountAt bytes root level =
      some (header.numberOfNamedEntries.toNat + header.numberOfIdEntries.toNat) := by
  rw [Resource.entryCountAt, h.numberOfNamedEntries, h.numberOfIdEntries]
  rfl

def Link.lower? : Link → Option UInt32
  | .directory lower => some lower
  | .data _ => none

theorem RawEntry.At.lowerAt {raw : RawEntry} {index : Nat}
    (h : raw.At bytes (root + level.toNat + 16 + 8 * index)) :
    lowerAt bytes root level index = raw.link.lower? := by
  obtain ⟨field, hu, hs⟩ := h.link
  rw [Resource.lowerAt, hu]
  simp only [Option.bind_eq_bind, Option.bind_some]
  generalize raw.link = link at hs
  cases hs with
  | @directory lower ho =>
    rw [if_pos (by omega), ho, Nat.add_sub_cancel_left, UInt32.ofNat_toNat]
    rfl
  | data hl =>
    rw [if_neg (by omega)]
    rfl

theorem Unfolds.links (hu : Unfolds headers bytes root level tree) :
    entryCountAt bytes root level = some tree.entries.length ∧
      ∀ index entry, tree.entries[index]? = some entry →
        lowerAt bytes root level index = entry.link.lower? := by
  cases hu with
  | level hh hc hr hn hx =>
    refine ⟨by rw [hh.entryCountAt, ← hc], fun index entry he => ?_⟩
    exact (hr index entry he).lowerAt

theorem under_levels {entry : Entry Level} (hm : entry ∈ tree.entries) :
    entry.child.Under tree.summary.levels := by
  cases tree with
  | mk header entries => exact ((summary_levels_le header entries _).mp (Nat.le_refl _)).2 entry hm

theorem LeadsTo.exists_level {link : Link} {child : Child Level} {offset : UInt32}
    (hx : LeadsTo headers bytes root link child) (hl : link.lower? = some offset) :
    ∃ below, child = .directory below ∧ Unfolds headers bytes root offset below := by
  cases hx with
  | directory hu =>
    cases hl
    exact ⟨_, rfl, hu⟩
  | data _ => contradiction

theorem LeadsTo.exists_data {link : Link} {child : Child Level} {offset : UInt32}
    (hx : LeadsTo headers bytes root link child) (hl : link = .data offset) :
    ∃ entry : DataEntry, entry.At headers bytes (root + offset.toNat) := by
  cases hx with
  | directory _ => contradiction
  | data he =>
    cases hl
    exact ⟨_, he⟩

theorem Unfolds.of_below (hu : Unfolds headers bytes root level tree)
    (hb : Below bytes root level lower) :
    ∃ below, Unfolds headers bytes root lower below ∧
      below.summary.levels < tree.summary.levels := by
  obtain ⟨count, index, hc, hi, hl⟩ := hb
  obtain ⟨hn, hk⟩ := hu.links
  obtain rfl : count = tree.entries.length := Option.some.inj (hc.symm.trans hn)
  have he := List.getElem?_eq_getElem hi
  have hm := List.getElem_mem hi
  have hs := hk index _ he
  rw [hl] at hs
  obtain ⟨below, hc, hu⟩ := (hu.leadsTo hm).exists_level hs.symm
  have hv := under_levels hm
  rw [hc] at hv
  exact ⟨below, hu, hv⟩

theorem Unfolds.of_path {steps : Nat} (hp : Path bytes root steps level lower)
    (hu : Unfolds headers bytes root level tree) :
    ∃ below, Unfolds headers bytes root lower below ∧
      steps + below.summary.levels ≤ tree.summary.levels := by
  induction hp generalizing tree with
  | here => exact ⟨tree, hu, by omega⟩
  | step hb _ ih =>
    obtain ⟨middle, hm, hl⟩ := hu.of_below hb
    obtain ⟨below, hv, hs⟩ := ih hm
    exact ⟨below, hv, by omega⟩

theorem Unfolds.no_cycle {length : Nat} (hu : Unfolds headers bytes root level tree) :
    ¬Path bytes root (length + 1) level level := by
  intro hp
  obtain ⟨below, hv, hl⟩ := Unfolds.of_path hp hu
  rw [hv.unique hu] at hl
  omega

theorem Unfolds.readable (hu : Unfolds headers bytes root level tree) :
    Readable headers bytes root level := by
  cases hu with
  | @level _ header entries hh hc hr hn hx =>
    refine ⟨header, hh, fun index hi => ?_⟩
    have hl : index < entries.length := hc ▸ hi
    have hm := List.getElem_mem hl
    refine ⟨entries[index].raw, entries[index].label, hr index _ (List.getElem?_eq_getElem hl),
      hn _ hm, fun offset ho => ?_⟩
    exact (hx _ hm).exists_data ho

-- ---------------------------------------------------------------------------
-- Counting along all paths
-- ---------------------------------------------------------------------------

def expansionBelow (bytes : ByteArray) (root depth : Nat) : Link → Nat
  | .directory lower => expansion bytes root depth lower
  | .data _ => 0

theorem Unfolds.expansion_succ (hu : Unfolds headers bytes root level tree) (depth : Nat) :
    expansion bytes root (depth + 1) level =
      tree.entries.length +
        (tree.entries.map fun entry =>
          expansionBelow bytes root depth entry.link).foldr (· + ·) 0 := by
  obtain ⟨hc, hk⟩ := hu.links
  rw [expansion, hc]
  refine congrArg (tree.entries.length + List.foldr (· + ·) 0 ·) (List.ext_getElem (by simp) ?_)
  intro index hi _
  have hl : index < tree.entries.length := by simpa using hi
  simp only [Option.getD_some, List.getElem_map, List.getElem_range]
  rw [hk index _ (List.getElem?_eq_getElem hl)]
  cases tree.entries[index].link <;> rfl

theorem entriesBelow_eq_foldr (entries : List (Entry Level)) :
    entriesBelow entries =
      (entries.map fun entry => entry.child.entryCount).foldr (· + ·) 0 := by
  induction entries with
  | nil => rfl
  | cons entry rest ih => rw [entriesBelow, ih, List.map_cons, List.foldr_cons]

theorem foldr_le_entriesBelow {f : Entry Level → Nat} {entries : List (Entry Level)}
    (h : ∀ entry ∈ entries, f entry ≤ entry.child.entryCount) :
    (entries.map f).foldr (· + ·) 0 ≤ entriesBelow entries := by
  induction entries with
  | nil => exact Nat.le_refl 0
  | cons entry rest ih =>
    obtain ⟨he, hr⟩ := List.forall_mem_cons.mp h
    rw [List.map_cons, List.foldr_cons, entriesBelow]
    exact Nat.add_le_add he (ih hr)

theorem summary_entries_eq (tree : Level) :
    tree.summary.entries = tree.entries.length + entriesBelow tree.entries := by
  cases tree with
  | mk header entries => exact summary_entries header entries

/-- No depth counts more entries than the tree has. -/
theorem Unfolds.expansion_le (hu : Unfolds headers bytes root level tree) (depth : Nat) :
    expansion bytes root depth level ≤ tree.summary.entries := by
  induction depth generalizing level tree with
  | zero => exact Nat.zero_le _
  | succ depth ih =>
    rw [hu.expansion_succ, summary_entries_eq]
    refine Nat.add_le_add_left (foldr_le_entriesBelow fun entry hm => ?_) _
    rcases entry with ⟨key, link, label, child⟩
    cases hu.leadsTo hm with
    | directory hb => exact ih hb
    | data _ => exact Nat.le_refl 0

/-- All of them are counted within as many levels as the tree has. -/
theorem Unfolds.expansion_eq (hu : Unfolds headers bytes root level tree) {depth : Nat}
    (hd : tree.summary.levels ≤ depth) :
    expansion bytes root depth level = tree.summary.entries := by
  induction depth generalizing level tree with
  | zero =>
    have := summary_levels_pos tree
    omega
  | succ depth ih =>
    rw [hu.expansion_succ, summary_entries_eq, entriesBelow_eq_foldr]
    refine congrArg (_ + List.foldr (· + ·) 0 ·) (List.map_congr_left fun entry hm => ?_)
    have hv := under_levels hm
    rcases entry with ⟨key, link, label, child⟩
    cases hu.leadsTo hm with
    | directory hb => exact ih hb (by simp only [Child.Under] at hv; omega)
    | data _ => rfl

-- ---------------------------------------------------------------------------
-- The tree of a graph without defects
-- ---------------------------------------------------------------------------

theorem exists_list {At : Nat → α → Prop} {count : Nat}
    (h : ∀ index < count, ∃ value, At index value) :
    ∃ values : List α, values.length = count ∧
      ∀ index value, values[index]? = some value → At index value := by
  induction count with
  | zero => exact ⟨[], rfl, by simp⟩
  | succ count ih =>
    obtain ⟨values, hl, hv⟩ := ih fun index hi => h index (by omega)
    obtain ⟨last, ha⟩ := h count (by omega)
    refine ⟨values ++ [last], by simp [hl], fun index value hi => ?_⟩
    rw [List.getElem?_append] at hi
    split at hi
    next => exact hv index value hi
    next hn =>
      obtain ⟨he, rfl⟩ : index = values.length ∧ last = value := by
        rw [List.getElem?_singleton] at hi
        split at hi
        next => exact ⟨by omega, Option.some.inj hi⟩
        next => contradiction
      rw [he, hl]
      exact ha

theorem exists_stands {raw : RawEntry} {label : Option Label} {limit : Nat}
    (hl : Labelled bytes root raw.key label)
    (hu : ∀ lower, raw.link = .directory lower →
      ∃ tree, Unfolds headers bytes root lower tree ∧ tree.summary.levels < limit)
    (hd : ∀ offset, raw.link = .data offset →
      ∃ entry : DataEntry, entry.At headers bytes (root + offset.toNat)) :
    ∃ entry : Entry Level, entry.raw = raw ∧ Stands headers bytes root limit entry := by
  cases raw with
  | mk key link =>
    cases link with
    | directory lower =>
      obtain ⟨tree, hu, hs⟩ := hu lower rfl
      exact ⟨⟨key, _, label, .directory tree⟩, rfl, hl, .directory hu, hs⟩
    | data offset =>
      obtain ⟨entry, he⟩ := hd offset rfl
      exact ⟨⟨key, _, label, .data entry⟩, rfl, hl, .data he, trivial⟩

/-- Where everything can be read and paths are short, there is a tree. -/
theorem exists_unfolds {depth : Nat}
    (hr : ∀ steps lower, Path bytes root steps level lower → Readable headers bytes root lower)
    (hd : ∀ lower, ¬Path bytes root depth level lower) :
    ∃ tree, Unfolds headers bytes root level tree ∧ tree.summary.levels ≤ depth := by
  -- A step down uses up one level, and a path that is too long below would be one here.
  induction depth generalizing level with
  | zero => exact absurd .here (hd level)
  | succ depth ih =>
    obtain ⟨header, hh, he⟩ := hr 0 level .here
    have hx : ∀ index < header.numberOfNamedEntries.toNat + header.numberOfIdEntries.toNat,
        ∃ entry : Entry Level, entry.raw.At bytes (root + level.toNat + 16 + 8 * index) ∧
          Stands headers bytes root (depth + 1) entry := by
      intro index hi
      obtain ⟨raw, label, ha, hl, hv⟩ := he index hi
      have hu (lower : UInt32) (hk : raw.link = .directory lower) :
          ∃ tree, Unfolds headers bytes root lower tree ∧ tree.summary.levels < depth + 1 := by
        have hb : Below bytes root level lower :=
          ⟨_, index, hh.entryCountAt, hi, by rw [ha.lowerAt, hk]; rfl⟩
        obtain ⟨tree, hu, hs⟩ := ih (fun steps other hp => hr (steps + 1) other (.step hb hp))
          fun other hp => hd other (.step hb hp)
        exact ⟨tree, hu, Nat.lt_succ_of_le hs⟩
      obtain ⟨entry, rfl, hs⟩ := exists_stands hl hu hv
      exact ⟨entry, ha, hs⟩
    obtain ⟨entries, hl, hs⟩ := exists_list hx
    have hm : ∀ entry ∈ entries, Stands headers bytes root (depth + 1) entry := by
      intro entry hm
      obtain ⟨index, hi⟩ := List.mem_iff_getElem?.mp hm
      exact (hs index entry hi).2
    refine ⟨⟨header, entries⟩, .level hh hl (fun index entry hi => (hs index entry hi).1)
      (fun entry he => (hm entry he).label) fun entry he => (hm entry he).child, ?_⟩
    rw [summary_levels_le]
    exact ⟨by omega, fun entry he => (hm entry he).under⟩

/-- Nothing but a defect keeps a tree from being within the limits. -/
theorem unfolds_iff_not_defect :
    (∃ tree, Unfolds headers bytes root 0 tree ∧ tree.summary.levels ≤ 8 ∧
      tree.summary.entries ≤ 65536) ↔ ¬Defect headers bytes root := by
  constructor
  · rintro ⟨tree, hu, hl, he⟩ hd
    cases hd with
    | cycle hp hc =>
      obtain ⟨below, hv, -⟩ := Unfolds.of_path hp hu
      exact hv.no_cycle hc
    | depth hp =>
      obtain ⟨below, -, hs⟩ := Unfolds.of_path hp hu
      have := summary_levels_pos below
      omega
    | @size depth hs =>
      have := hu.expansion_le depth
      omega
    | unreadable hp hn =>
      obtain ⟨below, hv, -⟩ := Unfolds.of_path hp hu
      exact hn hv.readable
  · intro hn
    have hr (steps : Nat) (lower : UInt32) (hp : Path bytes root steps 0 lower) :
        Readable headers bytes root lower :=
      Classical.byContradiction fun h => hn (.unreadable hp h)
    obtain ⟨tree, hu, hl⟩ := exists_unfolds hr fun lower hp => hn (.depth hp)
    refine ⟨tree, hu, hl, Nat.not_lt.mp fun hs => hn (@Defect.size _ _ _ 8 ?_)⟩
    rw [hu.expansion_eq hl]
    exact hs

end PeCoff.Resource
