import PeCoff.Proofs.Export.Table

/-!
# Names for one function

Several names may lead to one place of the function column, and then they have
one ordinal. What an export is follows from its ordinal alone, the name and the
row adding nothing, since the base is taken off again whether adding it wrapped or
not. `aliases_agree`: so a look-up by ordinal may meet any of them.
-/

namespace PeCoff

/-- The ordinal is that of a place in the function column, one that 16 bits can name. -/
def ExportHeader.Reaches (header : ExportHeader) (ordinal : UInt32) : Prop :=
  (ordinal - header.base).toNat < header.numberOfFunctions.toNat ∧
    (ordinal - header.base).toNat < UInt16.size

namespace ExportTable

open Reader

variable {headers : Headers} {bytes : ByteArray} {columns : Columns} {item : Export}

-- ---------------------------------------------------------------------------
-- What an ordinal says
-- ---------------------------------------------------------------------------

theorem TargetAt.unique {function : UInt32} {first second : Option ExportTarget}
    (hf : TargetAt headers bytes function first) (hs : TargetAt headers bytes function second) :
    first = second := by
  have hg := gives_target headers bytes function 0
  exact Except.ok.inj (((hg first).mpr hf).symm.trans ((hg second).mpr hs))

namespace Columns

/-- The export is the function at the place that its ordinal is counted from. -/
def Explains (columns : Columns) (headers : Headers) (bytes : ByteArray) (item : Export) : Prop :=
  ∃ (place : UInt16) (function : UInt32),
    item.ordinal - columns.header.base = place.toUInt32 ∧
    columns.functions[place.toNat]? = some function ∧
    TargetAt headers bytes function (some item.target)

theorem RowGives.explains {index : Nat} (h : columns.RowGives headers bytes index (some item)) :
    columns.Explains headers bytes item := by
  obtain _ | _ | @⟨_, place, function, -, ⟨-, hf⟩, ht, -, ho⟩ := h
  refine ⟨place, function, ?_, hf, ht⟩
  have hw : item.ordinal = place.toUInt32 + columns.header.base := by
    apply UInt32.toNat_inj.mp
    rw [ho, UInt32.toNat_add, UInt16.toNat_toUInt32]
  rw [hw, UInt32.add_sub_cancel]

theorem Lists.explains {exports : List Export} (h : columns.Lists headers bytes exports)
    (hi : item ∈ exports) : columns.Explains headers bytes item := by
  obtain ⟨found, -, hg, rfl⟩ := h
  have hi : item ∈ found.filterMap id := hi
  obtain ⟨given, hm, rfl⟩ := List.mem_filterMap.mp hi
  obtain ⟨index, hv⟩ := List.mem_iff_getElem?.mp hm
  exact (hg index _ hv).explains

theorem Explains.reaches (h : columns.Explains headers bytes item)
    (hs : columns.Stand headers bytes) : columns.header.Reaches item.ordinal := by
  obtain ⟨place, function, ho, hf, -⟩ := h
  rw [ExportHeader.Reaches, ho, UInt16.toNat_toUInt32, ← hs.functions.length]
  exact ⟨(List.getElem?_eq_some_iff.mp hf).1, place.toNat_lt⟩

theorem Explains.target_eq {other : Export} (hi : columns.Explains headers bytes item)
    (ho : columns.Explains headers bytes other) (h : item.ordinal = other.ordinal) :
    item.target = other.target := by
  obtain ⟨place, function, hp, hf, ht⟩ := hi
  obtain ⟨place', function', hp', hf', ht'⟩ := ho
  have he : place = place' := by
    apply UInt16.toNat_inj.mp
    rw [← UInt16.toNat_toUInt32, ← UInt16.toNat_toUInt32, ← hp, ← hp', h]
  subst he
  obtain rfl := Option.some.inj (hf.symm.trans hf')
  exact Option.some.inj (ht.unique ht')

end Columns

-- ---------------------------------------------------------------------------
-- Looking an ordinal up
-- ---------------------------------------------------------------------------

def Consistent (exports : List Export) : Prop :=
  ∀ first ∈ exports, ∀ second ∈ exports, first.ordinal = second.ordinal →
    first.target = second.target

variable {table : ExportTable} {ordinal : UInt32}

theorem findOrdinal?_some (h : table.findOrdinal? ordinal = some item) :
    item ∈ table.exports ∧ item.ordinal = ordinal := by
  rw [findOrdinal?] at h
  exact ⟨List.mem_of_find?_eq_some h, by simpa using List.find?_some h⟩

/-- Whatever the order, the target found is that of every export with the ordinal. -/
theorem Consistent.findOrdinal?_target (h : Consistent table.exports) {target : ExportTarget} :
    (table.findOrdinal? ordinal).map Export.target = some target ↔
      ∃ item ∈ table.exports, item.ordinal = ordinal ∧ item.target = target := by
  rw [Option.map_eq_some_iff]
  constructor
  · rintro ⟨item, hf, ht⟩
    obtain ⟨hm, ho⟩ := findOrdinal?_some hf
    exact ⟨item, hm, ho, ht⟩
  · rintro ⟨item, hm, rfl, rfl⟩
    cases hf : table.findOrdinal? item.ordinal with
    | none => exact absurd (beq_self_eq_true _) (List.find?_eq_none.mp hf item hm)
    | some found =>
      obtain ⟨hm', ho⟩ := findOrdinal?_some hf
      exact ⟨found, rfl, h found hm' item hm ho⟩

theorem Consistent.findOrdinal?_perm (h : Consistent table.exports) {exports : List Export}
    (hp : exports.Perm table.exports) (ordinal : UInt32) :
    ({ table with exports }.findOrdinal? ordinal).map Export.target =
      (table.findOrdinal? ordinal).map Export.target := by
  have hm (item : Export) : item ∈ exports ↔ item ∈ table.exports := hp.mem_iff
  have ha : Consistent exports := fun first hf second hs =>
    h first ((hm first).mp hf) second ((hm second).mp hs)
  apply Option.ext
  intro target
  rw [h.findOrdinal?_target, Consistent.findOrdinal?_target ha]
  simp only [hm]

/-- In a table that has been read every ordinal reaches into the function column and belongs
to one target, so that a look-up gives the target of any alias, in whatever order the exports
come, and none for an ordinal that reaches no function. -/
theorem aliases_agree {position : Nat}
    (h : (read headers).value bytes position = .ok (some table)) :
    (∀ item ∈ table.exports, table.header.Reaches item.ordinal) ∧
    Consistent table.exports ∧
    (∀ ordinal target, (table.findOrdinal? ordinal).map Export.target = some target ↔
      ∃ item ∈ table.exports, item.ordinal = ordinal ∧ item.target = target) ∧
    (∀ exports : List Export, exports.Perm table.exports → ∀ ordinal,
      ({ table with exports }.findOrdinal? ordinal).map Export.target =
        (table.findOrdinal? ordinal).map Export.target) ∧
    ∀ ordinal, ¬table.header.Reaches ordinal → table.findOrdinal? ordinal = none := by
  obtain ⟨columns, hs⟩ := exists_columns h
  obtain ⟨hh, -, hl⟩ := hs.read_eq_ok_some.mp h
  have hr (item : Export) (hi : item ∈ table.exports) : table.header.Reaches item.ordinal := by
    rw [hh]
    exact (hl.explains hi).reaches hs
  have ha : Consistent table.exports := fun first hf second hs =>
    (hl.explains hf).target_eq (hl.explains hs)
  refine ⟨hr, ha, fun ordinal target => ha.findOrdinal?_target,
    fun exports hp => ha.findOrdinal?_perm hp, fun ordinal hn => ?_⟩
  cases hf : table.findOrdinal? ordinal with
  | none => rfl
  | some item =>
    obtain ⟨hi, rfl⟩ := findOrdinal?_some hf
    exact absurd (hr item hi) hn

def wrapping : Headers :=
  .ofDirectories [⟨0, 74⟩] [⟨.replicate 8 0, 74, 0, 74, 0, 0, 0, 0, 0, ⟨0⟩⟩]

/-- The table of it, with the last ordinal that there is as its base. The second function
forwards and is exported twice. -/
def twice : ByteArray :=
  ⟨(([(12, 0), (4, 99), (4, 0xFFFFFFFF), (4, 2), (4, 3), (4, 40), (4, 48), (4, 60), (4, 0x1000),
      (4, 69), (4, 66), (4, 66), (4, 66), (2, 1), (2, 0), (2, 1), (3, 0x61), (4, 0x662E4D), (1, 0)] :
    List (Nat × Nat)).flatMap fun field => LittleEndian.bytes field.1 field.2).toArray⟩

theorem aliases_agree_wrapping :
    ∃ table, (read wrapping).value twice 0 = .ok (some table) ∧
      table.exports.map Export.ordinal = [0, 0xFFFFFFFF, 0] ∧
      table.findOrdinal? 1 = none ∧ ∀ exports : List Export, exports.Perm table.exports →
        ({ table with exports }.findOrdinal? 0).map Export.target = some (.forwarded "M.f") := by
  have he : (do
      let table ← (← ((read wrapping).value twice 0).toOption)
      pure (table.header.base, table.header.numberOfFunctions,
        table.exports.map fun item => (item.ordinal, item.target))) =
        some (0xFFFFFFFF, 2, [(0, .forwarded "M.f"), (0xFFFFFFFF, .code 0x1000),
          (0, .forwarded "M.f")]) := by decide +kernel
  simp only [Option.bind_eq_bind, Option.bind_eq_some_iff, toOption_eq_some] at he
  obtain ⟨_, ht, table, rfl, hl⟩ := he
  obtain ⟨hb, hl⟩ := Prod.mk.inj (Option.some.inj hl)
  obtain ⟨hn, hl⟩ := Prod.mk.inj hl
  have ho := congrArg (List.map Prod.fst) hl
  rw [List.map_map] at ho
  obtain ⟨-, -, hf, hp, hz⟩ := aliases_agree ht
  have hm : (0, .forwarded "M.f") ∈ table.exports.map fun item => (item.ordinal, item.target) := by
    rw [hl]
    exact List.mem_cons_self
  obtain ⟨item, hi, he⟩ := List.mem_map.mp hm
  obtain ⟨hc, hg⟩ := Prod.mk.inj he
  refine ⟨table, ht, ho, hz 1 ?_, fun exports hq => ?_⟩
  · rw [ExportHeader.Reaches, hb, hn]
    decide
  · exact (hp exports hq 0).trans ((hf 0 _).mpr ⟨item, hi, hc, hg⟩)

end ExportTable

end PeCoff
