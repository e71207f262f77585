import PeCoff.Proofs.Export.Rows

/-!
# What an export table says

`read_meaning`: a table is read exactly as its columns say, row by row, and an
ordinal is refused exactly at the first named row whose place is behind the
function column.
-/

namespace PeCoff.ExportTable

open Reader

variable {headers : Headers} {bytes : ByteArray} {columns : Columns} {row : Row}

def readListed (headers : Headers) : Option Columns → Reader (Option ExportTable)
  | none => pure none
  | some columns => do
    let exports ← filterMap (readRow headers columns.header columns.functions.toArray)
      (rows columns.names columns.places)
    pure (some { header := columns.header, moduleName := columns.moduleName, exports })

theorem read_eq (headers : Headers) :
    read headers = readColumns headers >>= readListed headers := by
  unfold read readColumns
  rw [bind_assoc]
  refine bind_congr fun located => ?_
  cases located with
  | none => rfl
  | some start =>
    simp only [bind_assoc]
    refine bind_congr fun _ => bind_congr fun header => bind_congr fun moduleName => ?_
    refine bind_congr fun functions => ?_
    cases functions with
    | none => rfl
    | some functions =>
      rw [bind_assoc]
      refine bind_congr fun names => ?_
      cases names with
      | none => rfl
      | some names =>
        rw [bind_assoc]
        refine bind_congr fun places => ?_
        cases places <;> rfl

theorem anchored_listed (headers : Headers) (found : Option Columns) :
    (readListed headers found).Anchored := by
  cases found with
  | none => exact .pure none
  | some columns =>
    exact .bind (.filterMap (anchored_row headers _ _) _) fun exports => .pure _

namespace Columns.Stand

variable (h : columns.Stand headers bytes)

include h

theorem length_rows :
    (rows columns.names columns.places).length = columns.header.numberOfNames.toNat := by
  simp only [rows, List.length_map, List.length_zipIdx, List.length_zip, h.names.length,
    h.places.length, Nat.min_self]

theorem exists_row {index : Nat} (hi : index < columns.header.numberOfNames.toNat) :
    ∃ row, (rows columns.names columns.places)[index]? = some row := by
  rw [← h.length_rows] at hi
  exact ⟨_, List.getElem?_eq_getElem hi⟩

theorem gives_row {index : Nat}
    (hr : (rows columns.names columns.places)[index]? = some row) :
    (readRow headers columns.header columns.functions.toArray row).Gives bytes
      (columns.RowGives headers bytes index) := by
  have hi := (List.getElem?_eq_some_iff.mp hr).1
  rw [h.length_rows] at hi
  obtain ⟨rfl, hn, hp⟩ := getElem?_rows.mp hr
  exact ExportTable.gives_row hn hp (Nat.lt_trans hi columns.header.numberOfNames.toNat_lt)

theorem gives_exports :
    (filterMap (readRow headers columns.header columns.functions.toArray)
      (rows columns.names columns.places)).Gives bytes (columns.Lists headers bytes) := by
  have hm (row : Row) (hr : row ∈ rows columns.names columns.places) :
      (readRow headers columns.header columns.functions.toArray row).Gives bytes
        (columns.RowGives headers bytes row.index) := by
    obtain ⟨index, hi⟩ := List.mem_iff_getElem?.mp hr
    rw [(getElem?_rows.mp hi).1]
    exact h.gives_row hi
  refine fun position exports => (Gives.filterMap hm position exports).trans ?_
  refine exists_congr fun found => ?_
  rw [h.length_rows]
  refine and_congr_right fun hl => and_congr_left fun _ => ⟨fun hg index given hv => ?_, ?_⟩
  · have hi := (List.getElem?_eq_some_iff.mp hv).1
    rw [hl] at hi
    obtain ⟨row, hr⟩ := h.exists_row hi
    exact (getElem?_rows.mp hr).1 ▸ hg index row given hr hv
  · exact fun hg index row given hr hv => (getElem?_rows.mp hr).1 ▸ hg index given hv

theorem value_read (position : Nat) :
    (read headers).value bytes position =
      (readListed headers (some columns)).value bytes position := by
  rw [read_eq, Anchored.value_bind (anchored_listed headers) bytes position position,
    (finds_columns headers bytes position columns).mpr h, ok_bind]

theorem read_eq_ok_some {table : ExportTable} {position : Nat} :
    (read headers).value bytes position = .ok (some table) ↔ table.header = columns.header ∧
      table.moduleName = columns.moduleName ∧ columns.Lists headers bytes table.exports := by
  rw [h.value_read]
  refine .trans (Gives.bind_finds h.gives_exports (fun exports => .some _) position table) ?_
  constructor
  · rintro ⟨exports, hl, rfl⟩
    exact ⟨rfl, rfl, hl⟩
  · rintro ⟨hh, hm, hl⟩
    exact ⟨table.exports, hl, by rw [← hh, ← hm]⟩

theorem read_ne_none {position : Nat} : (read headers).value bytes position ≠ .ok none := by
  intro hr
  rw [h.value_read, readListed, Anchored.value_bind (fun exports => .pure _) bytes position 0,
    bind_ok] at hr
  obtain ⟨exports, -, hn⟩ := hr
  cases hn

theorem read_eq_ordinal_error {position : Nat} {ordinal count : UInt32} :
    (read headers).value bytes position = .error (.format (.exportOrdinal ordinal count)) ↔
      count = columns.header.numberOfFunctions ∧
        ∃ index place, columns.Beyond headers index place ∧ ordinal = place.toUInt32 ∧
          (∃ text, columns.NameOf headers bytes index text) ∧
          ∀ earlier < index, ∃ given, columns.RowGives headers bytes earlier given := by
  rw [h.value_read, readListed, Anchored.value_bind_eq_error (fun exports => .pure _),
    Anchored.value_filterMap_eq_error (anchored_row headers _ _)]
  simp only [value_pure, reduceCtorEq, and_false, exists_false, or_false]
  constructor
  · rintro ⟨index, row, hr, he, hg⟩
    obtain ⟨rfl, hn, hp⟩ := getElem?_rows.mp hr
    obtain ⟨⟨text, hw⟩, hl, ho, hc⟩ := (row_eq_ordinal_error hn).mp he
    obtain ⟨rva, offset, hr', hs, ht⟩ := hw
    rw [h.functions.length] at hl
    refine ⟨hc, row.index, row.place, ⟨⟨rva, hr', by simp [hs]⟩, hp, hl⟩, ho,
      ⟨text, rva, offset, hr', hs, ht⟩, fun earlier hlt => ?_⟩
    have hi := (List.getElem?_eq_some_iff.mp hr).1
    rw [h.length_rows] at hi
    obtain ⟨prior, hq⟩ := h.exists_row (Nat.lt_trans hlt hi)
    obtain ⟨given, hv⟩ := hg earlier hlt prior hq
    exact ⟨given, (h.gives_row hq position given).mp hv⟩
  · rintro ⟨hc, index, place, ⟨-, hp, hl⟩, ho, ⟨text, hw⟩, hg⟩
    have hi := (List.getElem?_eq_some_iff.mp hp).1
    rw [h.places.length] at hi
    obtain ⟨row, hr⟩ := h.exists_row hi
    obtain ⟨rfl, hn, hq⟩ := getElem?_rows.mp hr
    cases hp.symm.trans hq
    rw [← h.functions.length] at hl
    refine ⟨row.index, row, hr, (row_eq_ordinal_error hn).mpr ⟨⟨text, hw⟩, hl, ho, hc⟩,
      fun earlier hlt prior hq => ?_⟩
    obtain ⟨given, hv⟩ := hg earlier hlt
    exact ⟨given, (h.gives_row hq position given).mpr hv⟩

end Columns.Stand

theorem exists_columns {position : Nat} {table : ExportTable}
    (hr : (read headers).value bytes position = .ok (some table)) :
    ∃ columns : Columns, columns.Stand headers bytes := by
  rw [read_eq, Anchored.value_bind (anchored_listed headers) bytes position position,
    bind_ok] at hr
  obtain ⟨_ | columns, hc, hl⟩ := hr
  · cases hl
  · exact ⟨columns, (finds_columns headers bytes position columns).mp hc⟩

/-- No ordinal is refused before the columns are there. -/
theorem exists_columns_of_ordinal_error {position : Nat} {ordinal count : UInt32}
    (hr : (read headers).value bytes position = .error (.format (.exportOrdinal ordinal count))) :
    ∃ columns : Columns, columns.Stand headers bytes := by
  rw [read_eq, Anchored.value_bind_eq_error (anchored_listed headers)] at hr
  have hb : (readColumns headers).Blames (· ≠ .exportOrdinal ordinal count) :=
    blames_columns (by simp) (by simp) headers
  rcases hr with he | ⟨_ | columns, hc, hl⟩
  · exact absurd rfl (hb bytes position _ (value_eq_error.mp he))
  · cases hl
  · exact ⟨columns, (finds_columns headers bytes position columns).mp hc⟩

theorem Columns.RowGives.not_beyond {index : Nat} {given : Option Export} {place : UInt16}
    (h : columns.RowGives headers bytes index given) (hs : columns.Stand headers bytes) :
    ¬columns.Beyond headers index place := by
  rintro ⟨⟨rva, hn, hm⟩, hp, hl⟩
  have of_function {other : UInt16} {function : UInt32}
      (hf : columns.FunctionOf index other function) : False := by
    obtain ⟨hq, hf⟩ := hf
    cases hp.symm.trans hq
    have hk := (List.getElem?_eq_some_iff.mp hf).1
    rw [hs.functions.length] at hk
    omega
  cases h with
  | unnamed hr hu =>
    cases hn.symm.trans hr
    exact hm hu
  | lost _ hf _ => exact of_function hf
  | listed _ hf _ _ _ => exact of_function hf

/-- A table is read exactly as its columns say: row by row, the function of a row being
found through its place. An ordinal is refused exactly if a row with a mapped name has it
as a place behind the function column, all rows before that giving what they give. -/
theorem read_meaning (headers : Headers) (bytes : ByteArray) (position : Nat) :
    (∀ table, (read headers).value bytes position = .ok (some table) ↔
      ∃ columns : Columns, columns.Stand headers bytes ∧ table.header = columns.header ∧
        table.moduleName = columns.moduleName ∧
        columns.Lists headers bytes table.exports) ∧
    (∀ ordinal count,
      (read headers).value bytes position = .error (.format (.exportOrdinal ordinal count)) ↔
        ∃ columns : Columns, columns.Stand headers bytes ∧
          count = columns.header.numberOfFunctions ∧
          ∃ index place, columns.Beyond headers index place ∧ ordinal = place.toUInt32 ∧
            (∀ earlier < index, ∀ other, ¬columns.Beyond headers earlier other) ∧
            (∃ text, columns.NameOf headers bytes index text) ∧
            ∀ earlier < index, ∃ given, columns.RowGives headers bytes earlier given) ∧
    ∀ columns : Columns, columns.Stand headers bytes →
      (read headers).value bytes position ≠ .ok none ∧
      ((∀ (index : Nat) rva place, columns.names[index]? = some rva →
        columns.places[index]? = some place →
        columns.header.numberOfFunctions.toNat ≤ place.toNat → headers.offset? rva = none) →
        ∀ ordinal count, (read headers).value bytes position ≠
          .error (.format (.exportOrdinal ordinal count))) := by
  refine ⟨fun table => ⟨fun hr => ?_, ?_⟩, fun ordinal count => ⟨fun hr => ?_, ?_⟩,
    fun columns hs => ⟨hs.read_ne_none, fun hu ordinal count hr => ?_⟩⟩
  · obtain ⟨columns, hs⟩ := exists_columns hr
    exact ⟨columns, hs, hs.read_eq_ok_some.mp hr⟩
  · rintro ⟨columns, hs, ht⟩
    exact hs.read_eq_ok_some.mpr ht
  · obtain ⟨columns, hs⟩ := exists_columns_of_ordinal_error hr
    obtain ⟨hc, index, place, hb, ho, hn, hg⟩ := hs.read_eq_ordinal_error.mp hr
    refine ⟨columns, hs, hc, index, place, hb, ho, fun earlier hlt other => ?_, hn, hg⟩
    obtain ⟨given, hv⟩ := hg earlier hlt
    exact hv.not_beyond hs
  · rintro ⟨columns, hs, hc, index, place, hb, ho, -, hn, hg⟩
    exact hs.read_eq_ordinal_error.mpr ⟨hc, index, place, hb, ho, hn, hg⟩
  · obtain ⟨-, index, place, ⟨⟨rva, hn, hm⟩, hp, hl⟩, -⟩ := hs.read_eq_ordinal_error.mp hr
    exact hm (hu index rva place hn hp hl)

end PeCoff.ExportTable
