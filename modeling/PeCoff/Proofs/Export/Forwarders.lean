import PeCoff.Proofs.Addressing
import PeCoff.Proofs.Export.Table

/-!
# No export is lost through its forwarder

A row whose forwarding text no section holds would be passed over. There is no
such row: the gate has found one section that holds the whole directory, and a
function that forwards lies in the directory. So the exports that there are
differ from the rows by nothing but unmapped names.
-/

namespace PeCoff.ExportTable

open Reader

variable {headers : Headers} {bytes : ByteArray}

/-- The section that holds the directory holds what lies in the directory. Both ends are
counted without wrapping, so this needs nothing of the section table. -/
theorem Forwards.maps {function : UInt32} {start : Nat} (hf : Forwards headers function)
    (ha : headers.Admits .exportTable start) : headers.Maps function := by
  obtain ⟨-, container, hc, he, -⟩ := ha
  obtain ⟨hv, -⟩ := hc.covers
  obtain ⟨before, behind, hs, -⟩ := hc
  refine ⟨container, ?_, ?_, ?_⟩
  · rw [hs]
    exact List.mem_append_right before List.mem_cons_self
  · exact Nat.le_trans hv hf.1
  · exact Nat.lt_of_lt_of_le hf.2 he

namespace Columns

variable {columns : Columns}

def nameMapped (columns : Columns) (headers : Headers) (index : Nat) : Bool :=
  columns.names[index]?.any fun rva => headers.Maps rva

theorem nameMapped_of_nameOf {index : Nat} {text : String}
    (h : columns.NameOf headers bytes index text) : columns.nameMapped headers index = true := by
  obtain ⟨rva, offset, hn, ho, -⟩ := h
  rw [nameMapped, hn, Option.any_some, decide_eq_true_eq]
  exact Headers.maps_of_offset? ho

theorem RowGives.index_of_some {index : Nat} {item : Export}
    (h : columns.RowGives headers bytes index (some item)) :
    columns.nameMapped headers index = true ∧ item.index.toNat = index := by
  obtain _ | _ | ⟨hn, -, -, hi, -⟩ := h
  exact ⟨nameMapped_of_nameOf hn, hi⟩

theorem RowGives.not_nameMapped {index start : Nat}
    (h : columns.RowGives headers bytes index none) (ha : headers.Admits .exportTable start) :
    columns.nameMapped headers index = false := by
  cases h with
  | unnamed hn ho =>
    rw [nameMapped, hn, Option.any_some, decide_eq_false_iff_not]
    exact Headers.offset?_eq_none.mp ho
  | lost _ _ ht =>
    cases ht with
    | lost hf ho => exact absurd (hf.maps ha) (Headers.offset?_eq_none.mp ho)

end Columns

/-- Keeping what there is keeps the places where something is. -/
theorem map_reduceOption {found : List (Option α)} {place : α → Nat} {kept : Nat → Bool}
    {first : Nat}
    (hs : ∀ (index : Nat) item, found[index]? = some (some item) →
      kept (first + index) = true ∧ place item = first + index)
    (hn : ∀ index : Nat, found[index]? = some none → kept (first + index) = false) :
    found.reduceOption.map place = (List.range' first found.length).filter kept := by
  induction found generalizing first with
  | nil => rfl
  | cons given rest ih =>
    have hr : rest.reduceOption.map place = (List.range' (first + 1) rest.length).filter kept := by
      refine ih (fun index item h => ?_) fun index h => ?_ <;> rw [Nat.add_right_comm]
      · exact hs (index + 1) item h
      · exact hn (index + 1) h
    rw [List.length_cons, List.range'_succ]
    cases given with
    | none =>
      rw [List.filter_cons_of_neg (by simpa using hn 0 rfl), ← hr]
      rfl
    | some item =>
      obtain ⟨hk, hp⟩ := hs 0 item rfl
      rw [Nat.add_zero] at hk hp
      rw [List.filter_cons_of_pos hk, ← hr, ← hp]
      rfl

/-- The exports are those of all rows with mapped names, whatever the functions are: one
that forwards is always mapped, and reading its target always finds one. -/
theorem no_forwarder_lost {table : ExportTable} {position : Nat}
    (h : (read headers).value bytes position = .ok (some table)) :
    ∃ columns : Columns, columns.Stand headers bytes ∧ columns.header = table.header ∧
      table.exports.map (·.index.toNat) =
        (List.range table.header.numberOfNames.toNat).filter (columns.nameMapped headers) ∧
      ∀ function, (Forwards headers function → headers.Maps function) ∧
        (readTarget headers (headers.directory .exportTable) function).value bytes position ≠
          .ok none := by
  obtain ⟨columns, hs⟩ := exists_columns h
  obtain ⟨start, ha, -⟩ := hs.header
  obtain ⟨hh, -, found, hl, hg, he⟩ := hs.read_eq_ok_some.mp h
  refine ⟨columns, hs, hh.symm, ?_, fun function => ⟨fun hf => hf.maps ha, fun hr => ?_⟩⟩
  · rw [he, hh, ← hl, List.range_eq_range']
    refine map_reduceOption (fun index item hi => ?_) fun index hi => ?_ <;> rw [Nat.zero_add]
    · exact (hg index _ hi).index_of_some
    · exact (hg index _ hi).not_nameMapped ha
  · cases (gives_target headers bytes function position none).mp hr with
    | lost hf ho => exact absurd (hf.maps ha) (Headers.offset?_eq_none.mp ho)

/-- A file whose only section holds an export table of three names and two functions, each
field given by its width and its value. The first function forwards, and the second name is
not mapped. -/
def sample : ByteArray :=
  ⟨(([
      (2, 0x5A4D), (58, 0), (4, 0x40),
      (4, 0x4550), (2, 0x14C), (2, 1), (12, 0), (2, 104), (2, 0),
      (2, 0x10B), (90, 0), (4, 1), (4, 0x1000), (4, 0x48),
      (8, 0), (4, 0x80), (4, 0x1000), (4, 0x80), (4, 232), (16, 0),
      (12, 0), (4, 0x1042), (4, 1), (4, 2), (4, 3), (4, 0x1028), (4, 0x1030), (4, 0x103C),
      (4, 0x1044), (4, 0x2000), (4, 0x1042), (4, 0x9000), (4, 0x1042),
      (2, 0), (2, 9), (2, 1), (2, 0x61), (4, 0x662E4D)] : List (Nat × Nat)).flatMap fun field =>
    LittleEndian.bytes field.1 field.2).toArray⟩

set_option maxRecDepth 2000 in
theorem no_forwarder_lost_sample :
    ∃ headers table, (Headers.read false).value sample 0 = .ok headers ∧
      (read headers).value sample 0 = .ok (some table) ∧
      table.exports.map (·.isForwarded) = [true, false] ∧
      ∃ columns : Columns, columns.Stand headers sample ∧ [0, 2] =
        (List.range table.header.numberOfNames.toNat).filter (columns.nameMapped headers) := by
  have he : (do
      let headers ← ((Headers.read false).value sample 0).toOption
      let table ← (← ((read headers).value sample 0).toOption)
      pure (table.exports.map fun item => (item.isForwarded, item.index.toNat))) =
        some [(true, 0), (false, 2)] := by decide +kernel
  simp only [Option.bind_eq_bind, Option.bind_eq_some_iff, toOption_eq_some] at he
  obtain ⟨headers, hh, _, ht, table, rfl, hl⟩ := he
  obtain ⟨columns, hs, -, hn, -⟩ := no_forwarder_lost ht
  have hl := Option.some.inj hl
  have hf := congrArg (List.map Prod.fst) hl
  have hi := congrArg (List.map Prod.snd) hl
  rw [List.map_map] at hf hi
  exact ⟨headers, table, hh, ht, hf, columns, hs, hi.symm.trans hn⟩

end PeCoff.ExportTable
