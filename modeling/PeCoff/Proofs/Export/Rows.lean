import PeCoff.Proofs.Export.Columns

/-!
# The rows of an export table

What a row exports follows from the columns: its name from the name column, its
function through its place, and what the function is from where it lies. A row
fails in one way of its own, by a place that the function column does not reach.
-/

namespace PeCoff.ExportTable

open Reader

variable {headers : Headers} {bytes : ByteArray}

/-- The function address lies in the directory itself. The end of the directory is
counted without wrapping. -/
def Forwards (headers : Headers) (function : UInt32) : Prop :=
  (headers.directory .exportTable).rva.toNat ≤ function.toNat ∧
    function.toNat < (headers.directory .exportTable).rva.toNat +
      (headers.directory .exportTable).size.toNat

/-- What a function address leads to: a name in another module, if it lies in the
directory, and else an address in memory, which wraps. -/
inductive TargetAt (headers : Headers) (bytes : ByteArray) (function : UInt32) :
    Option ExportTarget → Prop
  | lost : Forwards headers function → headers.offset? function = none →
      TargetAt headers bytes function none
  | forwarded {offset : Nat} {text : String} : Forwards headers function →
      headers.offset? function = some offset → TextAt bytes offset text →
      TargetAt headers bytes function (some (.forwarded text))
  | code {address : UInt64} : ¬Forwards headers function →
      address.toNat = ((headers.optional.elim 0 OptionalHeader.imageBase).toNat +
        function.toNat) % UInt64.size →
      TargetAt headers bytes function (some (.code address))

namespace Columns

variable {columns : Columns} {index : Nat}

def NameOf (columns : Columns) (headers : Headers) (bytes : ByteArray) (index : Nat)
    (text : String) : Prop :=
  ∃ rva offset, columns.names[index]? = some rva ∧ headers.offset? rva = some offset ∧
    TextAt bytes offset text

def FunctionOf (columns : Columns) (index : Nat) (place : UInt16) (function : UInt32) : Prop :=
  columns.places[index]? = some place ∧ columns.functions[place.toNat]? = some function

inductive RowGives (columns : Columns) (headers : Headers) (bytes : ByteArray) (index : Nat) :
    Option Export → Prop
  /-- Without a mapped name nothing else of the row matters. -/
  | unnamed {rva : UInt32} : columns.names[index]? = some rva → headers.offset? rva = none →
      RowGives columns headers bytes index none
  | lost {text : String} {place : UInt16} {function : UInt32} :
      columns.NameOf headers bytes index text → columns.FunctionOf index place function →
      TargetAt headers bytes function none → RowGives columns headers bytes index none
  | listed {item : Export} {place : UInt16} {function : UInt32} :
      columns.NameOf headers bytes index item.name → columns.FunctionOf index place function →
      TargetAt headers bytes function (some item.target) → item.index.toNat = index →
      item.ordinal.toNat = (place.toNat + columns.header.base.toNat) % UInt32.size →
      RowGives columns headers bytes index (some item)

def Lists (columns : Columns) (headers : Headers) (bytes : ByteArray) (exports : List Export) :
    Prop :=
  ∃ found : List (Option Export), found.length = columns.header.numberOfNames.toNat ∧
    (∀ (index : Nat) given, found[index]? = some given →
      columns.RowGives headers bytes index given) ∧
    exports = found.reduceOption

/-- The row has a mapped name, but a place behind the function column. -/
def Beyond (columns : Columns) (headers : Headers) (index : Nat) (place : UInt16) : Prop :=
  (∃ rva, columns.names[index]? = some rva ∧ headers.offset? rva ≠ none) ∧
    columns.places[index]? = some place ∧ columns.header.numberOfFunctions.toNat ≤ place.toNat

end Columns

theorem gives_target (headers : Headers) (bytes : ByteArray) (function : UInt32) :
    (readTarget headers (headers.directory .exportTable) function).Gives bytes
      (TargetAt headers bytes function) := by
  have hf : isForwarder (headers.directory .exportTable) function = true ↔
      Forwards headers function := by
    simp only [isForwarder, Forwards, Bool.and_eq_true, decide_eq_true_eq]
  intro position found
  unfold readTarget
  split
  next hd =>
    have hd := hf.mp hd
    refine .trans (Gives.bind_map (headers.gives_textAt bytes function) ExportTarget.forwarded
      (fun text => ?_) position found) ⟨?_, ?_⟩
    · cases text <;> rfl
    · rintro ⟨_, hn | ⟨ho, ht⟩, rfl⟩
      · exact .lost hd hn
      · exact .forwarded hd ho ht
    · rintro (⟨-, hn⟩ | ⟨-, ho, ht⟩ | ⟨hc, -⟩)
      · exact ⟨none, .unmapped hn, rfl⟩
      · exact ⟨_, .mapped ho ht, rfl⟩
      · exact absurd hd hc
  next hd =>
    have hd := mt hf.mpr hd
    have hb : headers.imageBase = headers.optional.elim 0 OptionalHeader.imageBase := by
      unfold Headers.imageBase
      cases headers.optional <;> rfl
    have ha : (headers.imageBase + function.toUInt64).toNat =
        ((headers.optional.elim 0 OptionalHeader.imageBase).toNat + function.toNat) %
          UInt64.size := by
      rw [hb, UInt64.toNat_add, UInt32.toNat_toUInt64]
    rw [value_pure, Except.ok.injEq]
    constructor
    · rintro rfl
      exact .code hd ha
    · rintro (⟨hc, -⟩ | ⟨hc, -⟩ | ⟨-, hw⟩)
      · exact absurd hc hd
      · exact absurd hc hd
      · rw [UInt64.toNat_inj.mp (ha.trans hw.symm)]

theorem anchored_target (headers : Headers) (directory : DataDirectory) (function : UInt32) :
    (readTarget headers directory function).Anchored := by
  unfold readTarget
  split
  · exact .bind (headers.anchored_textAt function) fun text => by cases text <;> exact .pure _
  · exact .pure _

def readNamed (headers : Headers) (header : ExportHeader) (functions : Array UInt32) (row : Row) :
    Option String → Reader (Option Export)
  | none => pure none
  | some name =>
    match functions[row.place.toNat]? with
    | none => fail (.exportOrdinal row.place.toUInt32 header.numberOfFunctions)
    | some function => do
      match ← readTarget headers (headers.directory .exportTable) function with
      | none => pure none
      | some target => pure (some {
          name
          index := .ofNat row.index
          ordinal := row.place.toUInt32 + header.base
          target })

theorem readRow_eq (headers : Headers) (header : ExportHeader) (functions : Array UInt32)
    (row : Row) : readRow headers header functions row =
      headers.textAt row.name >>= readNamed headers header functions row := by
  unfold readRow
  congr 1

theorem anchored_named (headers : Headers) (header : ExportHeader) (functions : Array UInt32)
    (row : Row) (name : Option String) :
    (readNamed headers header functions row name).Anchored := by
  unfold readNamed
  split
  · exact .pure none
  · split
    · exact .fail _
    · refine .bind (anchored_target headers _ _) fun target => ?_
      cases target <;> exact .pure _

theorem anchored_row (headers : Headers) (header : ExportHeader) (functions : Array UInt32)
    (row : Row) : (readRow headers header functions row).Anchored := by
  rw [readRow_eq]
  exact .bind (headers.anchored_textAt row.name) (anchored_named headers header functions row)

theorem blames_target {causes : FormatError → Prop} (h : causes .invalidText) (headers : Headers)
    (directory : DataDirectory) (function : UInt32) :
    (readTarget headers directory function).Blames causes := by
  unfold readTarget
  split
  · refine .bind (headers.blames_textAt h function) fun text => ?_
    cases text <;> exact .pure _
  · exact .pure _

variable {columns : Columns} {row : Row}

def Columns.exportOf (columns : Columns) (row : Row) (name : String) (target : ExportTarget) :
    Export where
  name
  index := .ofNat row.index
  ordinal := row.place.toUInt32 + columns.header.base
  target

theorem gives_named (name : Option String) :
    (readNamed headers columns.header columns.functions.toArray row name).Gives bytes
      fun found => (name = none ∧ found = none) ∨
        ∃ text function target, name = some text ∧
          columns.functions[row.place.toNat]? = some function ∧
          TargetAt headers bytes function target ∧
          found = target.map (columns.exportOf row text) := by
  intro position found
  cases name with
  | none =>
    simp only [readNamed, value_pure, Except.ok.injEq, reduceCtorEq, false_and, exists_false,
      or_false, true_and, eq_comm]
  | some text =>
    simp only [readNamed, List.getElem?_toArray, reduceCtorEq, false_and, false_or,
      Option.some.injEq, exists_and_left, exists_eq_left']
    cases hf : columns.functions[row.place.toNat]? with
    | none => simp [value_eq_ok, fail]
    | some function =>
      simp only [Option.some.injEq, exists_eq_left']
      refine Gives.bind_map (gives_target headers bytes function) (columns.exportOf row text)
        (fun target => ?_) position found
      cases target <;> rfl

theorem gives_row (hn : columns.names[row.index]? = some row.name)
    (hp : columns.places[row.index]? = some row.place) (hi : row.index < UInt32.size) :
    (readRow headers columns.header columns.functions.toArray row).Gives bytes
      (columns.RowGives headers bytes row.index) := by
  have hx : (UInt32.ofNat row.index).toNat = row.index := UInt32.toNat_ofNat_of_lt' hi
  have ho : (row.place.toUInt32 + columns.header.base).toNat =
      (row.place.toNat + columns.header.base.toNat) % UInt32.size := by
    rw [UInt32.toNat_add, UInt16.toNat_toUInt32]
  intro position found
  rw [readRow_eq]
  refine (((headers.gives_textAt bytes row.name).bind gives_named) position found).trans ⟨?_, ?_⟩
  · rintro ⟨name, hm, ⟨rfl, rfl⟩ | ⟨text, function, target, rfl, hf, ht, rfl⟩⟩
    · cases hm with
      | unmapped hu => exact .unnamed hn hu
    · cases hm with
      | mapped hs hw =>
        have hm : columns.NameOf headers bytes row.index text := ⟨_, _, hn, hs, hw⟩
        cases target with
        | none => exact .lost hm ⟨hp, hf⟩ ht
        | some target => exact .listed hm ⟨hp, hf⟩ ht hx ho
  · rintro (⟨hr, hu⟩ | ⟨⟨rva, offset, hr, hs, ht⟩, ⟨hq, hf⟩, hg⟩ |
      ⟨⟨rva, offset, hr, hs, ht⟩, ⟨hq, hf⟩, hg, hi, hb⟩)
    · cases hn.symm.trans hr
      exact ⟨none, .unmapped hu, .inl ⟨rfl, rfl⟩⟩
    · cases hn.symm.trans hr
      cases hp.symm.trans hq
      exact ⟨_, .mapped hs ht, .inr ⟨_, _, none, rfl, hf, hg, rfl⟩⟩
    · cases hn.symm.trans hr
      cases hp.symm.trans hq
      refine ⟨_, .mapped hs ht, .inr ⟨_, _, _, rfl, hf, hg, ?_⟩⟩
      rw [Option.map_some, Columns.exportOf, ← UInt32.toNat_inj.mp (hi.trans hx.symm),
        ← UInt32.toNat_inj.mp (hb.trans ho.symm)]

theorem row_eq_ordinal_error {position : Nat} {ordinal count : UInt32}
    (hn : columns.names[row.index]? = some row.name) :
    (readRow headers columns.header columns.functions.toArray row).value bytes position =
        .error (.format (.exportOrdinal ordinal count)) ↔
      (∃ text, columns.NameOf headers bytes row.index text) ∧
        columns.functions.length ≤ row.place.toNat ∧ ordinal = row.place.toUInt32 ∧
        count = columns.header.numberOfFunctions := by
  rw [readRow_eq, (headers.gives_textAt bytes row.name).bind_eq_error
    (headers.blames_textAt (by simp) row.name) (anchored_named headers _ _ row)]
  have he (text : String) :
      (readNamed headers columns.header columns.functions.toArray row (some text)).value bytes
          position = .error (.format (.exportOrdinal ordinal count)) ↔
        columns.functions.length ≤ row.place.toNat ∧ ordinal = row.place.toUInt32 ∧
          count = columns.header.numberOfFunctions := by
    rw [← List.getElem?_eq_none_iff]
    simp only [readNamed, List.getElem?_toArray]
    cases columns.functions[row.place.toNat]? with
    | none =>
      simp only [value_eq_error, fail, Except.error.injEq, ReadError.format.injEq,
        FormatError.exportOrdinal.injEq, true_and]
      exact and_congr eq_comm eq_comm
    | some function =>
      have ht : (readTarget headers (headers.directory .exportTable) function).Blames
          (· ≠ .exportOrdinal ordinal count) := blames_target (by simp) headers _ function
      simp only [reduceCtorEq, false_and, iff_false, value_eq_error]
      refine fun hr => Blames.bind ht (fun target => ?_) bytes position _ hr rfl
      cases target <;> exact .pure _
  constructor
  · rintro ⟨_, hm | ⟨ho, ht⟩, hr⟩
    · cases hr
    · exact ⟨⟨_, _, _, hn, ho, ht⟩, (he _).mp hr⟩
  · rintro ⟨⟨text, rva, offset, hr, ho, ht⟩, hl⟩
    cases hn.symm.trans hr
    exact ⟨some text, .mapped ho ht, (he text).mpr hl⟩

theorem getElem?_rows {names : List UInt32} {places : List UInt16} {index : Nat} :
    (rows names places)[index]? = some row ↔
      row.index = index ∧ names[index]? = some row.name ∧ places[index]? = some row.place := by
  simp only [rows, List.getElem?_map, List.getElem?_zipIdx, Option.map_map, Option.map_eq_some_iff,
    List.getElem?_zip_eq_some, Function.comp_apply, Nat.zero_add, Prod.exists]
  constructor
  · rintro ⟨name, place, ⟨hn, hp⟩, rfl⟩
    exact ⟨rfl, hn, hp⟩
  · rintro ⟨rfl, hn, hp⟩
    exact ⟨row.name, row.place, ⟨hn, hp⟩, rfl⟩

end PeCoff.ExportTable
