import PeCoff.Proofs.Bytes.Terminated
import PeCoff.Proofs.Encodings
import PeCoff.Proofs.Gate

/-!
# The columns of an export table

A table is its header, the name of the module and three columns, all found at
addresses that the header gives. `finds_columns`: they are read exactly where
they stand, and nothing but their bytes and the section table decides that.
-/

namespace PeCoff.ExportTable

open Reader

variable {headers : Headers} {bytes : ByteArray}

/-- A column of the declared length. Unless it is empty, a section holds its address,
and there its elements stand one behind the other. -/
structure ColumnAt (headers : Headers) (rva count : UInt32) (width : Nat)
    (elementAt : Nat → Option α) (column : List α) : Prop where
  length : column.length = count.toNat
  stands : count ≠ 0 → ∃ start, headers.offset? rva = some start ∧
    ∀ k element, column[k]? = some element → elementAt (start + width * k) = some element

structure Columns where
  header : ExportHeader
  moduleName : Option String
  functions : List UInt32
  names : List UInt32
  places : List UInt16

/-- The table is there: behind the gate its header, the module's name, if its address is
mapped, and every column as the header declares it. -/
structure Columns.Stand (columns : Columns) (headers : Headers) (bytes : ByteArray) : Prop where
  header : ∃ start, headers.Admits .exportTable start ∧ Stands bytes start columns.header.encode
  moduleName : headers.MappedText bytes columns.header.name columns.moduleName
  functions : ColumnAt headers columns.header.addressOfFunctions
    columns.header.numberOfFunctions 4 (u32At bytes) columns.functions
  names : ColumnAt headers columns.header.addressOfNames columns.header.numberOfNames 4
    (u32At bytes) columns.names
  places : ColumnAt headers columns.header.addressOfNameOrdinals
    columns.header.numberOfNames 2 (u16At bytes) columns.places

def readColumns (headers : Headers) : Reader (Option Columns) := do
  match ← headers.locateDirectory .exportTable with
  | none => pure none
  | some start => do
    seek start
    let header ← ExportHeader.read
    let moduleName ← headers.textAt header.name
    match ← readColumn headers header.addressOfFunctions header.numberOfFunctions u32 with
    | none => pure none
    | some functions =>
      match ← readColumn headers header.addressOfNames header.numberOfNames u32 with
      | none => pure none
      | some names =>
        match ← readColumn headers header.addressOfNameOrdinals header.numberOfNames u16 with
        | none => pure none
        | some places => pure (some { header, moduleName, functions, names, places })

theorem finds_column {element : Reader α} {elementAt : Nat → Option α} {width : Nat}
    (he : ∀ position value after, element.run bytes position = .ok (value, after) ↔
      elementAt position = some value ∧ after = position + width) (rva count : UInt32) :
    (readColumn headers rva count element).Finds bytes
      (ColumnAt headers rva count width elementAt) := by
  intro position column
  unfold readColumn
  split
  next hz =>
    rw [value_pure, Except.ok.injEq, Option.some.injEq]
    subst hz
    constructor
    · rintro rfl
      exact ⟨rfl, fun hz => absurd rfl hz⟩
    · exact fun h => (List.eq_nil_of_length_eq_zero h.length).symm
  next hz =>
    split
    next ho =>
      simp only [value_pure, Except.ok.injEq, reduceCtorEq, false_iff]
      intro h
      obtain ⟨start, hs, -⟩ := h.stands hz
      rw [ho] at hs
      contradiction
    next start ho =>
      have ht : (seek start >>= fun _ => times count.toNat element).Gives bytes fun column =>
          column.length = count.toNat ∧
            ∀ k value, column[k]? = some value → elementAt (start + width * k) = some value := by
        refine .seek_bind fun column => ?_
        simp only [value_eq_ok, run_times_ok he, ← and_assoc, exists_and_left, exists_eq, and_true]
      refine ((ht.bind_finds fun column => .some column) position column).trans ?_
      constructor
      · rintro ⟨_, ⟨hl, hs⟩, rfl⟩
        exact ⟨hl, fun _ => ⟨start, ho, hs⟩⟩
      · intro h
        obtain ⟨other, hs, hv⟩ := h.stands hz
        obtain rfl := Option.some.inj (ho.symm.trans hs)
        exact ⟨column, ⟨h.length, hv⟩, rfl⟩

theorem blames_column {causes : FormatError → Prop} {element : Reader α}
    (he : element.Blames causes) (headers : Headers) (rva count : UInt32) :
    (readColumn headers rva count element).Blames causes := by
  unfold readColumn
  split
  · exact .pure _
  · split
    · exact .pure none
    · exact .bind (.seek _) fun _ => .bind (.times he _) fun _ => .pure _

theorem finds_located (headers : Headers) (bytes : ByteArray) (slot : DirectorySlot) :
    (headers.locateDirectory slot).Finds bytes (headers.Admits slot) := by
  intro position start
  rw [← Headers.directoryOffset?_eq_some, Headers.locateDirectory]
  cases headers.directoryOffset? (headers.directory slot) false <;>
    simp [lift, fail, Reader.value, Except.map]

theorem gives_header (bytes : ByteArray) (start : Nat) :
    (seek start >>= fun _ => ExportHeader.read).Gives bytes
      fun header => Stands bytes start header.encode := by
  refine .seek_bind fun header => ?_
  simp only [value_eq_ok, ExportHeader.decodes_read _ _ _ _, true_and, exists_and_left, exists_eq,
    and_true]

theorem finds_columns (headers : Headers) (bytes : ByteArray) :
    (readColumns headers).Finds bytes (·.Stand headers bytes) := by
  have hf : (readColumns headers).Finds bytes fun columns =>
      ∃ start, headers.Admits .exportTable start ∧
      ∃ header : ExportHeader, Stands bytes start header.encode ∧
      ∃ moduleName, headers.MappedText bytes header.name moduleName ∧
      ∃ functions, ColumnAt headers header.addressOfFunctions header.numberOfFunctions 4
        (u32At bytes) functions ∧
      ∃ names, ColumnAt headers header.addressOfNames header.numberOfNames 4
        (u32At bytes) names ∧
      ∃ places, ColumnAt headers header.addressOfNameOrdinals header.numberOfNames 2
        (u16At bytes) places ∧
      columns = { header, moduleName, functions, names, places } := by
    refine .bind (finds_located headers bytes .exportTable) rfl fun start _ => ?_
    refine (gives_header bytes start).bind_finds fun header => ?_
    refine (headers.gives_textAt bytes header.name).bind_finds fun moduleName => ?_
    refine .bind (finds_column (fun _ _ _ => run_u32_ok) _ _) rfl fun functions _ => ?_
    refine .bind (finds_column (fun _ _ _ => run_u32_ok) _ _) rfl fun names _ => ?_
    exact .bind (finds_column (fun _ _ _ => run_u16_ok) _ _) rfl fun places _ => .some _
  refine fun position columns => (hf position columns).trans ⟨?_, ?_⟩
  · rintro ⟨start, ha, header, hs, moduleName, hm, functions, hf, names, hn, places, hp, rfl⟩
    exact ⟨⟨start, ha, hs⟩, hm, hf, hn, hp⟩
  · rintro ⟨⟨start, ha, hs⟩, hm, hf, hn, hp⟩
    exact ⟨start, ha, _, hs, _, hm, _, hf, _, hn, _, hp, rfl⟩

theorem blames_located {causes : FormatError → Prop}
    (h : ∀ rva size, causes (.directoryCrossesSection rva size)) (headers : Headers)
    (slot : DirectorySlot) : (headers.locateDirectory slot).Blames causes := by
  unfold Headers.locateDirectory
  rcases headers.closed_or_crosses_or_admits slot with ha | ha | ⟨start, ha⟩ <;>
    rw [ha.directoryOffset?]
  · exact .pure none
  · exact .fail (h _ _)
  · exact .pure (some start)

theorem blames_columns {causes : FormatError → Prop}
    (hc : ∀ rva size, causes (.directoryCrossesSection rva size)) (ht : causes .invalidText)
    (headers : Headers) : (readColumns headers).Blames causes := by
  have hh : ExportHeader.read.Blames causes := by
    unfold ExportHeader.read
    iterate 2 refine .bind .u32 fun _ => ?_
    iterate 2 refine .bind .u16 fun _ => ?_
    iterate 7 refine .bind .u32 fun _ => ?_
    exact .pure _
  refine .bind (blames_located hc headers .exportTable) fun located => ?_
  cases located with
  | none => exact .pure none
  | some start =>
    refine .bind (.seek start) fun _ => .bind hh fun header => ?_
    refine .bind (headers.blames_textAt ht header.name) fun moduleName => ?_
    refine .bind (blames_column .u32 headers _ _) fun functions => ?_
    cases functions with
    | none => exact .pure none
    | some functions =>
      refine .bind (blames_column .u32 headers _ _) fun names => ?_
      cases names with
      | none => exact .pure none
      | some names =>
        refine .bind (blames_column .u16 headers _ _) fun places => ?_
        cases places <;> exact .pure _

end PeCoff.ExportTable
