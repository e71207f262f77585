import PeCoff.Debug
import PeCoff.Export
import PeCoff.Import
import PeCoff.Managed
import PeCoff.Proofs.Arithmetic.Headers

/-!
# Arithmetic of directories

The managed header, exports, imports and debug directory, evaluated. The numbers
that lead through their tables are bounded by the sizes that the headers state.
The ordinal and the address of an export wrap around, which is no fault.
-/

namespace PeCoff.Evaluation

open Reader (require fail exact times u16 u32)

-- ---------------------------------------------------------------------------
-- Managed header
-- ---------------------------------------------------------------------------

def findManagedHeader (headers : Headers) : Evaluation (Option ManagedHeader) := do
  match ← locateDirectory headers .managedHeader with
  | none => pure none
  | some start => do
    let size := (headers.directory .managedHeader).size
    lift (require (ManagedHeader.length ≤ size) (.managedHeaderSize ManagedHeader.length size))
    seek start
    pure (some (← lift ManagedHeader.read))

theorem safe_findManagedHeader (headers : Headers) :
    Safe (findManagedHeader headers) (ManagedHeader.find headers) := by
  unfold findManagedHeader ManagedHeader.find
  refine .bind (safe_locateDirectory headers _) fun found hf => ?_
  cases found with
  | none => exact .pure none
  | some start =>
    refine .bind (.lift _) fun _ _ => .bind (.seek (lt_positionLimit (start_lt hf))) fun _ _ => ?_
    exact .bind (.lift _) fun header _ => .pure _

-- ---------------------------------------------------------------------------
-- Exports
-- ---------------------------------------------------------------------------

def readColumn (headers : Headers) (rva count : UInt32) (element : Reader α) :
    Evaluation (Option (List α)) :=
  if count = 0 then pure (some [])
  else do
    match ← offset? headers rva with
    | none => pure none
    | some offset => do
      seek offset
      pure (some (← lift (times count.toNat element)))

def readTarget (headers : Headers) (directory : DataDirectory) (stop : Nat) (function : UInt32) :
    Evaluation (Option ExportTarget) :=
  if directory.rva.toNat ≤ function.toNat && function.toNat < stop then do
    match ← textAt headers function with
    | none => pure none
    | some text => pure (some (.forwarded text))
  else pure (some (.code (headers.imageBase + function.toUInt64)))

def readRow (headers : Headers) (header : ExportHeader) (functions : Array UInt32) (stop : Nat)
    (row : ExportTable.Row) : Evaluation (Option Export) := do
  let index ← fit 32 row.index
  match ← textAt headers row.name with
  | none => pure none
  | some name => do
    let place ← fit 64 row.place.toNat
    match functions[place]? with
    | none => lift (fail (.exportOrdinal row.place.toUInt32 header.numberOfFunctions))
    | some function => do
      match ← readTarget headers (headers.directory .exportTable) stop function with
      | none => pure none
      | some target => pure (some {
          name
          index := .ofNat index
          ordinal := row.place.toUInt32 + header.base
          target })

def readExports (headers : Headers) : Evaluation (Option ExportTable) := do
  match ← locateDirectory headers .exportTable with
  | none => pure none
  | some start => do
    seek start
    let header ← lift ExportHeader.read
    let moduleName ← textAt headers header.name
    match ← readColumn headers header.addressOfFunctions header.numberOfFunctions u32 with
    | none => pure none
    | some functions => do
      match ← readColumn headers header.addressOfNames header.numberOfNames u32 with
      | none => pure none
      | some names => do
        match ← readColumn headers header.addressOfNameOrdinals header.numberOfNames u16 with
        | none => pure none
        | some places => do
          let directory := headers.directory .exportTable
          let stop ← fit 64 (directory.rva.toNat + directory.size.toNat)
          let exports ← (ExportTable.rows names places).filterMapM
            (readRow headers header functions.toArray stop)
          pure (some { header, moduleName, exports })

theorem safe_readColumn (headers : Headers) (rva count : UInt32) (element : Reader α) :
    Safe (readColumn headers rva count element)
      (ExportTable.readColumn headers rva count element) := by
  unfold readColumn ExportTable.readColumn
  split
  · exact .pure (some [])
  · refine .step (offset?_eq headers rva) ?_
    cases ho : headers.offset? rva with
    | none => exact .pure none
    | some offset =>
      refine .bind (.seek (lt_positionLimit (offset_lt ho))) fun _ _ => ?_
      exact .bind (.lift _) fun values _ => .pure _

theorem length_readColumn {headers : Headers} {rva count : UInt32} {element : Reader α}
    {values : List α}
    (h : (ExportTable.readColumn headers rva count element).Yields (some values)) :
    values.length = count.toNat := by
  unfold ExportTable.readColumn at h
  split at h
  next hz =>
    obtain ⟨bytes, position, after, hr⟩ := h
    cases hr
    exact congrArg UInt32.toNat hz.symm
  next =>
    split at h
    next =>
      obtain ⟨bytes, position, after, hr⟩ := h
      cases hr
    next offset _ =>
      obtain ⟨bytes, position, after, hr⟩ := h
      obtain ⟨_, _, -, hr⟩ := Reader.run_bind_ok.mp hr
      obtain ⟨values, _, ht, hp⟩ := Reader.run_bind_ok.mp hr
      cases hp
      exact Reader.Yields.length_times ⟨_, _, _, ht⟩

theorem safe_readTarget (headers : Headers) (directory : DataDirectory) (function : UInt32) :
    Safe (readTarget headers directory (directory.rva.toNat + directory.size.toNat) function)
      (ExportTable.readTarget headers directory function) := by
  unfold readTarget ExportTable.readTarget ExportTable.isForwarder
  split
  · refine .bind (safe_textAt headers function) fun found _ => ?_
    cases found with
    | none => exact .pure none
    | some text => exact .pure _
  · exact .pure _

theorem safe_readRow (headers : Headers) (header : ExportHeader) (functions : Array UInt32)
    {row : ExportTable.Row} (h : row.index < 1 <<< 32) :
    Safe (readRow headers header functions ((headers.directory .exportTable).rva.toNat +
        (headers.directory .exportTable).size.toNat) row)
      (ExportTable.readRow headers header functions row) := by
  unfold readRow ExportTable.readRow
  refine .step (fit_eq rfl h) (.bind (safe_textAt headers row.name) fun found _ => ?_)
  cases found with
  | none => exact .pure none
  | some name =>
    have hp := row.place.toNat_lt
    refine .step (fit_eq rfl (by omega)) ?_
    cases functions[row.place.toNat]? with
    | none => exact .lift _
    | some function =>
      refine .bind (safe_readTarget headers _ function) fun target _ => ?_
      cases target with
      | none => exact .pure none
      | some target => exact .pure _

theorem index_lt_of_mem_rows {names : List UInt32} {places : List UInt16} {row : ExportTable.Row}
    (h : row ∈ ExportTable.rows names places) : row.index < names.length := by
  obtain ⟨⟨⟨name, place⟩, index⟩, hm, rfl⟩ := List.mem_map.mp h
  have hi := List.snd_lt_of_mem_zipIdx hm
  rw [List.length_zip] at hi
  exact Nat.lt_of_lt_of_le hi (Nat.min_le_left _ _)

theorem safe_readExports (headers : Headers) :
    Safe (readExports headers) (ExportTable.read headers) := by
  unfold readExports ExportTable.read
  refine .bind (safe_locateDirectory headers _) fun found hf => ?_
  cases found with
  | none => exact .pure none
  | some start =>
    refine .bind (.seek (lt_positionLimit (start_lt hf))) fun _ _ => ?_
    refine .bind (.lift _) fun header _ => .bind (safe_textAt headers _) fun moduleName _ => ?_
    refine .bind (safe_readColumn headers _ _ _) fun functions _ => ?_
    cases functions with
    | none => exact .pure none
    | some functions =>
      refine .bind (safe_readColumn headers _ _ _) fun names hn => ?_
      cases names with
      | none => exact .pure none
      | some names =>
        refine .bind (safe_readColumn headers _ _ _) fun places _ => ?_
        cases places with
        | none => exact .pure none
        | some places =>
          have hr := (headers.directory .exportTable).rva.toNat_lt
          have hs := (headers.directory .exportTable).size.toNat_lt
          refine .step (fit_eq (Int.natCast_add _ _).symm (by omega)) ?_
          refine .bind (.filterMapM _ fun row hm => safe_readRow headers header _ ?_)
            fun exports _ => .pure _
          have hi := index_lt_of_mem_rows hm
          rw [length_readColumn hn] at hi
          exact Nat.lt_trans hi (UInt32.toNat_lt _)

-- ---------------------------------------------------------------------------
-- Imports
-- ---------------------------------------------------------------------------

def readImport (headers : Headers) (position : Nat) : Evaluation (Option ImportedModule) := do
  seek position
  let descriptor ← lift ImportDescriptor.read
  if descriptor.isTerminator then pure none
  else do
    let name ← textAt headers descriptor.name
    pure (some { descriptor, name })

def readImports (headers : Headers) : Evaluation (List ImportedModule) := do
  match ← locateDirectory headers .importTable with
  | none => pure []
  | some start =>
    let room := (headers.directory .importTable).size.toNat / ImportDescriptor.length
    collect room fun index => do
      let offset ← fit 32 (index * ImportDescriptor.length)
      let position ← fit 64 (start + offset)
      readImport headers position

theorem safe_readImport (headers : Headers) {position : Nat} (h : position < positionLimit) :
    Safe (readImport headers position) (ImportedModule.readAt headers position) := by
  unfold readImport ImportedModule.readAt
  refine .bind (.seek h) fun _ _ => .bind (.lift _) fun descriptor _ => ?_
  split
  · exact .pure none
  · exact .bind (safe_textAt headers _) fun name _ => .pure _

theorem safe_readImports (headers : Headers) :
    Safe (readImports headers) (ImportedModule.readAll headers) := by
  unfold readImports ImportedModule.readAll
  refine .bind (safe_locateDirectory headers _) fun found hf => ?_
  cases found with
  | none => exact .pure []
  | some start =>
    refine .collect fun index hi => ?_
    have hs := start_lt hf
    have hz := (headers.directory .importTable).size.toNat_lt
    have hl : index * ImportDescriptor.length < 1 <<< 32 := by
      unfold ImportDescriptor.length at hi ⊢
      omega
    rw [Nat.mul_comm ImportDescriptor.length]
    refine .step (fit_eq (Int.natCast_mul _ _).symm hl) ?_
    refine .step (fit_eq (Int.natCast_add _ _).symm (by omega)) ?_
    exact safe_readImport headers (by unfold positionLimit; omega)

-- ---------------------------------------------------------------------------
-- Debug directory
-- ---------------------------------------------------------------------------

def readGuid : Evaluation Guid := do
  let bytes ← lift (exact 16)
  let data1 ← part 4 bytes 0 4
  let data2 ← part 2 bytes 4 6
  let data3 ← part 2 bytes 6 8
  let data4 ← part 8 bytes 8 16
  pure {
    data1 := .ofNat (LittleEndian.value data1.toList)
    data2 := .ofNat (LittleEndian.value data2.toList)
    data3 := .ofNat (LittleEndian.value data3.toList)
    data4 }

def readCodeViewRecord : Evaluation CodeView := do
  let obtained ← lift (exact 4)
  lift (require (obtained = CodeView.magic) (.codeViewMagic obtained))
  let signature ← readGuid
  let age ← lift Reader.i32
  let path ← lift Reader.terminated
  pure { signature, age, path }

def readCodeView (headers : Headers) (entry : DebugEntry) : Evaluation (Option CodeView) :=
  if entry.kind = .codeView && DebugRecord.dataOffset headers entry != 0 then do
    seek (DebugRecord.dataOffset headers entry).toNat
    pure (some (← readCodeViewRecord))
  else pure none

def readDebug (headers : Headers) : Evaluation (List DebugRecord) := do
  match ← locateDirectory headers .debug with
  | none => pure []
  | some start => do
    let size := (headers.directory .debug).size
    lift (require (size % DebugEntry.length = 0) (.directorySize size DebugEntry.length))
    seek start
    let count ← fit 64 (size.toNat / DebugEntry.length.toNat)
    let entries ← lift (times count DebugEntry.read)
    entries.mapM fun entry => do pure { entry, codeView := ← readCodeView headers entry }

theorem safe_readGuid : Safe readGuid Guid.read :=
  .bind (.lift _) fun _ _ => rfl

theorem safe_readCodeViewRecord : Safe readCodeViewRecord CodeView.read := by
  unfold readCodeViewRecord CodeView.read
  refine .bind (.lift _) fun obtained _ => .bind (.lift _) fun _ _ => ?_
  refine .bind safe_readGuid fun signature _ => .bind (.lift _) fun age _ => ?_
  exact .bind (.lift _) fun path _ => .pure _

theorem safe_readCodeView (headers : Headers) (entry : DebugEntry) :
    Safe (readCodeView headers entry) (DebugRecord.readCodeView headers entry) := by
  unfold readCodeView DebugRecord.readCodeView
  split
  · have ho := (DebugRecord.dataOffset headers entry).toNat_lt
    refine .bind (.seek (lt_positionLimit (by omega))) fun _ _ => ?_
    exact .bind safe_readCodeViewRecord fun record _ => .pure _
  · exact .pure none

theorem safe_readDebug (headers : Headers) :
    Safe (readDebug headers) (DebugRecord.readAll headers) := by
  unfold readDebug DebugRecord.readAll
  refine .bind (safe_locateDirectory headers _) fun found hf => ?_
  cases found with
  | none => exact .pure []
  | some start =>
    have hc := ((headers.directory .debug).size / DebugEntry.length).toNat_lt
    refine .bind (.lift _) fun _ _ => .bind (.seek (lt_positionLimit (start_lt hf))) fun _ _ => ?_
    refine .step (fit_eq (congrArg Int.ofNat (UInt32.toNat_div _ _).symm) (by omega)) ?_
    refine .bind (.lift _) fun entries _ => .mapM _ fun entry _ => ?_
    exact .bind (safe_readCodeView headers entry) fun found _ => .pure _

end PeCoff.Evaluation
