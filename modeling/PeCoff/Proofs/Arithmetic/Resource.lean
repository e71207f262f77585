import PeCoff.Proofs.Arithmetic.Directories
import PeCoff.Proofs.Resource.Unfolding

/-!
# Arithmetic of the resource tree

The tree and the version record, evaluated. A level takes its entries off the
number that is left only once they are known to be fewer, so what is left never
grows. The root is within a section and every offset from it has 32 bits, so all
positions stay below the limit.
-/

namespace PeCoff.Evaluation

open Reader (require fail times u16)
open Resource

-- ---------------------------------------------------------------------------
-- UTF-16
-- ---------------------------------------------------------------------------

def pairs : List UInt8 → List (List UInt8)
  | low :: high :: rest => [low, high] :: pairs rest
  | _ => []

def unitOf (pair : List UInt8) : Evaluation UInt16 := do
  let low ← element pair 0
  let high ← element pair 1
  pure (.ofNat (LittleEndian.value [low, high]))

def utf16 (count : Nat) : Evaluation String := do
  let length ← fit 64 (count * 2)
  let data ← lift (Reader.bytes length)
  let units ← (pairs data.data.toList).mapM unitOf
  match Utf16.decode? units with
  | some text => pure text
  | none => lift (fail .invalidText)

theorem mapM_unitOf (data : List UInt8) :
    (pairs data).mapM unitOf = pure (LittleEndian.units data) := by
  fun_induction pairs data with
  | case1 low high rest ih =>
    rw [List.mapM_cons, ih, units_cons]
    rfl
  | case2 data h =>
    rcases data with _ | ⟨low, _ | ⟨high, rest⟩⟩
    · rfl
    · rfl
    · exact absurd rfl (h low high rest)

theorem safe_utf16 {count : Nat} (h : count < 1 <<< 16) :
    Safe (utf16 count) (Reader.utf16 count) := by
  unfold utf16
  rw [Reader.utf16, Reader.byteCount_of_lt (Nat.lt_trans h (by decide)), Nat.mul_comm 2]
  refine .step (fit_eq (Int.natCast_mul _ 2).symm (by omega)) (.bind (.lift _) fun data _ => ?_)
  refine .step (mapM_unitOf data.data.toList) ?_
  cases Utf16.decode? (LittleEndian.units data.data.toList) with
  | none => exact .lift _
  | some text => exact .pure text

theorem utf16_overflow {count : Nat} (h : 2 ^ 63 ≤ count) (bytes : ByteArray) (position : Nat) :
    utf16 count .checked bytes position = .error (.fault (.overflow 64 (count * 2))) := by
  have hw : 1 <<< 64 ≤ count * 2 := by omega
  exact bind_stop (fit_overflow hw) _

theorem unitOf_beyond (low : UInt8) : unitOf [low] = fault (.index 1 1) := by
  have hl : element [low] 0 = pure low := element_eq rfl
  rw [unitOf, hl, pure_bind, element_beyond (Nat.le_refl 1)]
  rfl

-- ---------------------------------------------------------------------------
-- Levels
-- ---------------------------------------------------------------------------

def readLabel (root : Nat) : Key → Evaluation (Option Label)
  | .id _ => pure none
  | .name offset => do
    let position ← fit 64 (root + offset.toNat)
    seek position
    let length ← lift u16
    let text ← utf16 length.toNat
    pure (some { length, text })

def readData (headers : Headers) : Evaluation DataEntry := do
  let rva ← lift Reader.u32
  let size ← lift Reader.u32
  let codePage ← lift Reader.u32
  let reserved ← lift Reader.u32
  let offset ← offset? headers rva
  pure { rva, size, codePage, reserved, offset }

def readChild (headers : Headers) (root : Nat) (below : UInt32 → Nat → Evaluation (Level × Nat))
    (budget : Nat) : Link → Evaluation (Child Level × Nat)
  | .directory offset => do
    let (level, budget) ← below offset budget
    pure (.directory level, budget)
  | .data offset => do
    let position ← fit 64 (root + offset.toNat)
    seek position
    pure (.data (← readData headers), budget)

def readEntry (headers : Headers) (root : Nat) (below : UInt32 → Nat → Evaluation (Level × Nat))
    (done : List (Entry Level) × Nat) (raw : RawEntry) :
    Evaluation (List (Entry Level) × Nat) := do
  let label ← readLabel root raw.key
  let (child, budget) ← readChild headers root below done.2 raw.link
  pure ({ key := raw.key, link := raw.link, label, child } :: done.1, budget)

def readLevel (headers : Headers) (root depth : Nat) (offset : UInt32) (budget : Nat) :
    Evaluation (Level × Nat) :=
  if _h : maxDepth ≤ depth then lift (fail (.resourceTreeDepth maxDepth))
  else do
    let position ← fit 64 (root + offset.toNat)
    seek position
    let header ← lift LevelHeader.read
    let total ← fit 64 (header.numberOfNamedEntries.toNat + header.numberOfIdEntries.toNat)
    lift (require (total ≤ budget) (.resourceEntryCount maxEntries))
    let left ← fit 64 (budget - total)
    let raw ← lift (times total RawEntry.read)
    let (entries, left) ← raw.foldlM
      (readEntry headers root fun offset budget => do
        let _ ← fit 64 (depth + 1)
        readLevel headers root (depth + 1) offset budget)
      ([], left)
    pure ({ header, entries := entries.reverse }, left)
termination_by maxDepth - depth
decreasing_by omega

/-- A root that no section has would lead to positions beyond the limit. -/
theorem readLevel_beyond {headers : Headers} {root depth budget : Nat} {offset : UInt32}
    (hd : depth < maxDepth) (hp : positionLimit ≤ root + offset.toNat)
    (hw : root + offset.toNat < 1 <<< 64) (bytes : ByteArray) (position : Nat) :
    readLevel headers root depth offset budget .checked bytes position =
      .error (.fault (.position (root + offset.toNat))) := by
  rw [readLevel, dif_neg (Nat.not_le.mpr hd), step (fit_eq (Int.natCast_add _ _).symm hw) rfl]
  exact bind_stop (seek_beyond hp) _

variable {headers : Headers} {root : Nat} (hr : root < 1 <<< 33)
include hr

theorem offset_step {next : Nat → Evaluation α} {reader : Reader α} (offset : UInt32)
    (hn : Safe (next (root + offset.toNat)) reader) :
    Safe (fit 64 (root + offset.toNat) >>= next) reader := by
  have ho := offset.toNat_lt
  exact .step (fit_eq (Int.natCast_add _ _).symm (by omega)) hn

theorem safe_seek_offset (offset : UInt32) :
    Safe (seek (root + offset.toNat)) (Reader.seek (root + offset.toNat)) := by
  have ho := offset.toNat_lt
  exact .seek (by unfold positionLimit; omega)

theorem safe_readLabel (key : Key) : Safe (readLabel root key) (Resource.readLabel root key) := by
  unfold readLabel Resource.readLabel
  cases key with
  | id number => exact .pure none
  | name offset =>
    refine offset_step hr offset (.bind (safe_seek_offset hr offset) fun _ _ => ?_)
    unfold Label.read
    simp only [bind_assoc, pure_bind]
    refine .bind (.lift _) fun length _ => ?_
    exact .bind (safe_utf16 length.toNat_lt) fun text _ => .pure _

omit hr in
theorem safe_readData (headers : Headers) :
    Safe (readData headers) (DataEntry.read headers) := by
  unfold readData DataEntry.read
  refine .bind (.lift _) fun rva _ => .bind (.lift _) fun size _ => ?_
  refine .bind (.lift _) fun codePage _ => .bind (.lift _) fun reserved _ => ?_
  exact .step (offset?_eq headers rva) (.pure _)

section

variable {below : UInt32 → Nat → Evaluation (Level × Nat)}
  {below' : UInt32 → Nat → Reader (Level × Nat)}
  (hb : ∀ offset budget, budget < 1 <<< 64 → Safe (below offset budget) (below' offset budget))
include hb

theorem safe_readChild {budget : Nat} (hl : budget < 1 <<< 64) (link : Link) :
    Safe (readChild headers root below budget link)
      (Level.readChild headers root below' budget link) := by
  unfold readChild Level.readChild
  cases link with
  | directory offset => exact .bind (hb offset budget hl) fun found _ => .pure _
  | data offset =>
    refine offset_step hr offset (.bind (safe_seek_offset hr offset) fun _ _ => ?_)
    exact .bind (safe_readData headers) fun entry _ => .pure _

theorem safe_readEntry {done : List (Entry Level) × Nat} (hl : done.2 < 1 <<< 64) (raw : RawEntry) :
    Safe (readEntry headers root below done raw)
      (Level.readEntry headers root below' done raw) := by
  unfold readEntry Level.readEntry
  refine .bind (safe_readLabel hr raw.key) fun label _ => ?_
  exact .bind (safe_readChild hr hb hl raw.link) fun found _ => .pure _

end

omit hr in
theorem left_le {depth : Nat} {done later : List (Entry Level) × Nat} {raw : RawEntry}
    (h : (Level.readEntry headers root (Level.read headers root depth) done raw).Yields later) :
    later.2 ≤ done.2 := by
  obtain ⟨bytes, position, after, hr⟩ := h
  have hb := fun offset budget position found =>
    (@gives_level headers bytes root depth offset budget position found).trans
      (and_congr_right fun _ => and_congr_left fun _ => Nat.lt_succ_iff.symm)
  obtain ⟨entry, -, -, -, rfl⟩ :=
    (gives_entry hb done raw position later).mp (Reader.value_eq_ok.mpr ⟨after, hr⟩)
  exact Nat.sub_le _ _

theorem safe_readLevel {depth budget : Nat} (offset : UInt32) (hl : budget < 1 <<< 64) :
    Safe (readLevel headers root depth offset budget)
      (Level.read headers root (maxDepth - depth) offset budget) := by
  -- The levels that may still be below are what decreases. How many entries are left
  -- goes from level to level and stays what fits, since no entry adds to it.
  induction hd : maxDepth - depth generalizing depth offset budget with
  | zero =>
    rw [readLevel, dif_pos (by omega)]
    exact .lift _
  | succ left ih =>
    rw [readLevel, dif_neg (by omega), Level.read]
    refine offset_step hr offset (.bind (safe_seek_offset hr offset) fun _ _ => ?_)
    refine .bind (.lift _) fun header _ => ?_
    have hn := header.numberOfNamedEntries.toNat_lt
    have hi := header.numberOfIdEntries.toNat_lt
    refine .step (fit_eq (Int.natCast_add _ _).symm (by omega)) (.bind (.lift _) fun _ hc => ?_)
    have hc : header.entryCount ≤ budget := hc.of_require
    refine .step (fit_eq (Int.ofNat_sub hc).symm (by omega)) (.bind (.lift _) fun raw _ => ?_)
    refine .bind (.foldlM (fun done => done.2 < 1 <<< 64) ?_ ?_ ?_ raw) fun done _ => .pure _
    · intro done raw hl
      refine safe_readEntry hr (fun offset budget hl => ?_) hl raw
      have hm : maxDepth = 8 := rfl
      exact .step (fit_eq (Int.natCast_add _ 1).symm (by omega)) (ih offset hl (by omega))
    · intro done raw later hl hy
      exact Nat.lt_of_le_of_lt (left_le hy) hl
    · exact Nat.lt_of_le_of_lt (Nat.sub_le _ _) hl

omit hr

-- ---------------------------------------------------------------------------
-- Version records and tables
-- ---------------------------------------------------------------------------

def readVersionRecord : Evaluation (Option Version.Record) := do
  let length ← lift u16
  let valueLength ← lift u16
  let valueType ← lift u16
  let key ← utf16 Version.Record.keyUnits
  let _padding ← lift u16
  let fixedInfo ← lift Version.FixedInfo.read
  if fixedInfo.signature = Version.FixedInfo.expectedSignature then
    pure (some { length, valueLength, valueType, key := Version.Record.trimNuls key, fixedInfo })
  else pure none

def readVersion (root : Level) : Evaluation (Option Version.Record) :=
  match (versionLeaf? root).bind DataEntry.offset with
  | none => pure none
  | some offset => do
    match ← attempt (do seek offset; readVersionRecord) with
    | some record => pure record
    | none => pure none

def readTable (headers : Headers) : Evaluation Table := do
  match ← attempt (locateDirectory headers .resourceTable) with
  | some (some root) => do
    match ← attempt (readLevel headers root 0 0 maxEntries) with
    | some (level, _) => do
      let version ← readVersion level
      pure { rootOffset := some root, root := level, version }
    | none => pure { Table.empty with rootOffset := some root }
  | _ => pure .empty

theorem safe_readVersionRecord : Safe readVersionRecord Version.Record.read := by
  unfold readVersionRecord Version.Record.read
  refine .bind (.lift _) fun length _ => .bind (.lift _) fun valueLength _ => ?_
  refine .bind (.lift _) fun valueType _ => ?_
  refine .bind (safe_utf16 (by decide)) fun key _ => .bind (.lift _) fun _ _ => ?_
  refine .bind (.lift _) fun fixedInfo _ => ?_
  split
  · exact .pure _
  · exact .pure none

theorem safe_readVersion {root : Level}
    (h : ∀ offset, (versionLeaf? root).bind DataEntry.offset = some offset → offset < 1 <<< 33) :
    Safe (readVersion root) (Resource.readVersion root) := by
  unfold readVersion Resource.readVersion
  cases ho : (versionLeaf? root).bind DataEntry.offset with
  | none => exact .pure none
  | some offset =>
    have hs := Safe.seek (lt_positionLimit (h offset ho))
    refine .bind (.attempt (.bind hs fun _ _ => safe_readVersionRecord)) fun found _ => ?_
    cases found with
    | none => exact .pure none
    | some record => exact .pure record

theorem safe_readTable (headers : Headers) : Safe (readTable headers) (Table.read headers) := by
  unfold readTable Table.read
  refine .bind (.attempt (safe_locateDirectory headers _)) fun found hf => ?_
  rcases found with _ | _ | root
  · exact .pure _
  · exact .pure _
  · have hr := start_lt hf.of_attempt
    refine .bind (.attempt (safe_readLevel hr 0 (by decide))) fun found ht => ?_
    rcases found with _ | ⟨level, left⟩
    · exact .pure _
    · obtain ⟨bytes, position, after, ht⟩ := ht.of_attempt
      have hu := (gives_level _ _ _ _ _).mp (Reader.value_eq_ok.mpr ⟨after, ht⟩)
      refine .bind (safe_readVersion fun offset ho => ?_) fun version _ => .pure _
      obtain ⟨leaf, hl, ho⟩ := Option.bind_eq_some_iff.mp ho
      rw [hu.1.offset_versionLeaf hl] at ho
      exact offset_lt ho

end PeCoff.Evaluation
