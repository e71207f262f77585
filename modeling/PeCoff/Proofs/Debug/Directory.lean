import PeCoff.Proofs.Debug.Records
import PeCoff.Proofs.Gate

/-!
# The debug directory

A directory that the gate admits is a table of entries, and some of them lead to
CodeView records elsewhere. `readAll_outcome`: what is read is what stands there,
entry by entry. The whole table is read before any data is followed, so that the
first entry with a fault is the answer whatever the records are, and a fault of a
record is the answer only if no entry has one.
-/

namespace PeCoff

open Reader

-- ---------------------------------------------------------------------------
-- What stands there
-- ---------------------------------------------------------------------------

namespace DebugRecord

/-- The entry says that there is a CodeView record at the place, in the layout at hand. -/
def LeadsTo (headers : Headers) (entry : DebugEntry) (place : UInt32) : Prop :=
  entry.kind.code = 2 ∧ place ≠ 0 ∧
    place = if headers.loaded then entry.addressOfRawData else entry.pointerToRawData

inductive CodeViewOf (headers : Headers) (bytes : ByteArray) (entry : DebugEntry) :
    Option CodeView → Prop
  | nowhere : (∀ place, ¬LeadsTo headers entry place) → CodeViewOf headers bytes entry none
  | record {place : UInt32} {record : CodeView} : LeadsTo headers entry place →
      record.At bytes place.toNat → CodeViewOf headers bytes entry (some record)

/-- The entry stands at the position, and behind it is what it leads to. -/
structure At (headers : Headers) (bytes : ByteArray) (position : Nat) (record : DebugRecord) :
    Prop where
  entry : record.entry.At bytes position
  codeView : CodeViewOf headers bytes record.entry record.codeView

/-- The first fault of a table of `count` entries: that of an entry, or else of what one of
them leads to. -/
inductive Fault (headers : Headers) (bytes : ByteArray) (start count : Nat) : ReadError → Prop
  | entry {index : Nat} {cause : ReadError} : index < count →
      DebugEntry.Fault bytes (start + 28 * index) cause →
      (∀ earlier < index, ∃ entry, DebugEntry.At bytes (start + 28 * earlier) entry) →
      Fault headers bytes start count cause
  | codeView {entries : List DebugEntry} {index : Nat} {entry : DebugEntry} {place : UInt32}
      {cause : ReadError} : entries.length = count →
      (∀ (index : Nat) entry, entries[index]? = some entry →
        entry.At bytes (start + 28 * index)) →
      entries[index]? = some entry → LeadsTo headers entry place →
      CodeView.Fault bytes place.toNat cause →
      (∀ earlier < index, ∀ prior, entries[earlier]? = some prior →
        ∃ codeView, CodeViewOf headers bytes prior codeView) →
      Fault headers bytes start count cause

/-- The first record of the table that has a CodeView record, and that one. -/
def FirstCodeView (headers : Headers) (bytes : ByteArray) (start count : Nat)
    (codeView : CodeView) : Prop :=
  ∃ (index : Nat) (record : DebugRecord), index < count ∧
    record.At headers bytes (start + 28 * index) ∧ record.codeView = some codeView ∧
    ∀ earlier < index, ∃ prior : DebugRecord,
      prior.At headers bytes (start + 28 * earlier) ∧ prior.codeView = none

-- ---------------------------------------------------------------------------
-- What an entry leads to
-- ---------------------------------------------------------------------------

variable {headers : Headers} {bytes : ByteArray} {position start : Nat} {entry : DebugEntry}
  {cause : ReadError}

theorem leadsTo_iff {place : UInt32} :
    LeadsTo headers entry place ↔
      (entry.kind = .codeView && dataOffset headers entry != 0) = true ∧
        place = dataOffset headers entry := by
  have hk : entry.kind = .codeView ↔ entry.kind.code = 2 := by
    rw [← DebugKind.mk.injEq]
    rfl
  rw [LeadsTo, Bool.and_eq_true, decide_eq_true_eq, bne_iff_ne, hk, dataOffset]
  constructor
  · rintro ⟨hc, hz, rfl⟩
    exact ⟨⟨hc, hz⟩, rfl⟩
  · rintro ⟨⟨hc, hz⟩, rfl⟩
    exact ⟨hc, hz, rfl⟩

theorem anchored_readCodeView (headers : Headers) (entry : DebugEntry) :
    (readCodeView headers entry).Anchored := by
  unfold readCodeView
  split
  · exact .seek_bind _ _
  · exact .pure none

theorem gives_readCodeView :
    (readCodeView headers entry).Gives bytes (CodeViewOf headers bytes entry) := by
  intro position found
  unfold readCodeView
  split
  next h =>
    have hl : LeadsTo headers entry (dataOffset headers entry) := leadsTo_iff.mpr ⟨h, rfl⟩
    have hr : (seek (dataOffset headers entry).toNat >>= fun _ => CodeView.read).Gives bytes
        (CodeView.At bytes (dataOffset headers entry).toNat) :=
      .seek_bind fun _ => CodeView.value_read_ok
    refine ((hr.bind fun record => .pure (some record)) position found).trans ?_
    constructor
    · rintro ⟨record, hr, rfl⟩
      exact .record hl hr
    · rintro (hn | ⟨hp, hr⟩)
      · exact absurd hl (hn _)
      · obtain ⟨-, rfl⟩ := leadsTo_iff.mp hp
        exact ⟨_, hr, rfl⟩
  next h =>
    have hn (place : UInt32) : ¬LeadsTo headers entry place := fun hl => h (leadsTo_iff.mp hl).1
    rw [value_pure, Except.ok.injEq]
    constructor
    · rintro rfl
      exact .nowhere hn
    · rintro (_ | ⟨hl, -⟩)
      · rfl
      · exact absurd hl (hn _)

theorem value_readCodeView_error :
    (readCodeView headers entry).value bytes position = .error cause ↔
      ∃ place, LeadsTo headers entry place ∧ CodeView.Fault bytes place.toNat cause := by
  simp only [leadsTo_iff]
  unfold readCodeView
  split
  next h =>
    have hr : (seek (dataOffset headers entry).toNat >>= fun _ => CodeView.read >>= fun record =>
        pure (some record)).value bytes position = .error cause ↔
          CodeView.Fault bytes (dataOffset headers entry).toNat cause := by
      show (CodeView.read >>= fun record => pure (some record)).value bytes
        (dataOffset headers entry).toNat = .error cause ↔ _
      rw [value_eq_error, run_bind_error, ← value_eq_error, CodeView.value_read_error]
      simp
    refine hr.trans ?_
    simp [h]
  next h => simp [h]

def complete (headers : Headers) (entry : DebugEntry) : Reader DebugRecord := do
  pure { entry, codeView := ← readCodeView headers entry }

theorem anchored_complete (headers : Headers) (entry : DebugEntry) :
    (complete headers entry).Anchored :=
  .bind (anchored_readCodeView headers entry) fun _ => .pure _

theorem gives_complete :
    (complete headers entry).Gives bytes fun record =>
      record.entry = entry ∧ CodeViewOf headers bytes entry record.codeView := by
  intro position record
  refine ((gives_readCodeView.bind fun codeView => .pure (DebugRecord.mk entry codeView))
    position record).trans ?_
  constructor
  · rintro ⟨codeView, hc, rfl⟩
    exact ⟨rfl, hc⟩
  · rintro ⟨rfl, hc⟩
    exact ⟨_, hc, rfl⟩

theorem value_complete_error :
    (complete headers entry).value bytes position = .error cause ↔
      ∃ place, LeadsTo headers entry place ∧ CodeView.Fault bytes place.toNat cause := by
  rw [complete, Anchored.value_bind_eq_error fun _ => .pure _, value_readCodeView_error]
  simp

theorem At.unique {first second : DebugRecord} (hf : first.At headers bytes position)
    (hs : second.At headers bytes position) : first = second := by
  obtain ⟨entry, codeView⟩ := first
  obtain ⟨entry', codeView'⟩ := second
  have he := DebugEntry.run_read_ok.mpr ⟨hf.entry, rfl⟩
  rw [DebugEntry.run_read_ok.mpr ⟨hs.entry, rfl⟩] at he
  obtain rfl : entry' = entry := (Prod.mk.inj (Except.ok.inj he)).1
  have hc := (gives_readCodeView position _).mpr hf.codeView
  rw [(gives_readCodeView position _).mpr hs.codeView] at hc
  obtain rfl : codeView' = codeView := Except.ok.inj hc
  rfl

-- ---------------------------------------------------------------------------
-- The table
-- ---------------------------------------------------------------------------

theorem value_entries_ok {count : Nat} {entries : List DebugEntry} :
    (times count DebugEntry.read).value bytes start = .ok entries ↔
      entries.length = count ∧ ∀ (index : Nat) entry, entries[index]? = some entry →
        entry.At bytes (start + 28 * index) := by
  simp only [value_eq_ok, run_times_ok fun _ _ _ => DebugEntry.run_read_ok]
  constructor
  · rintro ⟨_, hl, he, -⟩
    exact ⟨hl, he⟩
  · rintro ⟨hl, he⟩
    exact ⟨_, hl, he, rfl⟩

section

variable (ha : headers.Admits .debug start)
  (hs : (headers.directory .debug).size.toNat % 28 = 0)
include ha hs

theorem value_readAll (bytes : ByteArray) (position : Nat) :
    (readAll headers).value bytes position =
      (times ((headers.directory .debug).size.toNat / 28) DebugEntry.read >>= fun entries =>
        mapEach (complete headers) entries).value bytes start := by
  have hr : (headers.directory .debug).size % DebugEntry.length = 0 := by
    rw [← UInt32.toNat_inj, UInt32.toNat_mod]
    exact hs
  have hc : ((headers.directory .debug).size / DebugEntry.length).toNat =
      (headers.directory .debug).size.toNat / 28 := UInt32.toNat_div _ _
  unfold readAll
  rw [value_locate_bind, ha.directoryOffset?]
  simp only [require, if_pos hr, pure_bind, hc]
  rfl

theorem readAll_ok {records : List DebugRecord} :
    (readAll headers).value bytes position = .ok records ↔
      records.length = (headers.directory .debug).size.toNat / 28 ∧
        ∀ (index : Nat) record, records[index]? = some record →
          record.At headers bytes (start + 28 * index) := by
  rw [value_readAll ha hs, Anchored.value_bind (fun entries =>
    .mapEach (anchored_complete headers) entries) bytes start start, bind_ok]
  simp only [value_entries_ok, Gives.mapEach (fun _ => gives_complete) start records]
  constructor
  · rintro ⟨entries, ⟨hl, he⟩, hn, hc⟩
    refine ⟨hn.trans hl, fun index record hi => ?_⟩
    have hx : index < entries.length := hn ▸ (List.getElem?_eq_some_iff.mp hi).1
    obtain ⟨hq, hv⟩ := hc index _ record (List.getElem?_eq_getElem hx) hi
    rw [← hq] at hv
    exact ⟨he index record.entry (hq ▸ List.getElem?_eq_getElem hx), hv⟩
  · rintro ⟨hl, hr⟩
    refine ⟨records.map entry, ⟨(List.length_map _).trans hl, fun index item hi => ?_⟩,
      (List.length_map _).symm, fun index item record hi hv => ?_⟩
    · rw [List.getElem?_map, Option.map_eq_some_iff] at hi
      obtain ⟨record, hv, rfl⟩ := hi
      exact (hr index record hv).entry
    · rw [List.getElem?_map, hv] at hi
      cases hi
      exact ⟨rfl, (hr index record hv).codeView⟩

theorem readAll_error :
    (readAll headers).value bytes position = .error cause ↔
      Fault headers bytes start ((headers.directory .debug).size.toNat / 28) cause := by
  rw [value_readAll ha hs, Anchored.value_bind_eq_error fun entries =>
    .mapEach (anchored_complete headers) entries, value_eq_error,
    run_times_error fun _ _ _ => DebugEntry.run_read_ok]
  simp only [Anchored.value_mapEach_eq_error (anchored_complete headers), value_complete_error,
    value_entries_ok, DebugEntry.run_read_error, gives_complete start _]
  constructor
  · rintro (⟨index, hi, he, hp⟩ | ⟨entries, ⟨hl, he⟩, index, entry, hi, ⟨place, ht, hf⟩, hp⟩)
    · exact .entry hi he hp
    · refine .codeView hl he hi ht hf fun earlier hlt prior hq => ?_
      obtain ⟨record, -, hv⟩ := hp earlier hlt prior hq
      exact ⟨record.codeView, hv⟩
  · rintro (⟨hi, he, hp⟩ | ⟨hl, he, hi, ht, hf, hp⟩)
    · exact .inl ⟨_, hi, he, hp⟩
    · refine .inr ⟨_, ⟨hl, he⟩, _, _, hi, ⟨_, ht, hf⟩, fun earlier hlt prior hq => ?_⟩
      obtain ⟨codeView, hv⟩ := hp earlier hlt prior hq
      exact ⟨⟨prior, codeView⟩, rfl, hv⟩

end

-- ---------------------------------------------------------------------------
-- The program database
-- ---------------------------------------------------------------------------

theorem findSome?_codeView {records : List DebugRecord} {codeView : CodeView}
    (hr : ∀ (index : Nat) record, records[index]? = some record →
      record.At headers bytes (start + 28 * index)) :
    records.findSome? DebugRecord.codeView = some codeView ↔
      FirstCodeView headers bytes start records.length codeView := by
  rw [List.findSome?_eq_some_iff]
  constructor
  · rintro ⟨before, record, behind, rfl, hc, hb⟩
    refine ⟨before.length, record, by simp, hr _ _ (by simp), hc, fun earlier hlt => ?_⟩
    refine ⟨before[earlier], hr _ _ ?_, hb _ (List.getElem_mem hlt)⟩
    rw [List.getElem?_append_left hlt, List.getElem?_eq_getElem hlt]
  · rintro ⟨index, record, hi, ha, hc, hp⟩
    obtain rfl : records[index] = record :=
      (hr _ _ (List.getElem?_eq_getElem hi)).unique ha
    refine ⟨records.take index, _, records.drop (index + 1), ?_, hc, fun other ho => ?_⟩
    · rw [← List.drop_eq_getElem_cons hi, List.take_append_drop]
    · obtain ⟨earlier, hlt, rfl⟩ := List.mem_take_iff_getElem.mp ho
      obtain ⟨prior, hq, hn⟩ := hp earlier (by omega)
      rwa [(hr _ _ (List.getElem?_eq_getElem (by omega))).unique hq]

end DebugRecord

/-- The debug directory of an image is the one that can be read by itself. -/
theorem Image.value_debug {bytes : ByteArray} {loaded : Bool} {image : Image}
    (h : read bytes loaded = .ok image) :
    (DebugRecord.readAll image.headers).value bytes 0 = .ok image.debug := by
  rw [read_eq bytes loaded 0] at h
  simp only [bind_ok, directories] at h
  obtain ⟨headers, -, _, ⟨managed, -, exports, -, imports, -, debug, hd, hi⟩, hr⟩ := h
  cases hi
  cases hr
  exact hd

namespace DebugRecord

/-- Reading the debug directory gives the records that stand there, or else the first fault, all
entries coming before all that they lead to. The program database is the first that an
entry leads to. -/
theorem readAll_outcome {headers : Headers} {start : Nat} (ha : headers.Admits .debug start)
    (hs : (headers.directory .debug).size.toNat % 28 = 0) (bytes : ByteArray) (position : Nat) :
    (∀ records, (readAll headers).value bytes position = .ok records ↔
      records.length = (headers.directory .debug).size.toNat / 28 ∧
        ∀ (index : Nat) record, records[index]? = some record →
          record.At headers bytes (start + 28 * index)) ∧
    (∀ cause, (readAll headers).value bytes position = .error cause ↔
      Fault headers bytes start ((headers.directory .debug).size.toNat / 28) cause) ∧
    ∀ loaded image, Image.read bytes loaded = .ok image → image.headers = headers →
      ∀ codeView, image.database? = some codeView ↔
        FirstCodeView headers bytes start ((headers.directory .debug).size.toNat / 28)
          codeView := by
  refine ⟨fun records => readAll_ok ha hs, fun cause => readAll_error ha hs, ?_⟩
  rintro loaded image hi rfl codeView
  obtain ⟨hl, hr⟩ := (readAll_ok ha hs).mp (Image.value_debug hi)
  rw [← hl]
  exact findSome?_codeView hr

def pair : Headers :=
  .ofDirectories (.replicate 6 .absent ++ [⟨0, 56⟩])
    [⟨.replicate 8 0, 56, 0, 56, 0, 0, 0, 0, 0, ⟨0⟩⟩]

/-- An entry that leads to a record with another magic, and one whose reserved field is set. -/
def mixed : ByteArray :=
  ⟨(([(12, 0), (4, 2), (8, 0), (4, 56), (4, 1), (24, 0), (4, 0x3031424E)] :
    List (Nat × Nat)).flatMap fun field => LittleEndian.bytes field.1 field.2).toArray⟩

theorem readAll_outcome_mixed :
    pair.Admits .debug 0 ∧ (pair.directory .debug).size.toNat % 28 = 0 ∧
      CodeView.Fault mixed 56 (.format (.codeViewMagic #v[0x4E, 0x42, 0x31, 0x30])) ∧
      (readAll pair).value mixed 0 = .error (.format (.debugCharacteristics 1)) := by
  have ha : pair.Admits .debug 0 := Headers.directoryOffset?_eq_some.mp rfl
  have hs : (pair.directory .debug).size.toNat % 28 = 0 := rfl
  have hc : CodeView.Fault mixed 56 (.format (.codeViewMagic #v[0x4E, 0x42, 0x31, 0x30])) :=
    CodeView.value_read_error.mp rfl
  refine ⟨ha, hs, hc, ((readAll_outcome ha hs mixed 0).2.1 _).mpr ?_⟩
  refine .entry (show 1 < 2 by decide) (.reserved rfl (by decide)) fun earlier hlt => ?_
  obtain rfl : earlier = 0 := by omega
  exact ⟨⟨0, 0, 0, 0, ⟨2⟩, 0, 0, 56⟩, (DebugEntry.run_read_ok.mp rfl).1⟩

end DebugRecord

end PeCoff
