import PeCoff.Proofs.Bytes.Terminated
import PeCoff.Proofs.Encodings
import PeCoff.Proofs.Gate

/-!
# The import table

A directory that the gate admits has room for some records of 20 bytes. Those in
front of the first blank one are the table, and each of them may have a name
elsewhere. `readAll_meaning`: what is read is what stands there, record by record
and name by name, and the answer is settled in front of the first blank record.
What is behind that is never looked at, whether there are bytes or not.
-/

namespace PeCoff

open Reader

variable {bytes : ByteArray} {position after start : Nat} {cause : ReadError}

-- ---------------------------------------------------------------------------
-- Descriptors
-- ---------------------------------------------------------------------------

namespace ImportDescriptor

variable {descriptor : ImportDescriptor}

def Blank (bytes : ByteArray) (position : Nat) : Prop :=
  Stands bytes position (.replicate 20 0)

theorem run_read_ok :
    read.run bytes position = .ok (descriptor, after) ↔
      Stands bytes position descriptor.encode ∧ after = position + 20 := by
  rw [decodes_read bytes position descriptor after, true_and]
  rfl

theorem takes_read : read.Takes [4, 4, 4, 4, 4] :=
  .cons .u32 fun _ => .cons .u32 fun _ => .cons .u32 fun _ => .cons .u32 fun _ =>
    .cons .u32 fun _ => .pure _

theorem isTerminator_iff_blank (h : Stands bytes position descriptor.encode) :
    descriptor.isTerminator = true ↔ Blank bytes position := by
  have ht : terminator.encode = .replicate 20 0 := rfl
  rw [isTerminator, decide_eq_true_eq, Blank, ← ht]
  constructor
  · rintro rfl
    exact h
  · intro hz
    have hr := run_read_ok.mpr ⟨h, rfl⟩
    rw [run_read_ok.mpr ⟨hz, rfl⟩] at hr
    exact (Prod.mk.inj (Except.ok.inj hr)).1.symm

end ImportDescriptor

-- ---------------------------------------------------------------------------
-- What stands there
-- ---------------------------------------------------------------------------

namespace ImportedModule

open ImportDescriptor (Blank)

structure At (headers : Headers) (bytes : ByteArray) (position : Nat) (item : ImportedModule) :
    Prop where
  descriptor : Stands bytes position item.descriptor.encode
  used : ¬Blank bytes position
  name : headers.MappedText bytes item.descriptor.name item.name

/-- What is wrong with a record: where it is cut, or its name if it is not blank. -/
inductive Fault (headers : Headers) (bytes : ByteArray) (position : Nat) : ReadError → Prop
  | cut {cause : ReadError} : firstCut bytes position [4, 4, 4, 4, 4] = some cause →
      Fault headers bytes position cause
  | name {descriptor : ImportDescriptor} {offset : Nat} {cause : ReadError} :
      Stands bytes position descriptor.encode → ¬Blank bytes position →
      headers.offset? descriptor.name = some offset → TextFault bytes offset cause →
      Fault headers bytes position cause

/-- The first fault of a table of `room` records, with no blank one in front of it. -/
def FirstFault (headers : Headers) (bytes : ByteArray) (start room : Nat) (cause : ReadError) :
    Prop :=
  ∃ index < room, Fault headers bytes (start + 20 * index) cause ∧
    ∀ earlier < index, ∃ item, At headers bytes (start + 20 * earlier) item

/-- So many records follow each other that none of them is blank, and no more do. -/
structure Leading (bytes : ByteArray) (start room count : Nat) : Prop where
  le : count ≤ room
  used : ∀ index < count, ¬Blank bytes (start + 20 * index)
  longest : ∀ other ≤ room, (∀ index < other, ¬Blank bytes (start + 20 * index)) → other ≤ count

-- ---------------------------------------------------------------------------
-- A record
-- ---------------------------------------------------------------------------

variable {headers : Headers}

inductive Found (headers : Headers) (bytes : ByteArray) (position : Nat) :
    Option ImportedModule → Prop
  | blank : Blank bytes position → Found headers bytes position none
  | used {item : ImportedModule} : At headers bytes position item →
      Found headers bytes position (some item)

theorem found_none : Found headers bytes position none ↔ Blank bytes position :=
  ⟨fun | .blank h => h, .blank⟩

theorem found_some {item : ImportedModule} :
    Found headers bytes position (some item) ↔ At headers bytes position item :=
  ⟨fun | .used h => h, .used⟩

def complete (headers : Headers) (descriptor : ImportDescriptor) :
    Reader (Option ImportedModule) := do
  if descriptor.isTerminator then pure none
  else do
    let name ← headers.textAt descriptor.name
    pure (some { descriptor, name })

theorem gives_complete {descriptor : ImportDescriptor}
    (h : Stands bytes position descriptor.encode) :
    (complete headers descriptor).Gives bytes fun found =>
      Found headers bytes position found ∧ ∀ item ∈ found, item.descriptor = descriptor := by
  intro other found
  have ht := ImportDescriptor.isTerminator_iff_blank h
  unfold complete
  split
  next hz =>
    rw [value_pure, Except.ok.injEq]
    constructor
    · rintro rfl
      exact ⟨.blank (ht.mp hz), by simp⟩
    · rintro ⟨_ | hu, -⟩
      · rfl
      · exact absurd (ht.mp hz) hu.used
  next hz =>
    refine (((headers.gives_textAt bytes descriptor.name).bind fun name =>
      .pure (some (ImportedModule.mk descriptor name))) other found).trans ?_
    constructor
    · rintro ⟨name, hn, rfl⟩
      exact ⟨.used ⟨h, mt ht.mpr hz, hn⟩, by simp⟩
    · rintro ⟨hb | hu, hd⟩
      · exact absurd (ht.mpr hb) hz
      · obtain rfl := hd _ rfl
        exact ⟨_, hu.name, rfl⟩

theorem value_complete_error {descriptor : ImportDescriptor} {other : Nat}
    (h : Stands bytes position descriptor.encode) :
    (complete headers descriptor).value bytes other = .error cause ↔
      ¬Blank bytes position ∧
        ∃ offset, headers.offset? descriptor.name = some offset ∧ TextFault bytes offset cause := by
  have ht := ImportDescriptor.isTerminator_iff_blank h
  unfold complete
  split
  next hz => simp [ht.mp hz]
  next hz =>
    rw [Anchored.value_bind_eq_error fun _ => .pure _, Headers.value_textAt_error]
    simp [mt ht.mpr hz]

theorem value_readAt (headers : Headers) (bytes : ByteArray) (start position : Nat) :
    (readAt headers position).value bytes start =
      (ImportDescriptor.read >>= complete headers).value bytes position := rfl

theorem anchored_readAt (headers : Headers) (position : Nat) :
    (readAt headers position).Anchored := .seek_bind _ _

theorem gives_readAt (headers : Headers) (bytes : ByteArray) (position : Nat) :
    (readAt headers position).Gives bytes (Found headers bytes position) := by
  intro start found
  simp only [value_readAt, value_eq_ok, run_bind_ok, ImportDescriptor.run_read_ok]
  constructor
  · rintro ⟨after, descriptor, _, ⟨hs, rfl⟩, hc⟩
    exact ((gives_complete hs _ _).mp (value_eq_ok.mpr ⟨after, hc⟩)).1
  · have hc {descriptor : ImportDescriptor} {found : Option ImportedModule}
        (hs : Stands bytes position descriptor.encode) (hf : Found headers bytes position found)
        (hd : ∀ item ∈ found, item.descriptor = descriptor) :
        ∃ after, (complete headers descriptor).run bytes (position + 20) = .ok (found, after) :=
      value_eq_ok.mp ((gives_complete hs _ _).mpr ⟨hf, hd⟩)
    rintro (hb | hu)
    · have hs : Stands bytes position ImportDescriptor.terminator.encode := hb
      obtain ⟨after, hr⟩ := hc hs (.blank hb) (by simp)
      exact ⟨after, _, _, ⟨hs, rfl⟩, hr⟩
    · obtain ⟨after, hr⟩ := hc hu.descriptor (.used hu) (by simp)
      exact ⟨after, _, _, ⟨hu.descriptor, rfl⟩, hr⟩

theorem value_readAt_error :
    (readAt headers position).value bytes start = .error cause ↔
      Fault headers bytes position cause := by
  rw [value_readAt, value_eq_error, run_bind_error, ImportDescriptor.takes_read.error]
  simp only [ImportDescriptor.run_read_ok, ← value_eq_error]
  constructor
  · rintro (hc | ⟨descriptor, _, ⟨hs, rfl⟩, he⟩)
    · exact .cut hc
    · obtain ⟨hu, offset, ho, ht⟩ := (value_complete_error hs).mp he
      exact .name hs hu ho ht
  · rintro (hc | ⟨hs, hu, ho, ht⟩)
    · exact .inl hc
    · exact .inr ⟨_, _, ⟨hs, rfl⟩, (value_complete_error hs).mpr ⟨hu, _, ho, ht⟩⟩

-- ---------------------------------------------------------------------------
-- The table
-- ---------------------------------------------------------------------------

theorem value_collect_ok {room : Nat} {items : List ImportedModule} :
    (collect room fun index => readAt headers (start + 20 * index)).value bytes position =
        .ok items ↔
      Leading bytes start room items.length ∧
        ∀ (index : Nat) item, items[index]? = some item →
          item.At headers bytes (start + 20 * index) := by
  refine (Gives.collect (fun index => gives_readAt headers bytes (start + 20 * index)) room
    position items).trans ?_
  simp only [found_none, found_some]
  constructor
  · rintro ⟨hl, hu, hb⟩
    refine ⟨⟨hl, fun index hi => (hu index _ (List.getElem?_eq_getElem hi)).used,
      fun other ho hn => Nat.le_of_not_lt fun hlt => ?_⟩, hu⟩
    exact hn _ hlt (hb (Nat.lt_of_lt_of_le hlt ho))
  · rintro ⟨hl, hu⟩
    refine ⟨hl.le, hu, fun hlt => Classical.byContradiction fun hn => ?_⟩
    -- One more record could be taken in.
    refine Nat.not_succ_le_self _ (hl.longest _ hlt fun index hi => ?_)
    rcases Nat.lt_succ_iff_lt_or_eq.mp hi with hi | rfl
    · exact hl.used index hi
    · exact hn

theorem value_collect_error {room : Nat} :
    (collect room fun index => readAt headers (start + 20 * index)).value bytes position =
        .error cause ↔ FirstFault headers bytes start room cause := by
  rw [Anchored.value_collect_eq_error fun index => anchored_readAt headers _]
  simp only [value_readAt_error, (gives_readAt headers bytes _) position _, found_some]
  rfl

/-- A blank record ends the search for faults. -/
theorem firstFault_of_blank {room index : Nat} (hi : index < room)
    (hb : Blank bytes (start + 20 * index)) :
    FirstFault headers bytes start room cause ↔ FirstFault headers bytes start index cause := by
  constructor
  · rintro ⟨place, -, hf, hp⟩
    rcases Nat.lt_trichotomy place index with hlt | rfl | hlt
    · exact ⟨place, hlt, hf, hp⟩
    · have ho := (gives_readAt headers bytes _ 0 none).mpr (.blank hb)
      rw [value_readAt_error.mpr hf] at ho
      contradiction
    · obtain ⟨item, hu⟩ := hp index hlt
      exact absurd hb hu.used
  · rintro ⟨place, hlt, hf, hp⟩
    exact ⟨place, Nat.lt_trans hlt hi, hf, hp⟩

theorem value_readAll (ha : headers.Admits .importTable start) (bytes : ByteArray)
    (position : Nat) :
    (readAll headers).value bytes position =
      (collect ((headers.directory .importTable).size.toNat / 20) fun index =>
        readAt headers (start + 20 * index)).value bytes position := by
  unfold readAll
  rw [value_locate_bind, ha.directoryOffset?]
  rfl

/-- Reading the import table gives the longest run of records that are not blank, with the
names that they lead to, or else the first fault on the way. A blank record ends the table, and
only what is in front of it can be at fault. -/
theorem readAll_meaning (ha : headers.Admits .importTable start) (bytes : ByteArray)
    (position : Nat) :
    (∀ items, (readAll headers).value bytes position = .ok items ↔
      Leading bytes start ((headers.directory .importTable).size.toNat / 20) items.length ∧
        ∀ (index : Nat) item, items[index]? = some item →
          item.At headers bytes (start + 20 * index)) ∧
    (∀ cause, (readAll headers).value bytes position = .error cause ↔
      FirstFault headers bytes start ((headers.directory .importTable).size.toNat / 20) cause) ∧
    ∀ index < (headers.directory .importTable).size.toNat / 20,
      Blank bytes (start + 20 * index) →
        ∀ cause, (readAll headers).value bytes position = .error cause ↔
          FirstFault headers bytes start index cause := by
  rw [value_readAll ha]
  refine ⟨fun items => value_collect_ok, fun cause => value_collect_error,
    fun index hi hb cause => ?_⟩
  rw [value_collect_error, firstFault_of_blank hi hb]

/-- A directory with room for three records and five bytes more, where the bytes start. -/
def threefold : Headers :=
  .ofDirectories [.absent, ⟨0, 65⟩] [⟨.replicate 8 0, 65, 0, 65, 0, 0, 0, 0, 0, ⟨0⟩⟩]

def named : ByteArray :=
  ⟨(([(12, 0), (4, 40), (24, 0), (2, 0x6B)] :
    List (Nat × Nat)).flatMap fun field => LittleEndian.bytes field.1 field.2).toArray⟩

theorem readAll_meaning_named :
    threefold.Admits .importTable 0 ∧ Fault threefold named 40 (.truncated 40 4) ∧
      (readAll threefold).value named 0 = .ok [⟨⟨0, 0, 0, 40, 0⟩, some "k"⟩] := by
  have ha : threefold.Admits .importTable 0 := Headers.directoryOffset?_eq_some.mp rfl
  have hs : Stands named 0 (ImportDescriptor.encode ⟨0, 0, 0, 40, 0⟩) :=
    (ImportDescriptor.run_read_ok.mp rfl).1
  have hz : ImportDescriptor.read.run named 20 = .ok (.terminator, 40) := rfl
  have hb : Blank named 20 := (ImportDescriptor.run_read_ok.mp hz).1
  have hu : ¬Blank named 0 := mt (ImportDescriptor.isTerminator_iff_blank hs).mpr (by decide)
  have hk : threefold.MappedText named 40 (some "k") :=
    .mapped rfl ⟨by decide, rfl, rfl, trivial⟩
  refine ⟨ha, .cut rfl, ((readAll_meaning ha named 0).1 _).mpr ⟨⟨by decide, ?_, ?_⟩, ?_⟩⟩
  · rintro (_ | index) hi
    · exact hu
    · simp at hi
  · intro other ho hn
    exact Nat.le_of_not_lt fun hlt => hn 1 hlt hb
  · rintro (_ | index) item hi
    · cases hi
      exact ⟨hs, hu, hk⟩
    · simp at hi

end ImportedModule

end PeCoff
