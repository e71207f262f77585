import PeCoff.Proofs.Bytes.Loops

/-!
# Readers that find their own place

A reader that seeks before it reads gives the same value wherever it starts.
Where it leaves off may still depend on that, so nothing is said of the position
behind it: what follows has to find its own place too.
-/

namespace PeCoff.Reader

/-- The value does not depend on where the reader starts. -/
def Anchored (reader : Reader α) : Prop :=
  ∀ bytes position start, reader.value bytes position = reader.value bytes start

@[simp] theorem value_pure (value : α) (bytes : ByteArray) (position : Nat) :
    (pure value : Reader α).value bytes position = .ok value := rfl

theorem value_eq_ok {reader : Reader α} {bytes : ByteArray} {position : Nat} {value : α} :
    reader.value bytes position = .ok value ↔
      ∃ after, reader.run bytes position = .ok (value, after) := by
  unfold Reader.value
  cases reader.run bytes position with
  | error cause => simp [Except.map]
  | ok result => simp [Except.map, Prod.ext_iff]

theorem value_eq_error {reader : Reader α} {bytes : ByteArray} {position : Nat}
    {cause : ReadError} :
    reader.value bytes position = .error cause ↔ reader.run bytes position = .error cause := by
  unfold Reader.value
  cases reader.run bytes position <;> simp [Except.map]

theorem value_attempt (reader : Reader α) (bytes : ByteArray) (position : Nat) :
    (attempt reader).value bytes position = .ok (reader.value bytes position).toOption := by
  unfold Reader.value
  simp only [attempt]
  cases reader.run bytes position <;> rfl

namespace Anchored

theorem pure (value : α) : Anchored (Pure.pure value : Reader α) :=
  fun _ _ _ => rfl

theorem fail (cause : FormatError) : Anchored (Reader.fail cause : Reader α) :=
  fun _ _ _ => rfl

theorem lift (answer : Except FormatError α) : Anchored (Reader.lift answer) := by
  cases answer with
  | error cause => exact .fail cause
  | ok value => exact .pure value

theorem require (rule : Prop) [Decidable rule] (cause : FormatError) :
    Anchored (Reader.require rule cause) := by
  unfold Reader.require
  split
  · exact .pure ()
  · exact .fail cause

theorem seek_bind (target : Nat) (next : Unit → Reader α) :
    Anchored (Reader.seek target >>= next) :=
  fun _ _ _ => rfl

theorem attempt {reader : Reader α} (h : Anchored reader) : Anchored (Reader.attempt reader) := by
  intro bytes position start
  rw [value_attempt, value_attempt, h bytes position start]

/-- A value followed by readers that find their own place can be had apart from
theirs. -/
theorem value_bind {first : Reader α} {next : α → Reader β} (h : ∀ value, Anchored (next value))
    (bytes : ByteArray) (position start : Nat) :
    (first >>= next).value bytes position =
      first.value bytes position >>= fun value => (next value).value bytes start := by
  simp only [Reader.value, run_bind]
  cases first.run bytes position with
  | error cause => rfl
  | ok result => exact h result.1 bytes result.2 start

theorem bind {first : Reader α} {next : α → Reader β} (hf : Anchored first)
    (hn : ∀ value, Anchored (next value)) : Anchored (first >>= next) := by
  intro bytes position start
  rw [value_bind hn bytes position start, value_bind hn bytes start start,
    hf bytes position start]

theorem value_attempt_bind {first : Reader α} {next : Option α → Reader β}
    (h : ∀ found, Anchored (next found)) (bytes : ByteArray) (position start : Nat) :
    (Reader.attempt first >>= next).value bytes position =
      (next (first.value bytes position).toOption).value bytes start := by
  rw [value_bind h bytes position start, value_attempt]
  rfl

theorem collect {step : Nat → Reader (Option α)} (h : ∀ index, Anchored (step index))
    (limit : Nat) : Anchored (Reader.collect limit step) := by
  induction limit generalizing step with
  | zero => exact .pure []
  | succ limit ih =>
    rw [collect_succ]
    refine .bind (h 0) fun found => ?_
    cases found with
    | none => exact .pure []
    | some value => exact .bind (ih fun index => h (index + 1)) fun values => .pure _

theorem filterMap {read : α → Reader (Option β)} (h : ∀ item, Anchored (read item))
    (items : List α) : Anchored (Reader.filterMap read items) := by
  induction items with
  | nil => exact .pure []
  | cons item rest ih =>
    rw [filterMap_cons]
    exact .bind (h item) fun found => .bind ih fun values => .pure _

theorem mapEach {read : α → Reader β} (h : ∀ item, Anchored (read item)) (items : List α) :
    Anchored (Reader.mapEach read items) := by
  rw [mapEach_eq_filterMap]
  exact filterMap (fun item => .bind (h item) fun _ => .pure _) items

theorem value_bind_eq_error {first : Reader α} {next : α → Reader β} {bytes : ByteArray}
    {position : Nat} {cause : ReadError} (h : ∀ value, Anchored (next value)) :
    (first >>= next).value bytes position = .error cause ↔
      first.value bytes position = .error cause ∨
        ∃ given, first.value bytes position = .ok given ∧
          (next given).value bytes position = .error cause := by
  rw [value_bind h bytes position position]
  cases first.value bytes position with
  | error other =>
    show Except.error other = .error cause ↔ _
    simp
  | ok given =>
    show (next given).value bytes position = .error cause ↔ _
    simp

theorem value_filterMap_eq_error {read : α → Reader (Option β)} {items : List α}
    {bytes : ByteArray} {position : Nat} {cause : ReadError} (h : ∀ item, Anchored (read item)) :
    (Reader.filterMap read items).value bytes position = .error cause ↔
      ∃ (index : Nat) (item : α), items[index]? = some item ∧
        (read item).value bytes position = .error cause ∧
        ∀ earlier < index, ∀ prior, items[earlier]? = some prior →
          ∃ found, (read prior).value bytes position = .ok found := by
  induction items with
  | nil =>
    rw [show Reader.filterMap read [] = Pure.pure [] from rfl, value_pure]
    simp
  | cons item rest ih =>
    have hm (found : Option β) :
        (Reader.filterMap read rest >>= fun values =>
          Pure.pure (found.toList ++ values)).value bytes position = .error cause ↔
        (Reader.filterMap read rest).value bytes position = .error cause := by
      rw [value_bind_eq_error fun _ => .pure _]
      simp
    rw [filterMap_cons, value_bind_eq_error fun found => .bind (filterMap h rest) fun _ => .pure _]
    simp only [hm, ih]
    constructor
    · rintro (he | ⟨found, hf, index, other, hi, he, hp⟩)
      · exact ⟨0, item, rfl, he, fun _ hlt => absurd hlt (Nat.not_lt_zero _)⟩
      · refine ⟨index + 1, other, hi, he, fun earlier hlt prior hg => ?_⟩
        cases earlier with
        | zero =>
          cases hg
          exact ⟨found, hf⟩
        | succ earlier => exact hp earlier (Nat.lt_of_succ_lt_succ hlt) prior hg
    · rintro ⟨_ | index, other, hi, he, hp⟩
      · cases hi
        exact .inl he
      · obtain ⟨found, hf⟩ := hp 0 (Nat.succ_pos index) item rfl
        refine .inr ⟨found, hf, index, other, hi, he, fun earlier hlt prior hg => ?_⟩
        exact hp (earlier + 1) (Nat.succ_lt_succ hlt) prior hg

theorem value_mapEach_eq_error {read : α → Reader β} {items : List α} {bytes : ByteArray}
    {position : Nat} {cause : ReadError} (h : ∀ item, Anchored (read item)) :
    (Reader.mapEach read items).value bytes position = .error cause ↔
      ∃ (index : Nat) (item : α), items[index]? = some item ∧
        (read item).value bytes position = .error cause ∧
        ∀ earlier < index, ∀ prior, items[earlier]? = some prior →
          ∃ value, (read prior).value bytes position = .ok value := by
  have hp (value : β) : (Pure.pure (some value) : Reader (Option β)).Anchored := .pure _
  rw [mapEach_eq_filterMap, value_filterMap_eq_error fun item => .bind (h item) hp]
  have he (item : α) (cause : ReadError) :
      (read item >>= fun value => Pure.pure (some value)).value bytes position = .error cause ↔
        (read item).value bytes position = .error cause := by
    rw [value_bind_eq_error hp]
    simp
  have ho (item : α) :
      (∃ found, (read item >>= fun value => Pure.pure (some value)).value bytes position =
          .ok found) ↔
        ∃ value, (read item).value bytes position = .ok value := by
    rw [value_bind hp bytes position position]
    cases (read item).value bytes position with
    | error cause =>
      show (∃ found, Except.error cause = .ok found) ↔ _
      simp
    | ok value => exact iff_of_true ⟨some value, rfl⟩ ⟨value, rfl⟩
  simp only [he, ho]

theorem value_collect_eq_error {step : Nat → Reader (Option α)} {limit position : Nat}
    {bytes : ByteArray} {cause : ReadError} (h : ∀ index, Anchored (step index)) :
    (Reader.collect limit step).value bytes position = .error cause ↔
      ∃ index < limit, (step index).value bytes position = .error cause ∧
        ∀ earlier < index, ∃ value, (step earlier).value bytes position = .ok (some value) := by
  induction limit generalizing step with
  | zero => simp [show Reader.collect 0 step = Pure.pure [] from rfl]
  | succ limit ih =>
    have hs (index : Nat) : Anchored (step (index + 1)) := h (index + 1)
    have hm (value : α) :
        (Reader.collect limit (fun index => step (index + 1)) >>= fun values =>
          Pure.pure (value :: values)).value bytes position = .error cause ↔
        (Reader.collect limit fun index => step (index + 1)).value bytes position =
          .error cause := by
      rw [value_bind_eq_error fun _ => .pure _]
      simp
    rw [collect_succ]
    refine (value_bind_eq_error fun found => ?_).trans ⟨?_, ?_⟩
    · cases found with
      | none => exact .pure []
      | some value => exact .bind (collect hs limit) fun values => .pure _
    · rintro (he | ⟨_ | value, hf, hr⟩)
      · exact ⟨0, Nat.succ_pos limit, he, fun _ hlt => absurd hlt (Nat.not_lt_zero _)⟩
      · cases hr
      · obtain ⟨index, hi, he, hp⟩ := (ih hs).mp ((hm value).mp hr)
        refine ⟨index + 1, Nat.succ_lt_succ hi, he, fun earlier hlt => ?_⟩
        cases earlier with
        | zero => exact ⟨value, hf⟩
        | succ earlier => exact hp earlier (Nat.lt_of_succ_lt_succ hlt)
    · rintro ⟨_ | index, hi, he, hp⟩
      · exact .inl he
      · obtain ⟨value, hf⟩ := hp 0 (Nat.succ_pos index)
        refine .inr ⟨some value, hf, (hm value).mpr ((ih hs).mpr ?_)⟩
        exact ⟨index, Nat.lt_of_succ_lt_succ hi, he, fun earlier hlt =>
          hp (earlier + 1) (Nat.succ_lt_succ hlt)⟩

end Anchored

end PeCoff.Reader
