import PeCoff.Proofs.Bytes.Forward
import PeCoff.Proofs.Bytes.Loops

/-!
# The same reading on a copy

Another byte source repeats the bytes of the first from a cut on, some places
further on, and may hold more behind them. A reader of the first and a reader of
the copy keep step if they do the same at corresponding positions. Then both
succeed, or both meet the same broken rule of the format, or the first runs out
of bytes; and the copy runs out at the same place as long as it holds no more of
the bytes that were asked for.
-/

namespace PeCoff

def ReadError.relocate (shift : Nat) : ReadError → ReadError
  | .format cause => .format cause
  | .truncated position requested => .truncated (position + shift) requested

/-- A byte source and one that repeats it from `cut` on, `shift` places further
on. -/
structure Copy where
  original : ByteArray
  copy : ByteArray
  cut : Nat
  shift : Nat
  agree : Agree original copy shift cut original.size

namespace Copy

variable (c : Copy) {sizes : Nat → Prop}

/-- What the copy answers where the original answers so. Every request that the
original could not meet is of a length in `sizes`. -/
def Follows (sizes : Nat → Prop) (f : α → β) :
    Except ReadError α → Except ReadError β → Prop
  | .ok value, later => later = .ok (f value)
  | .error (.format cause), later => later = .error (.format cause)
  | .error (.truncated start requested), later =>
    sizes requested ∧ c.original.size < start + requested ∧
      (c.copy.size < start + c.shift + requested →
        later = .error (.truncated (start + c.shift) requested))

/-- The two readers keep step at corresponding positions, and do not turn back
behind the cut. -/
def TracksAt (sizes : Nat → Prop) (position : Nat) (f : α → β) (reader : Reader α)
    (reader' : Reader β) : Prop :=
  c.Follows sizes (fun result => (f result.1, result.2 + c.shift))
    (reader.run c.original position) (reader'.run c.copy (position + c.shift)) ∧
  ∀ value after, reader.run c.original position = .ok (value, after) → c.cut ≤ after

def Tracks (sizes : Nat → Prop) (f : α → β) (reader : Reader α) (reader' : Reader β) : Prop :=
  ∀ position, c.cut ≤ position → c.TracksAt sizes position f reader reader'

variable {c}

theorem Follows.bind {f : α → β} {g : γ → δ} {outcome : Except ReadError α}
    {later : Except ReadError β} {next : α → Except ReadError γ} {next' : β → Except ReadError δ}
    (h : c.Follows sizes f outcome later)
    (hn : ∀ value, outcome = .ok value → c.Follows sizes g (next value) (next' (f value))) :
    c.Follows sizes g (outcome >>= next) (later >>= next') := by
  rcases outcome with (cause | ⟨start, requested⟩) | value
  · rw [show later = _ from h]; rfl
  · refine ⟨h.1, h.2.1, fun ho => ?_⟩
    rw [h.2.2 ho]
    rfl
  · rw [show later = _ from h]; exact hn value rfl

theorem Follows.ok {f : α → β} {outcome : Except ReadError α} {later : Except ReadError β}
    {value : α} (h : c.Follows sizes f outcome later) (ho : outcome = .ok value) :
    later = .ok (f value) := by
  subst ho
  exact h

theorem Follows.congr {f g : α → β} {outcome : Except ReadError α} {later : Except ReadError β}
    (h : c.Follows sizes f outcome later) (hf : ∀ value, outcome = .ok value → f value = g value) :
    c.Follows sizes g outcome later := by
  rcases outcome with (cause | ⟨start, requested⟩) | value
  · exact h
  · exact h
  · rw [h.ok rfl, hf value rfl]
    rfl

theorem Follows.eq_relocate {f : α → β} {outcome : Except ReadError α} {later : Except ReadError β}
    (h : c.Follows sizes f outcome later) (hs : c.copy.size = c.original.size + c.shift) :
    later = (outcome.map f).mapError (ReadError.relocate c.shift) := by
  rcases outcome with (cause | ⟨start, requested⟩) | value
  · exact h
  · exact h.2.2 (by rw [hs, Nat.add_right_comm]; exact Nat.add_lt_add_right h.2.1 _)
  · exact h

theorem TracksAt.bind {f : α → β} {g : γ → δ} {position : Nat} {first : Reader α}
    {first' : Reader β} {next : α → Reader γ} {next' : β → Reader δ}
    (hf : c.TracksAt sizes position f first first')
    (hn : ∀ value after, c.cut ≤ after → first.run c.original position = .ok (value, after) →
      c.TracksAt sizes after g (next value) (next' (f value))) :
    c.TracksAt sizes position g (first >>= next) (first' >>= next') := by
  obtain ⟨hs, hc⟩ := hf
  constructor
  · rw [Reader.run_bind_eq, Reader.run_bind_eq]
    exact hs.bind fun result h => (hn result.1 result.2 (hc _ _ h) h).1
  · intro value after h
    rw [Reader.run_bind] at h
    split at h
    next => contradiction
    next middle reached hm => exact (hn middle reached (hc _ _ hm) hm).2 value after h

namespace Tracks

variable {f : α → β} {g : γ → δ}

theorem pure (f : α → β) (value : α) :
    c.Tracks sizes f (Pure.pure value) (Pure.pure (f value)) := by
  intro position hp
  refine ⟨rfl, fun given after h => ?_⟩
  obtain ⟨rfl, rfl⟩ := Prod.mk.inj (Except.ok.inj h)
  exact hp

theorem value {reader : Reader α} {reader' : Reader β} {position : Nat}
    (h : c.Tracks sizes f reader reader') (hp : c.cut ≤ position) :
    c.Follows sizes f (reader.value c.original position)
      (reader'.value c.copy (position + c.shift)) := by
  have hf := (h position hp).1
  unfold Reader.value
  rcases hr : reader.run c.original position with (cause | ⟨start, requested⟩) | result <;>
    rw [hr] at hf
  · rw [show reader'.run c.copy (position + c.shift) = .error (.format cause) from hf]
    rfl
  · refine ⟨hf.1, hf.2.1, fun ho => ?_⟩
    rw [hf.2.2 ho]
    rfl
  · rw [hf.ok rfl]
    rfl

theorem fail (f : α → β) (cause : FormatError) :
    c.Tracks sizes f (Reader.fail cause) (Reader.fail cause) :=
  fun _ _ => ⟨rfl, fun _ _ h => nomatch h⟩

theorem bind {first : Reader α} {first' : Reader β} {next : α → Reader γ} {next' : β → Reader δ}
    (hf : c.Tracks sizes f first first')
    (hn : ∀ value, c.Tracks sizes g (next value) (next' (f value))) :
    c.Tracks sizes g (first >>= next) (first' >>= next') :=
  fun position hp => (hf position hp).bind fun value after ha _ => hn value after ha

theorem lift_bind {answer : Except FormatError α} {next : α → Reader γ} {next' : β → Reader δ}
    (h : ∀ value, answer = .ok value → c.Tracks sizes g (next value) (next' (f value))) :
    c.Tracks sizes g (Reader.lift answer >>= next) (Reader.lift (answer.map f) >>= next') := by
  cases answer with
  | error cause => exact .fail g cause
  | ok value => exact h value rfl

theorem seek {start : Nat} (hs : c.cut ≤ start) :
    c.Tracks sizes (id) (Reader.seek start) (Reader.seek (start + c.shift)) := by
  intro position hp
  refine ⟨rfl, fun given after h => ?_⟩
  obtain ⟨rfl, rfl⟩ := Prod.mk.inj (Except.ok.inj h)
  exact hs

theorem require (rule : Prop) [Decidable rule] (cause : FormatError) :
    c.Tracks sizes (id) (Reader.require rule cause) (Reader.require rule cause) := by
  unfold Reader.require
  split
  · exact .pure _ ()
  · exact .fail _ cause

theorem fold {step : σ → α → Reader σ} {step' : τ → α → Reader τ} {f : σ → τ}
    (h : ∀ state item, c.Tracks sizes f (step state item) (step' (f state) item))
    (state : σ) (items : List α) :
    c.Tracks sizes f (Reader.fold step state items) (Reader.fold step' (f state) items) := by
  induction items generalizing state with
  | nil => exact .pure f state
  | cons item rest ih =>
    rw [Reader.fold_cons, Reader.fold_cons]
    exact .bind (h state item) ih

theorem mapEach {read read' : α → Reader γ} {items : List α}
    (h : ∀ item ∈ items, c.Tracks sizes id (read item) (read' item)) :
    c.Tracks sizes id (Reader.mapEach read items) (Reader.mapEach read' items) := by
  induction items with
  | nil => exact .pure id []
  | cons item rest ih =>
    rw [Reader.mapEach_cons, Reader.mapEach_cons]
    refine .bind (h item (by simp)) fun value => ?_
    refine .bind (ih fun other ho => h other (by simp [ho])) fun values => ?_
    exact .pure id (value :: values)

theorem filterMap {read : α → Reader (Option γ)} {read' : α → Reader (Option γ)}
    (h : ∀ item, c.Tracks sizes id (read item) (read' item)) (items : List α) :
    c.Tracks sizes id (Reader.filterMap read items) (Reader.filterMap read' items) := by
  induction items with
  | nil => exact .pure id []
  | cons item rest ih =>
    rw [Reader.filterMap_cons, Reader.filterMap_cons]
    exact .bind (h item) fun found => .bind ih fun values => .pure id (found.toList ++ values)

theorem collect {step step' : Nat → Reader (Option γ)}
    (h : ∀ index, c.Tracks sizes id (step index) (step' index)) (limit : Nat) :
    c.Tracks sizes id (Reader.collect limit step) (Reader.collect limit step') := by
  induction limit generalizing step step' with
  | zero => exact .pure id []
  | succ limit ih =>
    rw [Reader.collect_succ, Reader.collect_succ]
    refine .bind (h 0) fun found => ?_
    cases found with
    | none => exact .pure id []
    | some value =>
      exact .bind (ih fun index => h (index + 1)) fun values => .pure id (value :: values)

end Tracks

-- ---------------------------------------------------------------------------
-- Forward readers
-- ---------------------------------------------------------------------------

theorem untilZero_go_error {done : ByteArray} {position : Nat} {cause : ReadError}
    (hr : Reader.untilZero.go c.original done position = .error cause) (hp : c.cut ≤ position) :
    ∃ start, c.original.size ≤ start ∧ cause = .truncated start 1 ∧
      (c.copy.size ≤ start + c.shift →
        Reader.untilZero.go c.copy done (position + c.shift) =
          .error (.truncated (start + c.shift) 1)) := by
  fun_induction Reader.untilZero.go c.original done position with
  | case1 done position found hu =>
    obtain ⟨hs, rfl⟩ := Reader.run_u8_error hu
    refine ⟨position, hs, (Except.error.inj hr).symm, fun ho => ?_⟩
    rw [Reader.untilZero_go_eq, Reader.run_u8_of_ge ho]
  | case2 done position stop hu => contradiction
  | case3 done position byte stop hu hz ih =>
    obtain ⟨hs, rfl⟩ := Reader.position_lt_of_u8 hu
    obtain ⟨start, hb, rfl, hc⟩ := ih hr (by omega)
    refine ⟨start, hb, rfl, fun ho => ?_⟩
    rw [Reader.untilZero_go_eq, Reader.run_u8_copied hu (c.agree.mono hp (by omega))]
    simp only [if_neg hz]
    exact hc ho

/-- A forward reader that succeeds does so on the copy. What is left to show of
it are its failures. -/
theorem tracks_of_error {reader : Reader α} (hf : reader.Forward sizes)
    (h : ∀ position cause, c.cut ≤ position → reader.run c.original position = .error cause →
      c.Follows sizes (fun result : α × Nat => (result.1, result.2 + c.shift)) (.error cause)
        (reader.run c.copy (position + c.shift))) :
    c.Tracks sizes id reader reader := by
  intro position hp
  unfold TracksAt
  cases hr : reader.run c.original position with
  | error cause => exact ⟨h position cause hp hr, fun _ _ hn => nomatch hn⟩
  | ok result =>
    obtain ⟨value, after⟩ := result
    obtain ⟨hl, hs, hc⟩ := hf.run_ok hr
    refine ⟨hc (c.agree.mono hp (by omega)), fun given stop hg => ?_⟩
    obtain ⟨-, rfl⟩ := Prod.mk.inj (Except.ok.inj hg)
    omega

theorem tracks_of_forward {reader : Reader α} (hf : reader.Forward sizes) :
    c.Tracks sizes id reader reader := by
  induction hf with
  | pure value => exact .pure id value
  | fail cause => exact .fail id cause
  | exact h =>
    refine tracks_of_error (.exact h) fun position cause hp hr => ?_
    obtain ⟨hl, hb, rfl⟩ := Reader.run_exact_error.mp hr
    exact ⟨h, hb, fun ho => Reader.run_exact_error.mpr ⟨hl, by omega, rfl⟩⟩
  | bytes h =>
    refine tracks_of_error (.bytes h) fun position cause hp hr => ?_
    rw [Reader.run_bytes] at hr
    split at hr
    next => contradiction
    next hb =>
      cases hr
      refine ⟨h, by omega, fun ho => ?_⟩
      rw [Reader.run_bytes, if_neg (by omega)]
  | untilZero h =>
    refine tracks_of_error (.untilZero h) fun position cause hp hr => ?_
    obtain ⟨start, hb, rfl, hc⟩ := untilZero_go_error hr hp
    exact ⟨h, by omega, fun ho => hc (by omega)⟩
  | bind _ _ ihf ihn => exact .bind ihf ihn

end Copy

end PeCoff
