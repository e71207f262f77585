import PeCoff.Proofs.Bytes.Access

/-!
# Where reading fails

A reader fails at the first of its pieces that fails, all before that having
succeeded. Fields of known widths fail by the first that the bytes end in front
of or within, and a loop by the first of its rounds, so that the failure of a
whole is found without running it.
-/

namespace PeCoff

/-- What is missing of fields of these widths, one behind the other from a position on. -/
def firstCut (bytes : ByteArray) : (position : Nat) → (widths : List Nat) → Option ReadError
  | _, [] => none
  | position, width :: rest =>
    if bytes.size < position + width then some (.truncated position width)
    else firstCut bytes (position + width) rest

def extent : (widths : List Nat) → Nat
  | [] => 0
  | width :: rest => width + extent rest

variable {bytes : ByteArray} {position : Nat}

theorem firstCut_cons {width : Nat} {rest : List Nat} {cause : ReadError} :
    firstCut bytes position (width :: rest) = some cause ↔
      firstCut bytes position [width] = some cause ∨
        firstCut bytes position [width] = none ∧
          firstCut bytes (position + width) rest = some cause := by
  simp only [firstCut]
  split <;> simp

theorem firstCut_of_le {widths : List Nat} (h : position + extent widths ≤ bytes.size) :
    firstCut bytes position widths = none := by
  induction widths generalizing position with
  | nil => rfl
  | cons width rest ih =>
    rw [extent] at h
    rw [firstCut, if_neg (by omega)]
    exact ih (by omega)

namespace Reader

-- ---------------------------------------------------------------------------
-- Pieces
-- ---------------------------------------------------------------------------

theorem run_bind_error {first : Reader α} {next : α → Reader β} {cause : ReadError} :
    (first >>= next).run bytes position = .error cause ↔
      first.run bytes position = .error cause ∨
        ∃ given middle, first.run bytes position = .ok (given, middle) ∧
          (next given).run bytes middle = .error cause := by
  rw [run_bind]
  cases first.run bytes position with
  | error other => simp
  | ok result =>
    simp only [reduceCtorEq, false_or, Except.ok.injEq]
    constructor
    · intro h
      exact ⟨result.1, result.2, rfl, h⟩
    · rintro ⟨given, middle, rfl, h⟩
      exact h

theorem run_require_error {rule : Prop} [Decidable rule] {cause : FormatError}
    {found : ReadError} :
    (require rule cause).run bytes position = .error found ↔ ¬rule ∧ found = .format cause := by
  unfold require
  split
  next h => simp [h]
  next h => simp [h, fail, eq_comm]

theorem run_number_error {width : Nat} {cause : ReadError} :
    (number width).run bytes position = .error cause ↔
      0 < width ∧ bytes.size < position + width ∧ cause = .truncated position width := by
  rw [number, run_bind_error, run_exact_error]
  simp

theorem run_u16_error {cause : ReadError} :
    u16.run bytes position = .error cause ↔
      bytes.size < position + 2 ∧ cause = .truncated position 2 := by
  rw [u16, run_bind_error, run_number_error]
  simp

theorem run_u32_error {cause : ReadError} :
    u32.run bytes position = .error cause ↔
      bytes.size < position + 4 ∧ cause = .truncated position 4 := by
  rw [u32, run_bind_error, run_number_error]
  simp

-- ---------------------------------------------------------------------------
-- Fields
-- ---------------------------------------------------------------------------

/-- The reader takes fields of these widths, whatever they hold. -/
structure Takes (reader : Reader α) (widths : List Nat) : Prop where
  ok : ∀ {bytes position value after}, reader.run bytes position = .ok (value, after) →
    after = position + extent widths
  error : ∀ {bytes position cause}, reader.run bytes position = .error cause ↔
    firstCut bytes position widths = some cause

namespace Takes

theorem pure (value : α) : Takes (Pure.pure value : Reader α) [] where
  ok h := (run_pure_ok.mp h).2
  error := by simp [firstCut]

theorem exact {count : Nat} (h : 0 < count) : Takes (Reader.exact count) [count] where
  ok hr := (run_exact_ok.mp hr).2.1
  error := by
    intro bytes position cause
    rw [run_exact_error, firstCut, firstCut]
    split
    next hs => simp [h, hs, eq_comm]
    next hs => simp [hs]

theorem firstCut_eq_none {reader : Reader α} {widths : List Nat} (h : reader.Takes widths) :
    firstCut bytes position widths = none ↔
      ∃ value after, reader.run bytes position = .ok (value, after) := by
  cases hr : reader.run bytes position with
  | error cause => simp [h.error.mp hr]
  | ok result =>
    have hn (cause : ReadError) : firstCut bytes position widths ≠ some cause := by
      intro hc
      rw [h.error.mpr hc] at hr
      contradiction
    exact iff_of_true (Option.eq_none_iff_forall_ne_some.mpr hn) ⟨result.1, result.2, rfl⟩

theorem bind_error {first : Reader α} {next : α → Reader β} {width : Nat} {cause : ReadError}
    {Rest : Prop} (hf : first.Takes [width])
    (hn : ∀ value, (next value).run bytes (position + width) = .error cause ↔ Rest) :
    (first >>= next).run bytes position = .error cause ↔
      firstCut bytes position [width] = some cause ∨
        firstCut bytes position [width] = none ∧ Rest := by
  rw [run_bind_error, hf.error, hf.firstCut_eq_none]
  refine or_congr_right ⟨?_, ?_⟩
  · rintro ⟨given, middle, hg, he⟩
    obtain rfl := hf.ok hg
    exact ⟨⟨given, _, hg⟩, (hn given).mp he⟩
  · rintro ⟨⟨given, middle, hg⟩, he⟩
    obtain rfl := hf.ok hg
    exact ⟨given, _, hg, (hn given).mpr he⟩

theorem cons {first : Reader α} {next : α → Reader β} {width : Nat} {rest : List Nat}
    (hf : first.Takes [width]) (hn : ∀ value, (next value).Takes rest) :
    Takes (first >>= next) (width :: rest) where
  ok h := by
    obtain ⟨given, middle, hg, hv⟩ := run_bind_ok.mp h
    obtain rfl := hf.ok hg
    rw [(hn given).ok hv, extent, extent, extent, Nat.add_zero, Nat.add_assoc]
  error := by
    intro bytes position cause
    exact (hf.bind_error fun value => (hn value).error).trans firstCut_cons.symm

theorem checked_error {first : Reader α} {rule : α → Prop} [DecidablePred rule]
    {refusal : α → FormatError} {rest : α → Reader β} {width : Nat} {cause : ReadError}
    {Rest : Prop} (hf : first.Takes [width])
    (hr : ∀ value, rule value → ((rest value).run bytes (position + width) = .error cause ↔ Rest)) :
    (do
      let value ← first
      require (rule value) (refusal value)
      rest value).run bytes position = .error cause ↔
      (∃ value after, first.run bytes position = .ok (value, after) ∧ ¬rule value ∧
        cause = .format (refusal value)) ∨
      (∀ value after, first.run bytes position = .ok (value, after) → rule value) ∧
        (firstCut bytes position [width] = some cause ∨
          firstCut bytes position [width] = none ∧ Rest) := by
  rw [run_bind]
  cases hv : first.run bytes position with
  | error other => simp [hf.error.mp hv]
  | ok result =>
    obtain ⟨value, after⟩ := result
    obtain rfl := hf.ok hv
    have hc := hf.firstCut_eq_none.mpr ⟨value, _, hv⟩
    by_cases h : rule value
    · simp [require, h, hc, extent, hr value h]
    · simp [require, h, hc, fail, run_bind, eq_comm]

theorem u16 : Takes Reader.u16 [2] :=
  .cons (.cons (.exact (by decide)) fun _ => .pure _) fun _ => .pure _

theorem u32 : Takes Reader.u32 [4] :=
  .cons (.cons (.exact (by decide)) fun _ => .pure _) fun _ => .pure _

theorem i32 : Takes Reader.i32 [4] := .cons .u32 fun _ => .pure _

end Takes

-- ---------------------------------------------------------------------------
-- Loops
-- ---------------------------------------------------------------------------

theorem run_times_error {reader : Reader α} {At : Nat → α → Prop} {length count : Nat}
    {cause : ReadError}
    (h : ∀ position value after, reader.run bytes position = .ok (value, after) ↔
      At position value ∧ after = position + length) :
    (times count reader).run bytes position = .error cause ↔
      ∃ k < count, reader.run bytes (position + length * k) = .error cause ∧
        ∀ earlier < k, ∃ value, At (position + length * earlier) value := by
  induction count generalizing position with
  | zero => simp [times_zero]
  | succ count ih =>
    have hs (k : Nat) : position + length + length * k = position + length * (k + 1) := by
      rw [Nat.mul_succ, Nat.add_assoc, Nat.add_comm length]
    simp only [times_succ, run_bind_error, run_pure, reduceCtorEq, and_false, exists_false,
      or_false, h, ih]
    constructor
    · rintro (he | ⟨first, _, ⟨hf, rfl⟩, k, hk, he, hp⟩)
      · exact ⟨0, Nat.succ_pos count, he, fun _ hlt => absurd hlt (Nat.not_lt_zero _)⟩
      · rw [hs] at he
        refine ⟨k + 1, Nat.succ_lt_succ hk, he, fun earlier hlt => ?_⟩
        cases earlier with
        | zero => exact ⟨first, hf⟩
        | succ earlier =>
          obtain ⟨value, hv⟩ := hp earlier (Nat.lt_of_succ_lt_succ hlt)
          exact ⟨value, hs earlier ▸ hv⟩
    · rintro ⟨_ | k, hk, he, hp⟩
      · exact .inl he
      · obtain ⟨first, hf⟩ := hp 0 (Nat.succ_pos k)
        refine .inr ⟨first, _, ⟨hf, rfl⟩, k, Nat.lt_of_succ_lt_succ hk, hs k ▸ he,
          fun earlier hlt => ?_⟩
        obtain ⟨value, hv⟩ := hp (earlier + 1) (Nat.succ_lt_succ hlt)
        exact ⟨value, hs earlier ▸ hv⟩

end Reader

end PeCoff
