import PeCoff.Bytes.Text
import PeCoff.Proofs.Bytes.Loops

/-!
# Readers that go forward

Most readers take one piece of the bytes after the other and never turn back.
What such a reader gives depends on nothing but the bytes between where it
starts and where it ends, and it gives the same wherever else these bytes stand.
Readers that seek are not among them.
-/

namespace PeCoff

/-- The bytes from `first` up to `past` stand in `other` too, `shift` places
further on. -/
def Agree (bytes other : ByteArray) (shift first past : Nat) : Prop :=
  ∀ i, first ≤ i → i < past → other[i + shift]? = bytes[i]?

namespace Agree

variable {bytes other : ByteArray} {shift first past : Nat}

theorem mono (h : Agree bytes other shift first past) (hf : first ≤ start)
    (hp : stop ≤ max start past) : Agree bytes other shift start stop :=
  fun i hi hs => h i (by omega) (by omega)

theorem add_shift_le (h : Agree bytes other shift first past) (hl : first < past)
    (hb : past ≤ bytes.size) : past + shift ≤ other.size := by
  have hi := h (past - 1) (by omega) (by omega)
  rw [getElem?_pos bytes _ (by omega)] at hi
  have := (getElem?_eq_some_iff.mp hi).1
  omega

theorem extract_eq {count : Nat} (h : Agree bytes other shift first (first + count))
    (hb : first + count ≤ bytes.size) (ho : first + shift + count ≤ other.size) :
    other.extract (first + shift) (first + shift + count) =
      bytes.extract first (first + count) := by
  rw [ByteArray.extract_eq_extract_iff_getElem ho hb]
  intro i hi
  have ha := h (first + i) (by omega) (by omega)
  rw [getElem?_pos other _ (by omega), getElem?_pos bytes _ (by omega)] at ha
  have he : first + i + shift = first + shift + i := by omega
  simpa only [he, Option.some.injEq] using ha

end Agree

namespace Reader

variable {bytes other : ByteArray} {position after shift count : Nat}

-- ---------------------------------------------------------------------------
-- Fixed runs of bytes
-- ---------------------------------------------------------------------------

theorem run_exact_ok {data : Vector UInt8 count} :
    (exact count).run bytes position = .ok (data, after) ↔
      (count = 0 ∨ position + count ≤ bytes.size) ∧ after = position + count ∧
        (bytes.extract position (position + count)).data = data.toArray := by
  simp only [exact]
  split
  next h =>
    simp only [Except.ok.injEq, Prod.mk.injEq]
    constructor
    · rintro ⟨rfl, rfl⟩; exact ⟨h, rfl, rfl⟩
    · rintro ⟨-, rfl, hd⟩; exact ⟨Vector.toArray_inj.mp hd, rfl⟩
  next h => simp [h]

theorem run_exact_error {cause : ReadError} :
    (exact count).run bytes position = .error cause ↔
      0 < count ∧ bytes.size < position + count ∧ cause = .truncated position count := by
  simp only [exact]
  split
  next h =>
    simp only [reduceCtorEq, false_iff]
    omega
  next h =>
    have hc : 0 < count ∧ bytes.size < position + count := by omega
    simp only [Except.error.injEq, hc, true_and]
    exact eq_comm

theorem run_bytes :
    (Reader.bytes count).run bytes position =
      if count = 0 ∨ position + count ≤ bytes.size then
        .ok (bytes.extract position (position + count), position + count)
      else .error (.truncated position count) := by
  simp only [Reader.bytes, upTo, ByteArray.size_extract]
  by_cases h : count = 0 ∨ position + count ≤ bytes.size
  · have hc : min count (bytes.size - position) = count := by omega
    rw [if_pos h, if_neg (by omega), hc]
  · rw [if_neg h, if_pos (by omega)]

theorem window_copied (h : Agree bytes other shift position (position + count))
    (hb : count = 0 ∨ position + count ≤ bytes.size) :
    (count = 0 ∨ position + shift + count ≤ other.size) ∧
      other.extract (position + shift) (position + shift + count) =
        bytes.extract position (position + count) := by
  rcases Nat.eq_zero_or_pos count with rfl | hc
  · simp
  · have ho := h.add_shift_le (by omega) (by omega)
    exact ⟨.inr (by omega), h.extract_eq (by omega) (by omega)⟩

-- ---------------------------------------------------------------------------
-- Text up to a zero
-- ---------------------------------------------------------------------------

theorem run_u8_copied {byte : UInt8} (hr : u8.run bytes position = .ok (byte, after))
    (ha : Agree bytes other shift position after) :
    u8.run other (position + shift) = .ok (byte, after + shift) := by
  obtain ⟨hp, rfl⟩ := position_lt_of_u8 hr
  have ho := ha.add_shift_le (by omega) (by omega)
  obtain ⟨-, he⟩ := window_copied ha (.inr (by omega))
  simp only [u8, number, run_bind, exact] at hr ⊢
  rw [dif_pos (by omega)] at hr ⊢
  simp only [he, run_pure, Except.ok.injEq, Prod.mk.injEq] at hr ⊢
  exact ⟨hr.1, by omega⟩

theorem run_u8_error {cause : ReadError} (hr : u8.run bytes position = .error cause) :
    bytes.size ≤ position ∧ cause = .truncated position 1 := by
  by_cases hp : position < bytes.size
  · obtain ⟨byte, hb⟩ := run_u8_of_lt hp
    rw [hb] at hr
    contradiction
  · rw [run_u8_of_ge (by omega)] at hr
    exact ⟨by omega, (Except.error.inj hr).symm⟩

theorem untilZero_go_eq (bytes done : ByteArray) (position : Nat) :
    untilZero.go bytes done position =
      match u8.run bytes position with
      | .error cause => .error cause
      | .ok (byte, after) =>
        if byte = 0 then .ok (done, after) else untilZero.go bytes (done.push byte) after := by
  rw [untilZero.go]
  split <;> simp only [*]

theorem untilZero_go_ok {done data : ByteArray}
    (hr : untilZero.go bytes done position = .ok (data, after)) :
    position ≤ after ∧ after ≤ bytes.size ∧
      ∀ {other shift}, Agree bytes other shift position after →
        untilZero.go other done (position + shift) = .ok (data, after + shift) := by
  fun_induction untilZero.go bytes done position with
  | case1 done position cause hu => contradiction
  | case2 done position stop hu =>
    obtain ⟨rfl, rfl⟩ := Prod.mk.inj (Except.ok.inj hr)
    obtain ⟨hp, rfl⟩ := position_lt_of_u8 hu
    refine ⟨by omega, by omega, fun ha => ?_⟩
    rw [untilZero_go_eq, run_u8_copied hu ha]
    rfl
  | case3 done position byte stop hu hz ih =>
    obtain ⟨hp, rfl⟩ := position_lt_of_u8 hu
    obtain ⟨hl, hs, hc⟩ := ih hr
    refine ⟨by omega, hs, fun ha => ?_⟩
    rw [untilZero_go_eq, run_u8_copied hu (ha.mono (by omega) (by omega))]
    simp only [if_neg hz]
    exact hc (ha.mono (by omega) (by omega))

-- ---------------------------------------------------------------------------
-- Forward readers
-- ---------------------------------------------------------------------------

/-- A reader made of pieces that are read in order. `sizes` holds the lengths
that it asks for. -/
inductive Forward (sizes : Nat → Prop) : {α : Type} → Reader α → Prop
  | pure (value : α) : Forward sizes (Pure.pure value : Reader α)
  | fail (cause : FormatError) : Forward sizes (Reader.fail cause : Reader α)
  | exact {length : Nat} : sizes length → Forward sizes (Reader.exact length)
  | bytes {length : Nat} : sizes length → Forward sizes (Reader.bytes length)
  | untilZero : sizes 1 → Forward sizes Reader.untilZero
  | bind {first : Reader α} {next : α → Reader β} : Forward sizes first →
      (∀ value, Forward sizes (next value)) → Forward sizes (first >>= next)

namespace Forward

variable {sizes : Nat → Prop} {reader : Reader α}

theorem mono {more : Nat → Prop} (hf : Forward sizes reader) (hs : ∀ n, sizes n → more n) :
    Forward more reader := by
  induction hf with
  | pure value => exact .pure value
  | fail cause => exact .fail cause
  | exact h => exact .exact (hs _ h)
  | bytes h => exact .bytes (hs _ h)
  | untilZero h => exact .untilZero (hs _ h)
  | bind _ _ ihf ihn => exact .bind ihf ihn

theorem any (hf : Forward sizes reader) : Forward (fun _ => True) reader :=
  hf.mono fun _ _ => trivial

theorem require (rule : Prop) [Decidable rule] (cause : FormatError) :
    Forward sizes (Reader.require rule cause) := by
  unfold Reader.require
  split
  · exact .pure ()
  · exact .fail cause

theorem times (hf : Forward sizes reader) (count : Nat) :
    Forward sizes (Reader.times count reader) := by
  induction count with
  | zero => exact .pure []
  | succ count ih =>
    rw [times_succ]
    exact .bind hf fun value => .bind ih fun values => .pure (value :: values)

/-- A success reads on, within the bytes, and depends on what it read alone. -/
theorem run_ok {value : α} (hf : Forward sizes reader)
    (hr : reader.run bytes position = .ok (value, after)) :
    position ≤ after ∧ after ≤ max position bytes.size ∧
      ∀ {other shift}, Agree bytes other shift position after →
        reader.run other (position + shift) = .ok (value, after + shift) := by
  induction hf generalizing position after with
  | pure given =>
    obtain ⟨rfl, rfl⟩ := Prod.mk.inj (Except.ok.inj hr)
    exact ⟨by omega, by omega, fun _ => rfl⟩
  | fail cause => contradiction
  | exact h =>
    obtain ⟨hb, rfl, hd⟩ := run_exact_ok.mp hr
    refine ⟨by omega, by omega, fun ha => ?_⟩
    obtain ⟨ho, he⟩ := window_copied ha hb
    exact run_exact_ok.mpr ⟨ho, by omega, by rw [he, hd]⟩
  | bytes h =>
    rw [run_bytes] at hr
    split at hr
    next hb =>
      obtain ⟨rfl, rfl⟩ := Prod.mk.inj (Except.ok.inj hr)
      refine ⟨by omega, by omega, fun ha => ?_⟩
      obtain ⟨ho, he⟩ := window_copied ha hb
      rw [run_bytes, if_pos ho, he, Nat.add_right_comm]
    next => contradiction
  | untilZero h =>
    obtain ⟨hl, hs, hc⟩ := untilZero_go_ok hr
    exact ⟨hl, by omega, hc⟩
  | bind hf hn ihf ihn =>
    rename_i first next
    rw [run_bind] at hr
    split at hr
    next => contradiction
    next middle reached hm =>
      obtain ⟨hl, hs, hc⟩ := ihf hm
      obtain ⟨hl', hs', hc'⟩ := ihn middle hr
      -- The bytes of both pieces are agreed on, and the second follows the first in either.
      refine ⟨by omega, by omega, fun ha => ?_⟩
      rw [run_bind, hc (ha.mono (by omega) (by omega))]
      exact hc' (ha.mono hl (by omega))

end Forward

end Reader

end PeCoff
