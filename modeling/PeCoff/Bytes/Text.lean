import PeCoff.Bytes.Reader
import PeCoff.Text.Utf16

/-!
# Text at a position

NUL-terminated UTF-8, and UTF-16 of a known or a stored number of units. Text
that ends too early is truncated before it is malformed: no encoding is judged
until all its bytes are there.
-/

namespace PeCoff.Reader

theorem run_u8_of_lt {bytes : ByteArray} {position : Nat} (h : position < bytes.size) :
    ∃ byte, u8.run bytes position = .ok (byte, position + 1) := by
  simp only [u8, number, run_bind, exact]
  rw [dif_pos (by omega)]
  exact ⟨_, rfl⟩

theorem run_u8_of_ge {bytes : ByteArray} {position : Nat} (h : bytes.size ≤ position) :
    u8.run bytes position = .error (.truncated position 1) := by
  simp only [u8, number, run_bind, exact]
  rw [dif_neg (by omega)]

theorem position_lt_of_u8 {bytes : ByteArray} {position after : Nat} {byte : UInt8}
    (h : u8.run bytes position = .ok (byte, after)) :
    position < bytes.size ∧ after = position + 1 := by
  by_cases hp : position < bytes.size
  · obtain ⟨other, ho⟩ := run_u8_of_lt hp
    rw [ho] at h
    injection h with h
    exact ⟨hp, (Prod.mk.inj h).2.symm⟩
  · rw [run_u8_of_ge (by omega)] at h
    contradiction

/-- The bytes before the next zero, which is consumed with them. -/
def untilZero : Reader ByteArray :=
  ⟨fun bytes position => go bytes .empty position⟩
where
  go (bytes : ByteArray) (done : ByteArray) (position : Nat) :
      Except ReadError (ByteArray × Nat) :=
    match _h : u8.run bytes position with
    | .error cause => .error cause
    | .ok (byte, after) =>
      if byte = 0 then .ok (done, after) else go bytes (done.push byte) after
  termination_by bytes.size - position
  decreasing_by
    have := position_lt_of_u8 _h
    omega

def terminated : Reader String := do
  match String.fromUTF8? (← untilZero) with
  | some text => pure text
  | none => fail .invalidText

/-- UTF-16 of `count` units. Their bytes are counted in 64 bits, which too many units wrap
around. -/
def utf16 (count : Nat) : Reader String := do
  let data ← bytes (UInt64.ofNat count * 2).toNat
  match Utf16.decode? (LittleEndian.units data.data.toList) with
  | some text => pure text
  | none => fail .invalidText

def counted : Reader String := do
  let count ← u16
  utf16 count.toNat

end PeCoff.Reader
