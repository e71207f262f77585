/-!
# Little-endian numbers

A number in a fixed count of bytes, least significant first. Reading back what
was written gives the number modulo the width, and writing what was read gives
the bytes.
-/

namespace PeCoff.LittleEndian

def value : List UInt8 → Nat
  | [] => 0
  | byte :: rest => byte.toNat + 256 * value rest

def bytes : (width : Nat) → Nat → List UInt8
  | 0, _ => []
  | width + 1, n => UInt8.ofNat (n % 256) :: bytes width (n / 256)

def capacity : (width : Nat) → Nat
  | 0 => 1
  | width + 1 => 256 * capacity width

/-- The 16-bit units that the bytes hold in pairs. A last byte without a
partner is dropped. -/
def units (data : List UInt8) : List UInt16 :=
  go [] data
where
  go (done : List UInt16) : List UInt8 → List UInt16
    | low :: high :: rest => go (UInt16.ofNat (value [low, high]) :: done) rest
    | _ => done.reverse

@[simp] theorem length_bytes (width n : Nat) : (bytes width n).length = width := by
  induction width generalizing n with
  | zero => rfl
  | succ width ih => simp [bytes, ih]

theorem value_bytes (width n : Nat) : value (bytes width n) = n % capacity width := by
  induction width generalizing n with
  | zero => simp [bytes, value, capacity, Nat.mod_one]
  | succ width ih =>
    rw [bytes, value, ih, capacity, Nat.mod_mul]
    simp

theorem bytes_value (data : List UInt8) : bytes data.length (value data) = data := by
  induction data with
  | nil => rfl
  | cons byte rest ih =>
    have hb : byte.toNat < 256 := byte.toNat_lt
    have hm : (byte.toNat + 256 * value rest) % 256 = byte.toNat := by omega
    have hd : (byte.toNat + 256 * value rest) / 256 = value rest := by omega
    simp [bytes, value, hm, hd, ih]

theorem value_lt (data : List UInt8) : value data < capacity data.length := by
  induction data with
  | nil => simp [value, capacity]
  | cons byte rest ih =>
    have hb : byte.toNat < 256 := byte.toNat_lt
    rw [value, List.length_cons, capacity]
    omega

end PeCoff.LittleEndian
