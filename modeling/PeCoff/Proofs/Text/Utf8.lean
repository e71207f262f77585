import PeCoff.Proofs.Text.Utf16
import PeCoff.Text.Utf8

/-!
# Well-formed UTF-8

Bytes are well formed if they are sequences one behind the other, each with as
many bytes as its first one says, none longer than its number needs, and none of
a number that is no character's. `codes_iff`: what a text is stored as are the
bytes with the numbers of its characters, so that bytes are a text exactly if
they are well formed.
-/

namespace PeCoff.Utf8

/-- The form of a sequence and the number whose bits it has, six in each byte behind the
first. -/
inductive Form : List UInt8 → Nat → Prop
  | one {a : UInt8} {code : Nat} : a.toNat < 0x80 → code = a.toNat → Form [a] code
  | two {a b : UInt8} {code : Nat} : 0xC0 ≤ a.toNat → a.toNat < 0xE0 → isContinuation b →
      code = (a.toNat - 0xC0) * 64 + (b.toNat - 0x80) → Form [a, b] code
  | three {a b c : UInt8} {code : Nat} : 0xE0 ≤ a.toNat → a.toNat < 0xF0 → isContinuation b →
      isContinuation c →
      code = ((a.toNat - 0xE0) * 64 + (b.toNat - 0x80)) * 64 + (c.toNat - 0x80) →
      Form [a, b, c] code
  | four {a b c d : UInt8} {code : Nat} : 0xF0 ≤ a.toNat → a.toNat < 0xF8 → isContinuation b →
      isContinuation c → isContinuation d →
      code = (((a.toNat - 0xF0) * 64 + (b.toNat - 0x80)) * 64 + (c.toNat - 0x80)) * 64 +
        (d.toNat - 0x80) → Form [a, b, c, d] code

def least : (length : Nat) → Nat
  | 2 => 0x80
  | 3 => 0x800
  | 4 => 0x10000
  | _ => 0

/-- A sequence that is allowed: not overlong, of no surrogate and of no number beyond the
characters. -/
structure Sequence (data : List UInt8) (code : Nat) : Prop where
  form : Form data code
  shortest : least data.length ≤ code
  scalar : code < 0xD800 ∨ 0xDFFF < code
  bounded : code ≤ 0x10FFFF

inductive Codes : List UInt8 → List Nat → Prop
  | nil : Codes [] []
  | cons {first rest : List UInt8} {code : Nat} {codes : List Nat} : Sequence first code →
      Codes rest codes → Codes (first ++ rest) (code :: codes)

def WellFormed (data : List UInt8) : Prop := ∃ codes, Codes data codes

theorem isContinuation_iff {byte : UInt8} :
    isContinuation byte = true ↔ 0x80 ≤ byte.toNat ∧ byte.toNat < 0xC0 := by
  simp only [isContinuation, Bool.and_eq_true, decide_eq_true_eq, UInt8.le_iff_toNat_le]
  exact and_congr_right fun _ => Nat.lt_succ_iff.symm

-- ---------------------------------------------------------------------------
-- One character
-- ---------------------------------------------------------------------------

theorem toNat_ofNat {n : Nat} (h : n < 256) : (UInt8.ofNat n).toNat = n :=
  UInt8.toNat_ofNat_of_lt' h

theorem isContinuation_ofNat (n : Nat) : isContinuation (UInt8.ofNat (n % 64 + 0x80)) := by
  rw [isContinuation_iff, toNat_ofNat (by omega)]
  omega

theorem sequence_encode (c : Char) : Sequence (String.utf8EncodeChar c) c.toNat := by
  have hv := c.valid
  simp only [UInt32.isValidChar, Nat.isValidChar, Char.toNat_val] at hv
  have hs : c.toNat < 0xD800 ∨ 0xDFFF < c.toNat := by omega
  have hb : c.toNat ≤ 0x10FFFF := by omega
  unfold String.utf8EncodeChar
  simp only [Char.toNat_val]
  split
  next h₁ =>
    refine ⟨.one ?_ ?_, Nat.zero_le _, hs, hb⟩ <;> rw [toNat_ofNat (by omega)]
    omega
  next h₁ =>
  split
  next h₂ =>
    refine ⟨.two ?_ ?_ (isContinuation_ofNat _) ?_, Nat.lt_of_not_le h₁, hs, hb⟩ <;>
      rw [toNat_ofNat (by omega)]
    · omega
    · omega
    · rw [toNat_ofNat (by omega)]
      omega
  next h₂ =>
  split
  next h₃ =>
    refine ⟨.three ?_ ?_ (isContinuation_ofNat _) (isContinuation_ofNat _) ?_,
      Nat.lt_of_not_le h₂, hs, hb⟩ <;> rw [toNat_ofNat (by omega)]
    · omega
    · omega
    · rw [toNat_ofNat (by omega), toNat_ofNat (by omega)]
      omega
  next h₃ =>
    refine ⟨.four ?_ ?_ (isContinuation_ofNat _) (isContinuation_ofNat _)
      (isContinuation_ofNat _) ?_, Nat.lt_of_not_le h₃, hs, hb⟩ <;> rw [toNat_ofNat (by omega)]
    · omega
    · omega
    · rw [toNat_ofNat (by omega), toNat_ofNat (by omega), toNat_ofNat (by omega)]
      omega

theorem Sequence.eq_encode {data : List UInt8} {code : Nat} (h : Sequence data code) :
    ∃ c : Char, c.toNat = code ∧ String.utf8EncodeChar c = data := by
  obtain ⟨hf, hl, hs, hb⟩ := h
  have hv : code.isValidChar := by
    unfold Nat.isValidChar
    omega
  have hc : (Char.ofNat code).toNat = code := Utf16.toNat_ofNat hv
  have he {n : Nat} {byte : UInt8} (h : n = byte.toNat) : UInt8.ofNat n = byte := by
    rw [h, UInt8.ofNat_toNat]
  refine ⟨Char.ofNat code, hc, ?_⟩
  unfold String.utf8EncodeChar
  simp only [Char.toNat_val, hc]
  cases hf with
  | one ha hn =>
    rw [if_pos (by omega), he hn]
  | two ha ha' hb hn =>
    rw [isContinuation_iff] at hb
    have hl : 0x80 ≤ code := hl
    rw [if_neg (by omega), if_pos (by omega)]
    simp only [List.cons.injEq, and_true]
    exact ⟨he (by omega), he (by omega)⟩
  | three ha ha' hb hc hn =>
    rw [isContinuation_iff] at hb hc
    have hl : 0x800 ≤ code := hl
    rw [if_neg (by omega), if_neg (by omega), if_pos (by omega)]
    simp only [List.cons.injEq, and_true]
    exact ⟨he (by omega), he (by omega), he (by omega)⟩
  | four ha ha' hb hc hd hn =>
    rw [isContinuation_iff] at hb hc hd
    have hl : 0x10000 ≤ code := hl
    rw [if_neg (by omega), if_neg (by omega), if_neg (by omega)]
    simp only [List.cons.injEq, and_true]
    exact ⟨he (by omega), he (by omega), he (by omega), he (by omega)⟩

-- ---------------------------------------------------------------------------
-- Texts
-- ---------------------------------------------------------------------------

theorem codes_flatMap (chars : List Char) :
    Codes (chars.flatMap String.utf8EncodeChar) (chars.map Char.toNat) := by
  induction chars with
  | nil => exact .nil
  | cons c rest ih =>
    rw [List.flatMap_cons, List.map_cons]
    exact .cons (sequence_encode c) ih

theorem Codes.exists_chars {data : List UInt8} {codes : List Nat} (h : Codes data codes) :
    ∃ chars : List Char, chars.map Char.toNat = codes ∧
      chars.flatMap String.utf8EncodeChar = data := by
  induction h with
  | nil => exact ⟨[], rfl, rfl⟩
  | cons hs _ ih =>
    obtain ⟨chars, rfl, rfl⟩ := ih
    obtain ⟨c, rfl, rfl⟩ := hs.eq_encode
    exact ⟨c :: chars, List.map_cons, List.flatMap_cons⟩

theorem toList_toByteArray (text : String) :
    text.toByteArray.data.toList = text.toList.flatMap String.utf8EncodeChar := by
  rw [← String.utf8Encode_toList]
  exact List.toList_data_toByteArray

/-- A text is stored as the bytes of the numbers of its characters, and as no other. -/
theorem codes_iff {data : List UInt8} {text : String} :
    Codes data (text.toList.map Char.toNat) ↔ text.toByteArray.data.toList = data := by
  rw [toList_toByteArray]
  constructor
  · intro h
    obtain ⟨chars, hc, rfl⟩ := h.exists_chars
    rw [(List.map_inj_right fun _ _ h => Char.toNat_inj.mp h).mp hc]
  · rintro rfl
    exact codes_flatMap _

theorem wellFormed_iff {data : List UInt8} :
    WellFormed data ↔ ∃ text : String, text.toByteArray.data.toList = data := by
  constructor
  · rintro ⟨codes, h⟩
    obtain ⟨chars, -, rfl⟩ := h.exists_chars
    refine ⟨String.ofList chars, ?_⟩
    rw [toList_toByteArray, String.toList_ofList]
  · rintro ⟨text, h⟩
    exact ⟨_, codes_iff.mpr h⟩

-- ---------------------------------------------------------------------------
-- Zero
-- ---------------------------------------------------------------------------

theorem Sequence.zero_mem_iff {data : List UInt8} {code : Nat} (h : Sequence data code) :
    0 ∈ data ↔ code = 0 := by
  obtain ⟨hf, hl, -, -⟩ := h
  have hz {byte : UInt8} (h : 0x80 ≤ byte.toNat) : 0 ≠ byte := by
    rintro rfl
    contradiction
  have hc {byte : UInt8} (h : isContinuation byte) : 0 ≠ byte := hz (isContinuation_iff.mp h).1
  cases hf with
  | one ha hn =>
    rw [List.mem_singleton, hn, eq_comm, ← UInt8.toNat_inj]
    rfl
  | two ha _ hb =>
    have hl : 0x80 ≤ code := hl
    simp only [List.mem_cons, hz (Nat.le_trans (by decide) ha), hc hb, List.not_mem_nil, or_self,
      false_iff]
    omega
  | three ha _ hb hc' =>
    have hl : 0x800 ≤ code := hl
    simp only [List.mem_cons, hz (Nat.le_trans (by decide) ha), hc hb, hc hc', List.not_mem_nil,
      or_self, false_iff]
    omega
  | four ha _ hb hc' hd =>
    have hl : 0x10000 ≤ code := hl
    simp only [List.mem_cons, hz (Nat.le_trans (by decide) ha), hc hb, hc hc', hc hd,
      List.not_mem_nil, or_self, false_iff]
    omega

theorem zero_mem_toByteArray {text : String} :
    0 ∈ text.toByteArray.data.toList ↔ '\x00' ∈ text.toList := by
  simp only [toList_toByteArray, List.mem_flatMap, (sequence_encode _).zero_mem_iff]
  constructor
  · rintro ⟨c, hc, hz⟩
    obtain rfl : c = '\x00' := Char.toNat_inj.mp hz
    exact hc
  · exact fun h => ⟨'\x00', h, rfl⟩

end PeCoff.Utf8
