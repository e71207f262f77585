import Mathlib.Data.List.Forall2
import Mathlib.Data.List.Induction
import Mathlib.Data.Nat.Digits.Defs
import PeCoff.Proofs.Text.Numeral

/-!
# What digits spell

A text spells a number if its characters are digits of a radix and the digits
have the number as their value. Letters count in either case and zeros in front
do not count: a number is spelled in many ways, and a text spells one number at
most. A numeral spells the number it is of.
-/

namespace PeCoff

/-- The character is the digit of that value, a letter in either case. -/
def IsDigit (radix : Nat) (c : Char) (digit : Nat) : Prop :=
  digit < radix ∧ (c = Nat.digitChar digit ∨ c = (Nat.digitChar digit).toUpper)

/-- The characters are digits of that value, the last one of the least weight. No
characters spell zero. -/
def Spells (radix : Nat) (text : List Char) (n : Nat) : Prop :=
  ∃ digits, List.Forall₂ (IsDigit radix) text.reverse digits ∧ Nat.ofDigits radix digits = n

variable {radix n : Nat} {text front rest : List Char} {c : Char}

theorem IsDigit.unique (hl : radix ≤ 16) {digit other : Nat} (hd : IsDigit radix c digit)
    (ho : IsDigit radix c other) : digit = other := by
  have hu : ∀ a < 16, ∀ b < 16,
      (Nat.digitChar a = Nat.digitChar b ∨ Nat.digitChar a = (Nat.digitChar b).toUpper ∨
        (Nat.digitChar a).toUpper = (Nat.digitChar b).toUpper) → a = b := by decide
  obtain ⟨hr, hc⟩ := hd
  obtain ⟨hs, he⟩ := ho
  have ha := Nat.lt_of_lt_of_le hr hl
  have hb := Nat.lt_of_lt_of_le hs hl
  rcases hc with rfl | rfl <;> rcases he with he | he
  · exact hu digit ha other hb (.inl he)
  · exact hu digit ha other hb (.inr (.inl he))
  · exact (hu other hb digit ha (.inr (.inl he.symm))).symm
  · exact hu digit ha other hb (.inr (.inr he))

theorem IsDigit.toUpper (hl : radix ≤ 16) {digit : Nat} (h : IsDigit radix c digit) :
    IsDigit radix c.toUpper digit := by
  have hu : ∀ a < 16, (Nat.digitChar a).toUpper.toUpper = (Nat.digitChar a).toUpper := by decide
  obtain ⟨hr, rfl | rfl⟩ := h
  · exact ⟨hr, .inr rfl⟩
  · exact ⟨hr, .inr (hu digit (Nat.lt_of_lt_of_le hr hl))⟩

-- ---------------------------------------------------------------------------
-- One more digit
-- ---------------------------------------------------------------------------

theorem spells_nil : Spells radix [] n ↔ n = 0 := by
  constructor
  · rintro ⟨digits, ⟨⟩, rfl⟩
    rfl
  · rintro rfl
    exact ⟨[], .nil, rfl⟩

theorem spells_snoc :
    Spells radix (front ++ [c]) n ↔
      ∃ before digit, Spells radix front before ∧ IsDigit radix c digit ∧
        n = before * radix + digit := by
  simp only [Spells, List.reverse_append, List.reverse_singleton, List.singleton_append]
  constructor
  · rintro ⟨_, _ | ⟨hd, hr⟩, rfl⟩
    refine ⟨_, _, ⟨_, hr, rfl⟩, hd, ?_⟩
    rw [Nat.ofDigits_cons, Nat.add_comm, Nat.mul_comm]
  · rintro ⟨_, digit, ⟨digits, hr, rfl⟩, hd, rfl⟩
    refine ⟨digit :: digits, .cons hd hr, ?_⟩
    rw [Nat.ofDigits_cons, Nat.add_comm, Nat.mul_comm]

theorem Spells.unique (hl : radix ≤ 16) {other : Nat} (h : Spells radix text n)
    (ho : Spells radix text other) : n = other := by
  induction text using List.reverseRecOn generalizing n other with
  | nil => rw [spells_nil.mp h, spells_nil.mp ho]
  | append_singleton front c ih =>
    obtain ⟨before, digit, hf, hd, rfl⟩ := spells_snoc.mp h
    obtain ⟨_, _, hf', hd', rfl⟩ := spells_snoc.mp ho
    rw [ih hf hf', hd.unique hl hd']

theorem Spells.of_append (h : Spells radix (front ++ rest) n) :
    ∃ before ≤ n, Spells radix front before := by
  induction rest using List.reverseRecOn generalizing n with
  | nil => exact ⟨n, Nat.le_refl n, by rwa [List.append_nil] at h⟩
  | append_singleton rest c ih =>
    rw [← List.append_assoc] at h
    obtain ⟨value, digit, hs, hd, rfl⟩ := spells_snoc.mp h
    obtain ⟨before, hb, hf⟩ := ih hs
    have hr : 0 < radix := Nat.zero_lt_of_lt hd.1
    have hv := Nat.le_mul_of_pos_right value hr
    exact ⟨before, by omega, hf⟩

theorem Spells.isDigit (h : Spells radix (front ++ c :: rest) n) :
    ∃ digit, IsDigit radix c digit := by
  rw [List.append_cons] at h
  obtain ⟨_, -, hf⟩ := h.of_append
  obtain ⟨_, digit, -, hd, -⟩ := spells_snoc.mp hf
  exact ⟨digit, hd⟩

-- ---------------------------------------------------------------------------
-- Numerals
-- ---------------------------------------------------------------------------

theorem spells_toDigits (hb : 1 < radix) (n : Nat) : Spells radix (Nat.toDigits radix n) n := by
  induction n using Nat.strongRecOn with
  | ind n ih =>
    rw [Nat.toDigits_eq_if hb]
    split
    next hn =>
      rw [← List.nil_append [_], spells_snoc]
      exact ⟨0, n, spells_nil.mpr rfl, ⟨hn, .inl rfl⟩, by omega⟩
    next hn =>
      refine spells_snoc.mpr ⟨n / radix, n % radix, ih _ (Nat.div_lt_self (by omega) hb),
        ⟨Nat.mod_lt n (by omega), .inl rfl⟩, ?_⟩
      rw [Nat.mul_comm, Nat.div_add_mod]

theorem Spells.toUpper (hl : radix ≤ 16) (h : Spells radix text n) :
    Spells radix (text.map Char.toUpper) n := by
  obtain ⟨digits, hd, rfl⟩ := h
  refine ⟨digits, ?_, rfl⟩
  rw [← List.map_reverse, List.forall₂_map_left_iff]
  exact hd.imp fun _ _ hc => hc.toUpper hl

theorem Spells.leftpad (hr : 0 < radix) (h : Spells radix text n) (width : Nat) :
    Spells radix (text.leftpad width '0') n := by
  have hz : ∀ count, Spells radix (List.replicate count '0' ++ text) n := by
    intro count
    induction count with
    | zero => exact h
    | succ count ih =>
      obtain ⟨digits, hd, hv⟩ := ih
      refine ⟨digits ++ [0], ?_, (Nat.ofDigits_append_zero digits).trans hv⟩
      rw [List.replicate_succ, List.cons_append, List.reverse_cons]
      exact List.rel_append hd (.cons ⟨hr, .inl rfl⟩ .nil)
  exact hz _

theorem Numeral.toList_hexLower_ne_nil (width n : Nat) : (hexLower width n).toList ≠ [] := by
  rw [hexLower, String.toList_ofList, List.leftpad]
  exact List.append_ne_nil_of_right_ne_nil _ Nat.toDigits_ne_nil

theorem Numeral.toList_hexUpper_ne_nil (width n : Nat) : (hexUpper width n).toList ≠ [] := by
  rw [hexUpper, String.toList_ofList, List.leftpad]
  exact List.append_ne_nil_of_right_ne_nil _ (mt List.map_eq_nil_iff.mp Nat.toDigits_ne_nil)

theorem spells_hexLower (width n : Nat) : Spells 16 (Numeral.hexLower width n).toList n := by
  rw [Numeral.hexLower, String.toList_ofList]
  exact (spells_toDigits (by decide) n).leftpad (by decide) width

theorem spells_hexUpper (width n : Nat) : Spells 16 (Numeral.hexUpper width n).toList n := by
  rw [Numeral.hexUpper, String.toList_ofList]
  exact ((spells_toDigits (by decide) n).toUpper (Nat.le_refl 16)).leftpad (by decide) width

end PeCoff
