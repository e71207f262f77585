import PeCoff.Text.Numeral

/-!
# Numerals tell numbers apart

The digits of a number determine it, in every base that has a character for each
digit.
-/

namespace PeCoff.Numeral

theorem digitChar_inj :
    ∀ a < 16, ∀ b < 16, Nat.digitChar a = Nat.digitChar b → a = b := by decide

theorem toDigits_inj {base : Nat} (hb : 1 < base) (hl : base ≤ 16) {a b : Nat}
    (h : Nat.toDigits base a = Nat.toDigits base b) : a = b := by
  induction a using Nat.strongRecOn generalizing b with
  | ind a ih =>
    rw [Nat.toDigits_eq_if hb (n := a), Nat.toDigits_eq_if hb (n := b)] at h
    have last {n m : Nat} (hn : n < base) (hm : m < base)
        (hd : Nat.digitChar n = Nat.digitChar m) : n = m :=
      digitChar_inj n (Nat.lt_of_lt_of_le hn hl) m (Nat.lt_of_lt_of_le hm hl) hd
    -- The last digit of a longer numeral has something in front of it.
    have single {n : Nat} {c d : Char} (hs : [] ++ [c] = Nat.toDigits base n ++ [d]) : False :=
      Nat.toDigits_ne_nil (List.append_inj_left' hs rfl).symm
    split at h <;> split at h
    · exact last ‹_› ‹_› (List.singleton_inj.mp h)
    · exact (single h).elim
    · exact (single h.symm).elim
    · have hd := List.append_inj' h rfl
      have hq := ih (a / base) (Nat.div_lt_self (by omega) hb) hd.1
      have hr := last (Nat.mod_lt a (by omega)) (Nat.mod_lt b (by omega))
        (List.singleton_inj.mp hd.2)
      rw [← Nat.div_add_mod a base, ← Nat.div_add_mod b base, hq, hr]

theorem mem_toDigits {base : Nat} (hb : 1 < base) {c : Char} {n : Nat}
    (h : c ∈ Nat.toDigits base n) : ∃ digit < base, c = Nat.digitChar digit := by
  induction n using Nat.strongRecOn with
  | ind n ih =>
    rw [Nat.toDigits_eq_if hb] at h
    split at h
    next hn => exact ⟨n, hn, List.mem_singleton.mp h⟩
    next hn =>
      rcases List.mem_append.mp h with hm | hm
      · exact ih (n / base) (Nat.div_lt_self (by omega) hb) hm
      · exact ⟨n % base, Nat.mod_lt n (by omega), List.mem_singleton.mp hm⟩

theorem toList_hexLower (n : Nat) : (hexLower 1 n).toList = Nat.toDigits 16 n := by
  have hl : 1 ≤ (Nat.toDigits 16 n).length := List.length_pos_iff.mpr Nat.toDigits_ne_nil
  rw [hexLower, String.toList_ofList, List.leftpad, Nat.sub_eq_zero_of_le hl]
  rfl

end PeCoff.Numeral
