import PeCoff.Guid
import PeCoff.Proofs.Bytes.Decoding
import PeCoff.Proofs.Text.Digits

/-!
# Identifiers

An identifier is its sixteen bytes: each gives the other back. `display_exact`:
so does the displayed form, whose digits are those of the bytes, though the bytes
of its first three groups come in reverse.
-/

namespace PeCoff

def isCapitalDigit (c : Char) : Bool := '0' ≤ c && c ≤ '9' || 'A' ≤ c && c ≤ 'F'

inductive Pairs : List Char → List UInt8 → Prop
  | nil : Pairs [] []
  | cons {high low : Char} {byte : UInt8} {text : List Char} {data : List UInt8} :
      Spells 16 [high, low] byte.toNat → Pairs text data → Pairs (high :: low :: text) (byte :: data)

namespace Guid

/-- The places of the bytes in the order in which they are displayed. -/
def displayOrder : List (Fin 16) := [3, 2, 1, 0, 5, 4, 7, 6, 8, 9, 10, 11, 12, 13, 14, 15]

/-- The text shows the bytes: groups of so many digits between hyphens, all in braces. -/
structure Displays (text : String) (data : Vector UInt8 16) : Prop where
  length : text.length = 38
  groups : ∃ groups : List (List Char),
    text.toList = '\x7b' :: ['-'].intercalate groups ++ ['\x7d'] ∧
      groups.map List.length = [8, 4, 4, 4, 12] ∧
      (∀ c ∈ groups.flatten, isCapitalDigit c) ∧
      Pairs groups.flatten (displayOrder.map data.get)

end Guid

-- ---------------------------------------------------------------------------
-- Pairs of digits
-- ---------------------------------------------------------------------------

namespace Pairs

variable {text more : List Char} {data others : List UInt8}

theorem length_eq (h : Pairs text data) : text.length = 2 * data.length := by
  induction h with
  | nil => rfl
  | cons _ _ ih =>
    simp only [List.length_cons, ih]
    omega

theorem append (h : Pairs text data) (ho : Pairs more others) :
    Pairs (text ++ more) (data ++ others) := by
  induction h with
  | nil => exact ho
  | cons hs _ ih => exact .cons hs ih

theorem unique (h : Pairs text data) (ho : Pairs text others) : data = others := by
  induction h generalizing others with
  | nil =>
    cases ho
    rfl
  | cons hs _ ih =>
    cases ho with
    | cons ht ho => rw [UInt8.toNat_inj.mp (hs.unique (Nat.le_refl 16) ht), ih ho]

end Pairs

namespace Numeral

open LittleEndian (bytes capacity)

theorem isCapitalDigit_hexUpper (width n : Nat) :
    ∀ c ∈ (hexUpper width n).toList, isCapitalDigit c := by
  have hd : ∀ digit < 16, isCapitalDigit (Nat.digitChar digit).toUpper := by decide
  intro c hc
  rw [hexUpper, String.toList_ofList, List.leftpad, List.mem_append] at hc
  rcases hc with hz | hm
  · rw [List.eq_of_mem_replicate hz]
    decide
  · obtain ⟨_, ht, rfl⟩ := List.mem_map.mp hm
    obtain ⟨digit, hl, rfl⟩ := mem_toDigits (by decide) ht
    exact hd digit hl

theorem toList_hexUpper_snoc (width n : Nat) :
    (hexUpper (width + 2) n).toList =
      (hexUpper (width + 1) (n / 16)).toList ++ [(Nat.digitChar (n % 16)).toUpper] := by
  simp only [hexUpper, String.toList_ofList, List.leftpad, List.length_map]
  rw [Nat.toDigits_eq_if (by decide) (n := n)]
  split
  next hn =>
    have hz : (Nat.toDigits 16 0).map Char.toUpper = ['0'] := by decide
    rw [Nat.div_eq_of_lt hn, Nat.mod_eq_of_lt hn, hz, ← List.replicate_succ']
    rfl
  next =>
    rw [List.map_append, List.length_append, List.append_assoc, List.length_singleton,
      Nat.add_sub_add_right (width + 1) 1]
    rfl

theorem toList_hexUpper_pair {width : Nat} (hw : width ≠ 0) (n : Nat) :
    (hexUpper (width + 2) n).toList = (hexUpper width (n / 256)).toList ++
      [(Nat.digitChar (n / 16 % 16)).toUpper, (Nat.digitChar (n % 16)).toUpper] := by
  obtain ⟨width, rfl⟩ := Nat.exists_eq_succ_of_ne_zero hw
  rw [toList_hexUpper_snoc, toList_hexUpper_snoc, Nat.div_div_eq_div_mul, List.append_assoc]
  rfl

theorem spells_pair (n : Nat) :
    Spells 16 [(Nat.digitChar (n / 16 % 16)).toUpper, (Nat.digitChar (n % 16)).toUpper]
      (n % 256) := by
  have hd (digit : Nat) : IsDigit 16 (Nat.digitChar (digit % 16)).toUpper (digit % 16) :=
    ⟨Nat.mod_lt digit (by decide), .inr rfl⟩
  have hh : Spells 16 ([] ++ [(Nat.digitChar (n / 16 % 16)).toUpper]) (n / 16 % 16) :=
    spells_snoc.mpr ⟨0, _, spells_nil.mpr rfl, hd _, (Nat.zero_add _).symm⟩
  rw [← List.singleton_append]
  exact spells_snoc.mpr ⟨_, _, hh, hd n, by omega⟩

/-- The digits of a number are those of the bytes that it is stored as, from the last one on. -/
theorem pairs_hexUpper {width n : Nat} (h : n < capacity (width + 1)) :
    Pairs (hexUpper (2 * (width + 1)) n).toList (bytes (width + 1) n).reverse := by
  have hp (n : Nat) : Pairs [(Nat.digitChar (n / 16 % 16)).toUpper, (Nat.digitChar (n % 16)).toUpper]
      [UInt8.ofNat (n % 256)] := by
    refine .cons ?_ .nil
    rw [UInt8.toNat_ofNat_of_lt' (Nat.mod_lt n (by decide))]
    exact spells_pair n
  induction width generalizing n with
  | zero =>
    have hn : n < 256 := h
    have hd : Nat.toDigits 16 (n / 16) = [Nat.digitChar (n / 16 % 16)] := by
      rw [Nat.toDigits_eq_if (by decide), if_pos (by omega), Nat.mod_eq_of_lt (by omega)]
    rw [toList_hexUpper_snoc, hexUpper, String.toList_ofList, hd]
    exact hp n
  | succ width ih =>
    have hc : n / 256 < capacity (width + 1) := Nat.div_lt_of_lt_mul h
    rw [bytes, List.reverse_cons, Nat.mul_succ, toList_hexUpper_pair (by omega)]
    exact (ih hc).append (hp n)

theorem pairs_flatMap (data : List UInt8) :
    Pairs (data.flatMap fun byte => (hexUpper 2 byte.toNat).toList) data := by
  induction data with
  | nil => exact .nil
  | cons byte rest ih =>
    rw [List.flatMap_cons]
    have hb : bytes 1 byte.toNat = [byte] := LittleEndian.bytes_value [byte]
    exact (hb ▸ pairs_hexUpper byte.toNat_lt).append ih

end Numeral

-- ---------------------------------------------------------------------------
-- Conversions
-- ---------------------------------------------------------------------------

namespace Guid

open LittleEndian Reader

theorem value_extract (data : Vector UInt8 16) (first : Nat) {last : Nat} (h : last ≤ 16) :
    value (data.extract first last).toList < capacity (last - first) ∧
      bytes (last - first) (value (data.extract first last).toList) =
        (data.toList.drop first).take (last - first) := by
  have hl : (data.extract first last).toList.length = last - first := by
    rw [Vector.length_toList]
    omega
  have hv := value_lt (data.extract first last).toList
  have hb := bytes_value (data.extract first last).toList
  rw [hl] at hv hb
  exact ⟨hv, hb.trans (by simp [Vector.toList_extract])⟩

theorem toList_ofBytes (data : Vector UInt8 16) : (ofBytes data).toList = data.toList := by
  obtain ⟨hd1, hb1⟩ := value_extract data 0 (show 4 ≤ 16 by decide)
  obtain ⟨hd2, hb2⟩ := value_extract data 4 (show 6 ≤ 16 by decide)
  obtain ⟨hd3, hb3⟩ := value_extract data 6 (show 8 ≤ 16 by decide)
  simp only [toList, ofBytes, UInt32.toNat_ofNat_of_lt' hd1, UInt16.toNat_ofNat_of_lt' hd2,
    UInt16.toNat_ofNat_of_lt' hd3, hb1, hb2, hb3]
  have hl : data.toList.take (4 + (2 + (2 + 8))) = data.toList :=
    List.take_of_length_le (by simp)
  simp only [List.take_add, List.drop_drop] at hl
  refine .trans ?_ hl
  simp [Vector.toList_extract]

theorem toList_injective : Function.Injective toList := by
  intro a b h
  have hb (width : Nat) {m n : Nat} (hm : m < capacity width) (hn : n < capacity width)
      (he : bytes width m = bytes width n) : m = n := by
    have hv := congrArg LittleEndian.value he
    rwa [value_bytes, value_bytes, Nat.mod_eq_of_lt hm, Nat.mod_eq_of_lt hn] at hv
  simp only [toList] at h
  obtain ⟨h, h4⟩ := List.append_inj h (by simp)
  obtain ⟨h, h3⟩ := List.append_inj h (by simp)
  obtain ⟨h1, h2⟩ := List.append_inj h (by simp)
  rw [Guid.mk.injEq]
  exact ⟨UInt32.toNat_inj.mp (hb 4 a.data1.toNat_lt b.data1.toNat_lt h1),
    UInt16.toNat_inj.mp (hb 2 a.data2.toNat_lt b.data2.toNat_lt h2),
    UInt16.toNat_inj.mp (hb 2 a.data3.toNat_lt b.data3.toNat_lt h3), Vector.toList_inj.mp h4⟩

theorem toBytes_ofBytes (data : Vector UInt8 16) : (ofBytes data).toBytes = data :=
  Vector.toList_inj.mp (toList_ofBytes data)

theorem ofBytes_toBytes (guid : Guid) : ofBytes guid.toBytes = guid :=
  toList_injective (toList_ofBytes guid.toBytes)

theorem decodes_read : read.DecodesAll toList := by
  intro bytes position guid after
  simp only [read, run_bind_ok, decodes_exact 16 _ _ _ _, run_pure_ok, true_and, length_toList,
    Vector.length_toList]
  constructor
  · rintro ⟨data, _, ⟨hs, rfl⟩, rfl, rfl⟩
    rw [toList_ofBytes]
    exact ⟨hs, rfl⟩
  · rintro ⟨hs, rfl⟩
    exact ⟨guid.toBytes, _, ⟨hs, rfl⟩, (ofBytes_toBytes guid).symm, rfl⟩

-- ---------------------------------------------------------------------------
-- The displayed form
-- ---------------------------------------------------------------------------

theorem map_displayOrder (data : Vector UInt8 16) :
    displayOrder.map data.get =
      (data.toList.take 4).reverse ++ ((data.toList.drop 4).take 2).reverse ++
        ((data.toList.drop 6).take 2).reverse ++ data.toList.drop 8 := by
  have hl : data.toList = (List.finRange 16).map data.get := by
    refine List.ext_getElem (by simp) fun index _ _ => ?_
    simp [Vector.get]
  have ho : displayOrder = ((List.finRange 16).take 4).reverse ++
      (((List.finRange 16).drop 4).take 2).reverse ++
      (((List.finRange 16).drop 6).take 2).reverse ++ (List.finRange 16).drop 8 := by decide
  simp only [hl, ← List.map_take, ← List.map_drop, ← List.map_reverse, ← List.map_append, ← ho]

theorem displays (guid : Guid) : Displays guid.display guid.toBytes := by
  have h1 := @Numeral.pairs_hexUpper 3 _ guid.data1.toNat_lt
  have h2 := @Numeral.pairs_hexUpper 1 _ guid.data2.toNat_lt
  have h3 := @Numeral.pairs_hexUpper 1 _ guid.data3.toNat_lt
  have h4 := Numeral.pairs_flatMap (guid.data4.toList.take 2)
  have h5 := Numeral.pairs_flatMap (guid.data4.toList.drop 2)
  have ho : displayOrder.map guid.toBytes.get = (bytes 4 guid.data1.toNat).reverse ++
      ((bytes 2 guid.data2.toNat).reverse ++ ((bytes 2 guid.data3.toNat).reverse ++
        (guid.data4.toList.take 2 ++ guid.data4.toList.drop 2))) := by
    have ht : guid.toBytes.toList = guid.toList := rfl
    rw [map_displayOrder, ht, toList]
    simp [List.drop_append, List.drop_of_length_le]
  constructor
  · rw [← String.length_toList, toList_display]
    simp [h1.length_eq, h2.length_eq, h3.length_eq, h4.length_eq, h5.length_eq, List.intercalate]
  · refine ⟨_, guid.toList_display, ?_, fun c hc => ?_, ?_⟩
    · simp [h1.length_eq, h2.length_eq, h3.length_eq, h4.length_eq, h5.length_eq]
    · simp only [List.flatten_cons, List.flatten_nil, List.mem_append, List.mem_flatMap,
        List.not_mem_nil, or_false] at hc
      obtain h | h | h | ⟨_, _, h⟩ | ⟨_, _, h⟩ := hc <;>
        exact Numeral.isCapitalDigit_hexUpper _ _ c h
    · rw [ho]
      simpa using h1.append (h2.append (h3.append (h4.append h5)))

theorem filter_intercalate : {groups : List (List Char)} →
    (∀ c ∈ groups.flatten, isCapitalDigit c) →
      (['-'].intercalate groups).filter isCapitalDigit = groups.flatten
  | [], _ => rfl
  | [group], h => by simpa using h
  | group :: next :: rest, h => by
    rw [List.flatten_cons, List.forall_mem_append] at h
    have hn : isCapitalDigit '-' = false := by decide
    rw [List.intercalate_cons_cons, List.filter_append, List.filter_append,
      List.filter_eq_self.mpr h.1, filter_intercalate h.2, List.filter_singleton, hn]
    simp

theorem Displays.digits {text : String} {data : Vector UInt8 16} (h : Displays text data) :
    Pairs (text.toList.filter isCapitalDigit) (displayOrder.map data.get) := by
  obtain ⟨groups, ht, -, hc, hp⟩ := h.groups
  have hb : ['\x7b'].filter isCapitalDigit = [] ∧ ['\x7d'].filter isCapitalDigit = [] := by decide
  rwa [ht, ← List.singleton_append, List.filter_append, List.filter_append, hb.1, hb.2,
    filter_intercalate hc, List.append_nil, List.nil_append]

theorem Displays.unique {text : String} {data other : Vector UInt8 16} (h : Displays text data)
    (ho : Displays text other) : data = other := by
  have hm := List.map_inj_left.mp (h.digits.unique ho.digits)
  have hd : ∀ place, place ∈ displayOrder := by decide
  exact Vector.ext fun index hi => hm ⟨index, hi⟩ (hd _)

/-- Bytes and identifiers determine each other. The displayed form is of the bytes, in the order
of the numbers that they store, so that no two identifiers are displayed alike. -/
theorem display_exact :
    (∀ data, (ofBytes data).toBytes = data) ∧ (∀ guid, ofBytes guid.toBytes = guid) ∧
      (∀ data, Displays (ofBytes data).display data) ∧ Function.Injective display := by
  refine ⟨toBytes_ofBytes, ofBytes_toBytes, fun data => ?_, fun guid other h => ?_⟩
  · have hd := displays (ofBytes data)
    rwa [toBytes_ofBytes] at hd
  · have hg := displays guid
    rw [h] at hg
    rw [← ofBytes_toBytes guid, ← ofBytes_toBytes other, hg.unique (displays other)]

example : (ofBytes #v[0x33, 0x22, 0x11, 0x00, 0x55, 0x44, 0x77, 0x66,
    0x88, 0x99, 0xAA, 0xBB, 0xCC, 0xDD, 0xEE, 0xFF]).display =
      "\x7b00112233-4455-6677-8899-AABBCCDDEEFF\x7d" := by decide

end Guid

end PeCoff
