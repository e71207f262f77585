import PeCoff.FlagTable
import PeCoff.Proofs.Text.Cancel
import PeCoff.Proofs.Text.Numeral

/-!
# The text of a flag set determines its bits

The text is a row of names and at most one number. Names without blanks can be
told from each other and, since they do not start with a zero, from the number.
Bits with a name are then those whose name is there, and all others those of the
number.
-/

namespace PeCoff.FlagTable

/-- The names of the table can be told apart in the text of a set. -/
structure Legible (table : FlagTable) : Prop where
  distinct : ∀ flag ∈ table.flags, ∀ other ∈ table.flags, flag.1 = other.1 → flag = other
  unspaced : ∀ flag ∈ table.flags, flag.1.toList.all (· != ' ') = true
  unlike_number : ∀ flag ∈ table.flags, flag.1.toList.head?.any (· != '0') = true

instance (table : FlagTable) : Decidable table.Legible :=
  decidable_of_iff (_ ∧ _ ∧ _)
    ⟨fun ⟨hd, hu, hn⟩ => ⟨hd, hu, hn⟩, fun h => ⟨h.distinct, h.unspaced, h.unlike_number⟩⟩

variable {table : FlagTable} {bits : Nat}

-- ---------------------------------------------------------------------------
-- Names and number
-- ---------------------------------------------------------------------------

def remainder (table : FlagTable) (bits : Nat) : List String :=
  if table.unknown bits = 0 then [] else ["0x" ++ Numeral.hexLower 1 (table.unknown bits)]

def tokens (table : FlagTable) (bits : Nat) : List String :=
  table.names bits ++ table.remainder bits

theorem text_eq (table : FlagTable) (bits : Nat) :
    table.text bits = " | ".intercalate (table.tokens bits) := rfl

theorem mem_names {name : String} :
    name ∈ table.names bits ↔ ∃ flag ∈ table.flags, bits.testBit flag.2 = true ∧ flag.1 = name := by
  simp only [names, List.mem_map, List.mem_filter, and_assoc]

theorem Legible.token (h : table.Legible) {token : String} (ht : token ∈ table.tokens bits) :
    token.toList ≠ [] ∧ ∀ c ∈ token.toList, (c != ' ') = true := by
  rcases List.mem_append.mp ht with hn | hr
  · obtain ⟨flag, hf, -, rfl⟩ := mem_names.mp hn
    refine ⟨fun he => ?_, List.all_eq_true.mp (h.unspaced flag hf)⟩
    have hu := h.unlike_number flag hf
    rw [he] at hu
    contradiction
  · rw [remainder] at hr
    split at hr
    · contradiction
    · have hx : "0x".toList.all (· != ' ') = true := by decide
      have hd : ∀ digit < 16, (Nat.digitChar digit != ' ') = true := by decide
      rw [List.mem_singleton.mp hr, String.toList_append, Numeral.toList_hexLower]
      refine ⟨by simp, fun c hc => ?_⟩
      rcases List.mem_append.mp hc with hm | hm
      · exact List.all_eq_true.mp hx c hm
      · obtain ⟨digit, hl, rfl⟩ := Numeral.mem_toDigits (by decide) hm
        exact hd digit hl

def AtBlank (rest : List Char) : Prop := ∀ c ∈ rest.head?, (c != ' ') = false

theorem Legible.tokens_eq_nil (h : table.Legible) (ht : table.text bits = "") :
    table.tokens bits = [] := by
  have hl := congrArg String.toList ht
  rw [text_eq, String.toList_intercalate] at hl
  cases hb : table.tokens bits with
  | nil => rfl
  | cons token rest =>
    have hm : token ∈ table.tokens bits := hb ▸ List.mem_cons_self
    have hn := (h.token hm).1
    rw [hb] at hl
    cases rest <;> simp_all [List.intercalate_cons_cons]

theorem Legible.tokens_eq (h : table.Legible) {other : Nat}
    (ht : table.text bits = table.text other) : table.tokens bits = table.tokens other := by
  by_cases hb : table.tokens bits = []
  · have he : table.text other = "" := by rw [← ht, text_eq, hb]; rfl
    rw [hb, h.tokens_eq_nil he]
  by_cases ho : table.tokens other = []
  · have he : table.text bits = "" := by rw [ht, text_eq, ho]; rfl
    exact absurd (h.tokens_eq_nil he) hb
  have hc : ∀ token ∈ table.tokens bits, ∀ token' ∈ table.tokens other,
      Cancels AtBlank String.toList token token' := by
    intro token hm token' hm' rest rest' hr hr' he
    obtain ⟨hs, hr⟩ := Cancels.run (h.token hm).2 (h.token hm').2 hr hr' he
    exact ⟨String.toList_inj.mp hs, hr⟩
  have hs : ∀ rest, AtBlank (" | ".toList ++ rest) := fun rest c hc => by cases hc; rfl
  have he : ∀ rest, rest = [] → AtBlank rest := by
    rintro _ rfl c ⟨⟩
  have hn : ∀ rest rest', rest = [] → rest ≠ " | ".toList ++ rest' := by
    rintro _ rest' rfl ⟨⟩
  have hl := congrArg String.toList ht
  rw [text_eq, text_eq, String.toList_intercalate, String.toList_intercalate] at hl
  exact (Cancels.intercalate hs he hn rfl rfl hc hb ho (congrArg (· ++ []) hl)).1

theorem Legible.parts_eq (h : table.Legible) {other : Nat}
    (ht : table.tokens bits = table.tokens other) :
    table.names bits = table.names other ∧ table.unknown bits = table.unknown other := by
  have named (bits : Nat) :
      (table.tokens bits).filter (fun token => token.toList.head?.any (· != '0')) =
        table.names bits := by
    have hr : (table.remainder bits).filter (fun token => token.toList.head?.any (· != '0')) =
        [] := by
      rw [remainder]
      split
      · rfl
      · rw [List.filter_cons_of_neg (by simp)]
        rfl
    rw [tokens, List.filter_append, hr, List.append_nil, List.filter_eq_self]
    intro name hn
    obtain ⟨flag, hf, -, rfl⟩ := mem_names.mp hn
    exact h.unlike_number flag hf
  have hn : table.names bits = table.names other := by rw [← named bits, ht, named other]
  rw [tokens, tokens, hn] at ht
  have hr := List.append_cancel_left ht
  rw [remainder, remainder] at hr
  refine ⟨hn, ?_⟩
  split at hr <;> split at hr
  · exact ‹table.unknown bits = 0›.trans (Eq.symm ‹_›)
  · contradiction
  · contradiction
  · have hd := congrArg String.toList (List.singleton_inj.mp hr)
    rw [String.toList_append, String.toList_append, Numeral.toList_hexLower,
      Numeral.toList_hexLower] at hd
    exact Numeral.toDigits_inj (by decide) (by decide) (List.append_cancel_left hd)

-- ---------------------------------------------------------------------------
-- Bits
-- ---------------------------------------------------------------------------

theorem testBit_foldl (flags : List (String × Nat)) (mask i : Nat) :
    (flags.foldl (fun mask flag => mask ||| 1 <<< flag.2) mask).testBit i = true ↔
      mask.testBit i = true ∨ ∃ flag ∈ flags, flag.2 = i := by
  induction flags generalizing mask with
  | nil => simp
  | cons flag rest ih =>
    have hb : (1 <<< flag.2 : Nat).testBit i = true ↔ flag.2 = i := by
      rw [Nat.one_shiftLeft, Nat.testBit_two_pow, decide_eq_true_eq]
    rw [List.foldl_cons, ih, Nat.testBit_or, Bool.or_eq_true, hb, or_assoc]
    simp only [List.mem_cons, exists_eq_or_imp]

theorem testBit_known (table : FlagTable) (i : Nat) :
    table.known.testBit i = true ↔ ∃ flag ∈ table.flags, flag.2 = i := by
  rw [known, testBit_foldl, Nat.zero_testBit]
  simp

theorem testBit_unknown (table : FlagTable) (bits i : Nat) :
    (table.unknown bits).testBit i = (bits.testBit i && !table.known.testBit i) := by
  rw [unknown, Nat.testBit_xor, Nat.testBit_and]
  cases bits.testBit i <;> cases table.known.testBit i <;> rfl

/-- A bit with a name is set if its name is there, since no other bit has the name. -/
theorem Legible.testBit_eq (h : table.Legible) {flag : String × Nat} (hf : flag ∈ table.flags) :
    bits.testBit flag.2 = true ↔ flag.1 ∈ table.names bits := by
  rw [mem_names]
  constructor
  · exact fun hb => ⟨flag, hf, hb, rfl⟩
  · rintro ⟨other, ho, hb, hn⟩
    rwa [← h.distinct other ho flag hf hn]

theorem Legible.text_inj (h : table.Legible) {other : Nat}
    (ht : table.text bits = table.text other) : bits = other := by
  obtain ⟨hn, hu⟩ := h.parts_eq (h.tokens_eq ht)
  refine Nat.eq_of_testBit_eq fun i => ?_
  by_cases hk : table.known.testBit i = true
  · obtain ⟨flag, hf, rfl⟩ := (testBit_known table i).mp hk
    rw [Bool.eq_iff_iff, h.testBit_eq hf, h.testBit_eq hf, hn]
  · have hi := congrArg (Nat.testBit · i) hu
    simp only [testBit_unknown, hk, Bool.not_false, Bool.and_true] at hi
    exact hi

end PeCoff.FlagTable
