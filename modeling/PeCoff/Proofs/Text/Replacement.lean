import PeCoff.Proofs.Text.Utf8

/-!
# What replacement gives for malformed bytes

The text of any bytes, by the rule and not by the way in which it is found: the
longest well-formed part in front as it is, one U+FFFD for the maximal subpart
behind it, and then the rest by the same rule. `replacing_eq_iff`: this is what
the decoder gives, whatever the bytes are, and nothing else is.
-/

namespace PeCoff.Utf8

structure Longest (Property : List UInt8 → Prop) (data part : List UInt8) : Prop where
  front : part <+: data
  holds : Property part
  longest : ∀ other, other <+: data → Property other → other.length ≤ part.length

/-- Some bytes of a sequence from its first one on, but not all of them. -/
def Begun (part : List UInt8) : Prop :=
  part ≠ [] ∧ ∃ rest code, rest ≠ [] ∧ Sequence (part ++ rest) code

/-- What one U+FFFD stands for where no character is: as much of a sequence as there is, or a
byte that no sequence begins with. -/
inductive Subpart (data : List UInt8) : List UInt8 → Prop
  | begun {part : List UInt8} : Longest Begun data part → Subpart data part
  | single {byte : UInt8} {rest : List UInt8} : data = byte :: rest →
      (∀ part, part <+: data → ¬Begun part) → Subpart data [byte]

/-- The text of the bytes, with a U+FFFD for each maximal subpart that is no character. -/
inductive Replaced : List UInt8 → String → Prop
  | text {data : List UInt8} {text : String} : text.toByteArray.data.toList = data →
      Replaced data text
  | malformed {front part rest : List UInt8} {before after : String} :
      ¬WellFormed (front ++ (part ++ rest)) → Longest WellFormed (front ++ (part ++ rest)) front →
      before.toByteArray.data.toList = front → Subpart (part ++ rest) part →
      Replaced rest after → Replaced (front ++ (part ++ rest)) (before ++ "\uFFFD" ++ after)

-- ---------------------------------------------------------------------------
-- There is such a text
-- ---------------------------------------------------------------------------

theorem exists_longest {Property : List UInt8 → Prop} {data part : List UInt8}
    (hf : part <+: data) (hp : Property part) : ∃ longest, Longest Property data longest := by
  -- A part that is not the longest leaves less of the data to a longer one.
  induction hn : data.length - part.length using Nat.strongRecOn generalizing part with
  | ind n ih =>
    by_cases hl : ∀ other, other <+: data → Property other → other.length ≤ part.length
    · exact ⟨part, hf, hp, hl⟩
    · simp only [Classical.not_forall, Nat.not_le] at hl
      obtain ⟨other, ho, hq, hl⟩ := hl
      have hd := ho.length_le
      exact ih _ (by omega) ho hq rfl

theorem wellFormed_nil : WellFormed [] := ⟨[], .nil⟩

theorem exists_subpart {byte : UInt8} {rest : List UInt8} :
    ∃ part, part <+: byte :: rest ∧ Subpart (byte :: rest) part ∧ part ≠ [] := by
  by_cases hb : ∃ part, part <+: byte :: rest ∧ Begun part
  · obtain ⟨part, hf, hp⟩ := hb
    obtain ⟨longest, hl⟩ := exists_longest hf hp
    exact ⟨longest, hl.front, .begun hl, hl.holds.1⟩
  · simp only [not_exists, not_and] at hb
    exact ⟨[byte], ⟨rest, rfl⟩, .single rfl hb, List.cons_ne_nil _ _⟩

theorem exists_replaced (data : List UInt8) : ∃ text, Replaced data text := by
  induction hn : data.length using Nat.strongRecOn generalizing data with
  | ind n ih =>
    by_cases hw : WellFormed data
    · obtain ⟨text, ht⟩ := wellFormed_iff.mp hw
      exact ⟨text, .text ht⟩
    · obtain ⟨front, hl⟩ := @exists_longest WellFormed data [] ⟨data, rfl⟩ wellFormed_nil
      obtain ⟨tail, rfl⟩ := hl.front
      cases tail with
      | nil => exact absurd (by simpa using hl.holds) hw
      | cons byte rest =>
        obtain ⟨part, ⟨rest, hr⟩, hs, hp⟩ := @exists_subpart byte rest
        rw [← hr] at hl hw hs hn
        have hp := List.length_pos_iff.mpr hp
        simp only [List.length_append] at hn
        obtain ⟨after, ha⟩ := ih rest.length (by omega) rest rfl
        obtain ⟨before, hb⟩ := wellFormed_iff.mp hl.holds
        rw [← hr]
        exact ⟨_, .malformed hw hl hb hs ha⟩

-- ---------------------------------------------------------------------------
-- Parts of a sequence
-- ---------------------------------------------------------------------------

theorem mayFollow_iff {first second : UInt8} :
    mayFollow first second ↔ isContinuation second ∧ 0xC2 ≤ first.toNat ∧ first.toNat ≤ 0xF4 ∧
      (first.toNat = 0xE0 → 0xA0 ≤ second.toNat) ∧ (first.toNat = 0xED → second.toNat < 0xA0) ∧
      (first.toNat = 0xF0 → 0x90 ≤ second.toNat) ∧ (first.toNat = 0xF4 → second.toNat < 0x90) := by
  simp only [mayFollow, isContinuation, ← UInt8.toNat_inj, UInt8.le_iff_toNat_le,
    UInt8.reduceToNat, Bool.and_eq_true, decide_eq_true_eq]
  repeat' split
  all_goals
    simp only [Bool.and_eq_true, decide_eq_true_eq]
    omega

/-- Three bytes are a sequence by their first two: its number is then neither too small nor that
of a surrogate, whatever the third adds. -/
theorem exists_sequence_three {a b c : UInt8} : (∃ code, Sequence [a, b, c] code) ↔
    0xE0 ≤ a.toNat ∧ a.toNat < 0xF0 ∧ mayFollow a b ∧ isContinuation c := by
  rw [mayFollow_iff]
  constructor
  · rintro ⟨code, hf, hl, hs, -⟩
    cases hf with
    | three ha ha' hb hc hn =>
      have hb' := isContinuation_iff.mp hb
      have hc' := isContinuation_iff.mp hc
      have hl : 0x800 ≤ code := hl
      exact ⟨ha, ha', ⟨hb, by omega⟩, hc⟩
  · rintro ⟨ha, ha', ⟨hb, hr⟩, hc⟩
    have hb' := isContinuation_iff.mp hb
    have hc' := isContinuation_iff.mp hc
    refine ⟨_, .three ha ha' hb hc rfl, ?_, ?_, ?_⟩
    · show 0x800 ≤ _
      omega
    · omega
    · omega

theorem exists_sequence_four {a b c d : UInt8} : (∃ code, Sequence [a, b, c, d] code) ↔
    0xF0 ≤ a.toNat ∧ mayFollow a b ∧ isContinuation c ∧ isContinuation d := by
  rw [mayFollow_iff]
  constructor
  · rintro ⟨code, hf, hl, -, hm⟩
    cases hf with
    | four ha ha' hb hc hd hn =>
      have hb' := isContinuation_iff.mp hb
      have hc' := isContinuation_iff.mp hc
      have hd' := isContinuation_iff.mp hd
      have hl : 0x10000 ≤ code := hl
      exact ⟨ha, ⟨hb, by omega⟩, hc, hd⟩
  · rintro ⟨ha, ⟨hb, hr⟩, hc, hd⟩
    have hb' := isContinuation_iff.mp hb
    have hc' := isContinuation_iff.mp hc
    have hd' := isContinuation_iff.mp hd
    refine ⟨_, .four ha (by omega) hb hc hd rfl, ?_, ?_, ?_⟩
    · show 0x10000 ≤ _
      omega
    · omega
    · omega

theorem Sequence.length_le {data : List UInt8} {code : Nat} (h : Sequence data code) :
    data.length ≤ 4 := by
  cases h.form <;> simp

theorem Begun.length_le {part : List UInt8} (h : Begun part) : part.length ≤ 3 := by
  obtain ⟨-, rest, code, hr, hs⟩ := h
  have hr := List.length_pos_iff.mpr hr
  have hl := hs.length_le
  rw [List.length_append] at hl
  omega

theorem isContinuation_least : isContinuation 0x80 := by decide

theorem begun_two {a b : UInt8} : Begun [a, b] ↔ 0xE0 ≤ a.toNat ∧ mayFollow a b := by
  constructor
  · rintro ⟨-, rest, code, hr, hs⟩
    have hl := hs.length_le
    match rest with
    | [c] =>
      obtain ⟨ha, -, hb, -⟩ := exists_sequence_three.mp ⟨code, hs⟩
      exact ⟨ha, hb⟩
    | [c, d] =>
      obtain ⟨ha, hb, -⟩ := exists_sequence_four.mp ⟨code, hs⟩
      exact ⟨Nat.le_trans (by decide) ha, hb⟩
    | [] => contradiction
    | _ :: _ :: _ :: _ =>
      simp only [List.length_append, List.length_cons] at hl
      omega
  · rintro ⟨ha, hb⟩
    refine ⟨List.cons_ne_nil _ _, ?_⟩
    by_cases h : a.toNat < 0xF0
    · obtain ⟨code, hs⟩ := exists_sequence_three.mpr ⟨ha, h, hb, isContinuation_least⟩
      exact ⟨[0x80], code, List.cons_ne_nil _ _, hs⟩
    · obtain ⟨code, hs⟩ := exists_sequence_four.mpr
        ⟨Nat.le_of_not_lt h, hb, isContinuation_least, isContinuation_least⟩
      exact ⟨[0x80, 0x80], code, List.cons_ne_nil _ _, hs⟩

theorem begun_three {a b c : UInt8} :
    Begun [a, b, c] ↔ 0xF0 ≤ a.toNat ∧ mayFollow a b ∧ isContinuation c := by
  constructor
  · rintro ⟨-, rest, code, hr, hs⟩
    have hl := hs.length_le
    match rest with
    | [d] =>
      obtain ⟨ha, hb, hc, -⟩ := exists_sequence_four.mp ⟨code, hs⟩
      exact ⟨ha, hb, hc⟩
    | [] => contradiction
    | _ :: _ :: _ =>
      simp only [List.length_append, List.length_cons] at hl
      omega
  · rintro ⟨ha, hb, hc⟩
    obtain ⟨code, hs⟩ := exists_sequence_four.mpr ⟨ha, hb, hc, isContinuation_least⟩
    exact ⟨List.cons_ne_nil _ _, [0x80], code, List.cons_ne_nil _ _, hs⟩

theorem Begun.take {part data : List UInt8} {n : Nat} (h : Begun part) (hf : part <+: data)
    (hn : n ≠ 0) (hl : n ≤ part.length) : Begun (data.take n) := by
  obtain ⟨more, rfl⟩ := hf
  obtain ⟨hp, rest, code, hr, hs⟩ := h
  rw [List.take_append_of_le_length hl]
  refine ⟨by simp [hn, hp], part.drop n ++ rest, code, List.append_ne_nil_of_right_ne_nil _ hr, ?_⟩
  rwa [← List.append_assoc, List.take_append_drop]

-- ---------------------------------------------------------------------------
-- One step of the decoder
-- ---------------------------------------------------------------------------

variable {bytes : ByteArray} {i : Nat} {data part : List UInt8}

theorem getElem?_add (hd : bytes.data.toList.drop i = data) (k : Nat) :
    bytes[i + k]? = data[k]? := by
  rw [← hd, List.getElem?_drop, Array.getElem?_toList]
  by_cases h : i + k < bytes.size
  · rw [getElem?_pos bytes _ h, getElem?_pos bytes.data _ h]
    rfl
  · rw [getElem?_neg bytes _ h, getElem?_neg bytes.data _ h]

/-- No part of a sequence is longer than the subpart, which is such a part unless it is a
single byte. -/
theorem longest_subpart (hd : bytes.data.toList.drop i = data) :
    (∀ part, part <+: data → Begun part → part.length ≤ subpart bytes i) ∧
      (subpart bytes i = 1 ∨
        ∃ part, part <+: data ∧ Begun part ∧ part.length = subpart bytes i) := by
  have hz : bytes[i]? = data[0]? := getElem?_add hd 0
  unfold subpart
  rw [hz, getElem?_add hd 1, getElem?_add hd 2]
  match data with
  | [] => exact ⟨fun part hf _ => Nat.le_succ_of_le hf.length_le, .inl rfl⟩
  | [a] => exact ⟨fun part hf _ => hf.length_le, .inl rfl⟩
  | a :: b :: rest =>
    have h2 : (decide (0xE0 ≤ a) && mayFollow a b) = true ↔ Begun [a, b] := by
      rw [begun_two, Bool.and_eq_true, decide_eq_true_eq, UInt8.le_iff_toNat_le]
      rfl
    simp only [List.getElem?_cons_zero, List.getElem?_cons_succ]
    by_cases hb : Begun [a, b]
    · rw [if_pos (h2.mpr hb)]
      have h3 : (decide (0xF0 ≤ a) && rest[0]?.any isContinuation) = true ↔
          ∃ c more, rest = c :: more ∧ Begun [a, b, c] := by
        rw [Bool.and_eq_true, decide_eq_true_eq, UInt8.le_iff_toNat_le]
        cases rest with
        | nil => simp
        | cons c more => simp [begun_three, (begun_two.mp hb).2]
      by_cases hc : ∃ c more, rest = c :: more ∧ Begun [a, b, c]
      · rw [if_pos (h3.mpr hc)]
        obtain ⟨c, more, rfl, hc⟩ := hc
        exact ⟨fun part _ hp => hp.length_le, .inr ⟨[a, b, c], ⟨more, rfl⟩, hc, rfl⟩⟩
      · rw [if_neg (mt h3.mp hc)]
        refine ⟨fun part hf hp => ?_, .inr ⟨[a, b], ⟨rest, rfl⟩, hb, rfl⟩⟩
        refine Nat.le_of_not_lt fun hl => hc ?_
        cases rest with
        | nil => exact absurd hf.length_le (Nat.not_le.mpr hl)
        | cons c more => exact ⟨c, more, rfl, hp.take hf (by decide) hl⟩
    · rw [if_neg (mt h2.mp hb)]
      refine ⟨fun part hf hp => ?_, .inl rfl⟩
      exact Nat.le_of_not_lt fun hl => hb (hp.take hf (by decide) hl)

theorem length_subpart (hd : bytes.data.toList.drop i = data) (hs : Subpart data part) :
    part.length = subpart bytes i := by
  obtain ⟨hu, hl⟩ := longest_subpart hd
  cases hs with
  | begun hb =>
    refine Nat.le_antisymm (hu part hb.front hb.holds) ?_
    rcases hl with h | ⟨other, hf, ho, h⟩
    · rw [h]
      exact List.length_pos_iff.mpr hb.holds.1
    · rw [← h]
      exact hb.longest other hf ho
  | single _ hn =>
    rcases hl with h | ⟨other, hf, ho, -⟩
    · exact h.symm
    · exact absurd ho (hn other hf)

theorem utf8DecodeChar?_eq_some {c : Char} (hd : bytes.data.toList.drop i = data) :
    bytes.utf8DecodeChar? i = some c ↔ String.utf8EncodeChar c <+: data := by
  have he : bytes.extract i bytes.size = data.toByteArray := by
    refine ByteArray.ext (Array.toList_inj.mp ?_)
    rw [List.toList_data_toByteArray, ← hd, ByteArray.data_extract, Array.toList_extract,
      List.extract_eq_take_drop]
    exact List.take_of_length_le (by simp)
  rw [ByteArray.utf8DecodeChar?_eq_utf8DecodeChar?_extract, he]
  constructor
  · intro h
    obtain ⟨rest, hr⟩ := ByteArray.exists_of_utf8DecodeChar?_eq_some h
    have hl := congrArg (·.data.toList) hr
    simp only [ByteArray.data_append, Array.toList_append, List.toList_data_toByteArray] at hl
    exact ⟨_, hl.symm⟩
  · rintro ⟨rest, rfl⟩
    rw [List.toByteArray_append]
    exact ByteArray.utf8DecodeChar?_utf8EncodeChar_append

-- ---------------------------------------------------------------------------
-- All of its steps
-- ---------------------------------------------------------------------------

variable {text done : String} {rest : List UInt8}

theorem drop_add {list front rest : List α} (hd : list.drop i = front ++ rest) :
    list.drop (i + front.length) = rest := by
  rw [← List.drop_drop, hd, List.drop_left]

theorem lt_size (hd : bytes.data.toList.drop i = data) (hn : data ≠ []) : i < bytes.size := by
  refine Nat.lt_of_not_le fun hl => hn ?_
  rw [← hd]
  exact List.drop_eq_nil_of_le hl

theorem go_chars {chars : List Char}
    (hd : bytes.data.toList.drop i = chars.flatMap String.utf8EncodeChar ++ rest) :
    replacing.go bytes done i = replacing.go bytes (done ++ String.ofList chars)
      (i + (chars.flatMap String.utf8EncodeChar).length) := by
  induction chars generalizing i done with
  | nil => simp
  | cons c chars ih =>
    rw [List.flatMap_cons, List.append_assoc] at hd
    have hc := (utf8DecodeChar?_eq_some hd).mpr ⟨_, rfl⟩
    have hn := List.append_ne_nil_of_left_ne_nil (@String.utf8EncodeChar_ne_nil c)
    have hp : done.push c ++ String.ofList chars = done ++ String.ofList (c :: chars) :=
      String.ext (by simp)
    rw [replacing.go, if_pos (lt_size hd (hn _)), hc]
    dsimp only
    rw [← String.length_utf8EncodeChar, ih (drop_add hd), hp, List.flatMap_cons,
      List.length_append, Nat.add_assoc]

theorem go_text (hd : bytes.data.toList.drop i = text.toByteArray.data.toList ++ rest) :
    replacing.go bytes done i = replacing.go bytes (done ++ text)
      (i + text.toByteArray.data.toList.length) := by
  rw [toList_toByteArray] at hd ⊢
  rw [go_chars hd, String.ofList_toList]

theorem go_end (hd : bytes.data.toList.drop i = []) : replacing.go bytes done i = done := by
  have hl : bytes.size ≤ i := List.drop_eq_nil_iff.mp hd
  rw [replacing.go, if_neg (Nat.not_lt.mpr hl)]

theorem go_malformed (hd : bytes.data.toList.drop i = part ++ rest)
    (hn : ∀ c, ¬String.utf8EncodeChar c <+: part ++ rest) (hs : Subpart (part ++ rest) part) :
    replacing.go bytes done i = replacing.go bytes (done.push '\uFFFD') (i + part.length) := by
  have hp : part ≠ [] := by
    cases hs with
    | begun hb => exact hb.holds.1
    | single => exact List.cons_ne_nil _ _
  have hc : bytes.utf8DecodeChar? i = none :=
    Option.eq_none_iff_forall_ne_some.mpr fun c hc => hn c ((utf8DecodeChar?_eq_some hd).mp hc)
  rw [replacing.go, if_pos (lt_size hd (List.append_ne_nil_of_left_ne_nil hp _)), hc]
  dsimp only
  rw [length_subpart hd hs]

theorem Longest.not_character {c : Char} (hl : Longest WellFormed (part ++ rest) part) :
    ¬String.utf8EncodeChar c <+: rest := by
  rintro ⟨more, rfl⟩
  obtain ⟨text, ht⟩ := wellFormed_iff.mp hl.holds
  have hw : WellFormed (part ++ String.utf8EncodeChar c) := by
    refine wellFormed_iff.mpr ⟨text.push c, ?_⟩
    rw [← ht, toList_toByteArray, toList_toByteArray, String.toList_push, List.flatMap_append,
      List.flatMap_singleton]
  have hm := hl.longest _ ⟨more, List.append_assoc _ _ _⟩ hw
  have hc := List.length_pos_iff.mpr (@String.utf8EncodeChar_ne_nil c)
  rw [List.length_append] at hm
  omega

theorem Replaced.go (h : Replaced data text) {i : Nat} {done : String}
    (hd : bytes.data.toList.drop i = data) : replacing.go bytes done i = done ++ text := by
  induction h generalizing i done with
  | text ht =>
    rw [← ht, ← List.append_nil (String.toByteArray _).data.toList] at hd
    rw [go_text hd, go_end (drop_add hd)]
  | @malformed front part rest before after hw hl hb hs _ ih =>
    rw [← hb] at hd
    have hp := drop_add hd
    rw [go_text hd, go_malformed hp (fun c => hl.not_character) hs, ih (drop_add hp)]
    exact String.ext (by simp)

/-- The decoder gives the text of the bytes, and no other text is theirs. -/
theorem replacing_eq_iff {bytes : ByteArray} {text : String} :
    replacing bytes = text ↔ Replaced bytes.data.toList text := by
  have h {text : String} (h : Replaced bytes.data.toList text) : replacing bytes = text := by
    rw [replacing, h.go List.drop_zero, String.empty_append]
  constructor
  · rintro rfl
    obtain ⟨text, ht⟩ := exists_replaced bytes.data.toList
    rwa [h ht]
  · exact h

theorem Replaced.zero_not_mem (h : Replaced data text) (hz : 0 ∉ data) : '\x00' ∉ text.toList := by
  induction h with
  | text ht =>
    rw [← zero_mem_toByteArray, ht]
    exact hz
  | malformed _ _ hb _ _ ih =>
    simp only [List.mem_append, not_or] at hz
    have hf : '\x00' ∉ "\uFFFD".toList := by decide
    simp only [String.toList_append, List.mem_append, not_or]
    exact ⟨⟨by rw [← zero_mem_toByteArray, hb]; exact hz.1, hf⟩, ih hz.2.2⟩

end PeCoff.Utf8
