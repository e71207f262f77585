import PeCoff.Proofs.Text.Numeral
import PeCoff.Text.Quoted

/-!
# Text in lines

Lines that have no newline of their own are found again in the text that they
make, each with a newline behind it. Numerals and quoted text never have one,
whatever is quoted.
-/

namespace PeCoff

theorem toList_foldl_append (part : α → String) (items : List α) (done : String) :
    (items.foldl (fun done item => done ++ part item) done).toList =
      done.toList ++ items.flatMap fun item => (part item).toList := by
  induction items generalizing done with
  | nil => simp
  | cons item rest ih =>
    rw [List.foldl_cons, ih, String.toList_append, List.flatMap_cons, List.append_assoc]

theorem mem_intercalate {separator : List α} {items : List (List α)} {a : α}
    (h : a ∈ separator.intercalate items) : a ∈ separator ∨ ∃ item ∈ items, a ∈ item := by
  induction items with
  | nil => contradiction
  | cons item rest ih =>
    cases rest with
    | nil => exact .inr ⟨item, List.mem_cons_self, by simpa using h⟩
    | cons next more =>
      rw [List.intercalate_cons_cons, List.append_assoc, List.mem_append, List.mem_append] at h
      rcases h with hi | hs | hr
      · exact .inr ⟨item, List.mem_cons_self, hi⟩
      · exact .inl hs
      · exact (ih hr).imp_right fun ⟨other, ho, ha⟩ => ⟨other, List.mem_cons_of_mem _ ho, ha⟩

namespace Lines

-- ---------------------------------------------------------------------------
-- Lines and text
-- ---------------------------------------------------------------------------

def join (lines : List (List Char)) : List Char := lines.flatMap (· ++ ['\n'])

def push (c : Char) (lines : List (List Char)) : List (List Char) :=
  if c = '\n' then [] :: lines
  else match lines with
    | [] => [[c]]
    | line :: rest => (c :: line) :: rest

def split (text : List Char) : List (List Char) := text.foldr push []

variable {lines : List (List Char)}

theorem join_cons (line : List Char) (lines : List (List Char)) :
    join (line :: lines) = line ++ '\n' :: join lines := by
  rw [join, List.flatMap_cons, List.append_assoc]
  rfl

theorem join_append (front back : List (List Char)) :
    join (front ++ back) = join front ++ join back := List.flatMap_append

theorem split_append {line : List Char} (h : '\n' ∉ line) (rest : List Char) :
    split (line ++ '\n' :: rest) = line :: split rest := by
  induction line with
  | nil => rfl
  | cons c line ih =>
    obtain ⟨hc, hl⟩ := not_or.mp (mt List.mem_cons.mpr h)
    show push c (split (line ++ '\n' :: rest)) = _
    rw [ih hl, push, if_neg (Ne.symm hc)]

theorem split_join (h : ∀ line ∈ lines, '\n' ∉ line) : split (join lines) = lines := by
  induction lines with
  | nil => rfl
  | cons line rest ih =>
    obtain ⟨hl, hr⟩ := List.forall_mem_cons.mp h
    rw [join_cons, split_append hl, ih hr]

theorem count_join (h : ∀ line ∈ lines, '\n' ∉ line) :
    (join lines).count '\n' = lines.length := by
  induction lines with
  | nil => rfl
  | cons line rest ih =>
    obtain ⟨hl, hr⟩ := List.forall_mem_cons.mp h
    rw [join_cons, List.count_append, List.count_eq_zero_of_not_mem hl, List.count_cons_self,
      ih hr, Nat.zero_add, List.length_cons]

-- ---------------------------------------------------------------------------
-- Indentation
-- ---------------------------------------------------------------------------

/-- How far a line is indented, two blanks to a step. -/
def depth (line : List Char) : Nat := (line.takeWhile (· = ' ')).length / 2

theorem depth_indented {c : Char} (hc : c ≠ ' ') (steps : Nat) (rest : List Char) :
    depth (List.replicate (2 * steps) ' ' ++ c :: rest) = steps := by
  have hb : ∀ blank ∈ List.replicate (2 * steps) ' ', decide (blank = ' ') = true := by
    intro blank hm
    rw [List.eq_of_mem_replicate hm]
    rfl
  rw [depth, List.takeWhile_append_of_pos hb, List.takeWhile_cons_of_neg (by simpa using hc),
    List.append_nil, List.length_replicate, Nat.mul_div_cancel_left steps (by decide)]

end Lines

-- ---------------------------------------------------------------------------
-- Text on one line
-- ---------------------------------------------------------------------------

def SingleLine (text : String) : Prop := '\n' ∉ text.toList

instance (text : String) : Decidable (SingleLine text) :=
  inferInstanceAs (Decidable ('\n' ∉ text.toList))

namespace SingleLine

@[simp] theorem append_iff {first second : String} :
    SingleLine (first ++ second) ↔ SingleLine first ∧ SingleLine second := by
  rw [SingleLine, String.toList_append, List.mem_append, not_or]
  rfl

theorem toDigits {base n : Nat} (hb : 1 < base) (hl : base ≤ 16) : '\n' ∉ Nat.toDigits base n := by
  have hd : ∀ digit < 16, Nat.digitChar digit ≠ '\n' := by decide
  intro h
  obtain ⟨digit, hn, he⟩ := Numeral.mem_toDigits hb h
  exact hd digit (Nat.lt_of_lt_of_le hn hl) he.symm

@[simp] theorem numeral (n : Nat) : SingleLine (toString n) := by
  have h : (toString n).toList = Nat.toDigits 10 n := Nat.toList_repr
  rw [SingleLine, h]
  exact toDigits (by decide) (by decide)

@[simp] theorem address (width n : Nat) : SingleLine (Numeral.address width n) := by
  have hd : ∀ digit < 16, (Nat.digitChar digit).toUpper ≠ '\n' := by decide
  rw [Numeral.address, append_iff]
  refine ⟨by decide, ?_⟩
  rw [SingleLine, Numeral.hexUpper, String.toList_ofList, List.leftpad, List.mem_append]
  rintro (h | h)
  · exact absurd (List.eq_of_mem_replicate h) (by decide)
  · obtain ⟨c, hc, he⟩ := List.mem_map.mp h
    obtain ⟨digit, hn, rfl⟩ := Numeral.mem_toDigits (by decide) hc
    exact hd digit hn he

theorem escape (c : Char) : SingleLine (Quoted.escape c) := by
  unfold Quoted.escape
  iterate 3 (split; · decide)
  split
  · decide
  next hn =>
  iterate 2 (split; · decide)
  split
  · rw [append_iff, append_iff, SingleLine, SingleLine, Numeral.toList_hexLower]
    exact ⟨⟨by decide, toDigits (by decide) (by decide)⟩, by decide⟩
  · rw [SingleLine, Char.toString, String.toList_singleton, List.mem_singleton]
    exact Ne.symm hn

end SingleLine

theorem Quoted.toList_quote (text : String) :
    (quote text).toList = '"' :: (text.toList.flatMap fun c => (escape c).toList) ++ ['"'] := by
  rw [quote, String.toList_append, toList_foldl_append]
  rfl

@[simp] theorem SingleLine.quote (text : String) : SingleLine (Quoted.quote text) := by
  rw [SingleLine, Quoted.toList_quote, List.mem_append, List.mem_cons, List.mem_flatMap]
  rintro ((h | ⟨c, -, hc⟩) | h)
  · contradiction
  · exact escape c hc
  · exact absurd h (by decide)

end PeCoff
