import PeCoff.Json
import PeCoff.Proofs.Text.Cancel
import PeCoff.Proofs.Text.Lines

/-!
# No two JSON values have the same text

The text of a value ends where a comma or a line end follows, since the only ones
of its own stand between its brackets or are escaped. So a text determines its
value, the values of its parts being told apart before the whole is.
-/

namespace PeCoff.Json

-- ---------------------------------------------------------------------------
-- Text
-- ---------------------------------------------------------------------------

def control? (digits : List Char) : Option Char :=
  ((List.range 0x20).find? fun n => (Numeral.hexLower 4 n).toList = digits).map Char.ofNat

def unescape? : List Char → Option (Char × List Char)
  | '\\' :: 'u' :: a :: b :: c :: d :: rest => (control? [a, b, c, d]).map (·, rest)
  | '\\' :: 'b' :: rest => some ('\x08', rest)
  | '\\' :: 't' :: rest => some ('\t', rest)
  | '\\' :: 'n' :: rest => some ('\n', rest)
  | '\\' :: 'f' :: rest => some ('\x0c', rest)
  | '\\' :: 'r' :: rest => some ('\r', rest)
  | '\\' :: c :: rest => some (c, rest)
  | c :: rest => some (c, rest)
  | [] => none

theorem control?_hexLower : ∀ n < 0x20, ∃ a b c d,
    (Numeral.hexLower 4 n).toList = [a, b, c, d] ∧
      control? [a, b, c, d] = some (Char.ofNat n) := by
  have h : ∀ n < 0x20, (Numeral.hexLower 4 n).toList.length = 4 ∧
      control? (Numeral.hexLower 4 n).toList = some (Char.ofNat n) := by decide +kernel
  intro n hn
  obtain ⟨hl, hc⟩ := h n hn
  match hd : (Numeral.hexLower 4 n).toList, hl with
  | [a, b, c, d], _ => exact ⟨a, b, c, d, rfl, hd ▸ hc⟩

theorem unescape?_escape (c : Char) (rest : List Char) :
    unescape? ((escape c).toList ++ rest) = some (c, rest) := by
  unfold escape
  split
  · subst_vars; rfl
  split
  · subst_vars; rfl
  next hb =>
  -- Of the characters with letters of their own each is taken back.
  iterate 5 (split; · subst_vars; rfl)
  split
  next hc =>
    obtain ⟨a, b, c', d, hd, hn⟩ := control?_hexLower c.toNat hc
    rw [String.toList_append, hd]
    show (control? [a, b, c', d]).map (·, rest) = _
    rw [hn, Char.ofNat_toNat]
    rfl
  · rw [Char.toString, String.toList_singleton, List.singleton_append]
    simp [unescape?, hb]

theorem toList_quote (text : String) :
    (quote text).toList = '"' :: (text.toList.flatMap fun c => (escape c).toList) ++ ['"'] := by
  rw [quote, String.toList_append, toList_foldl_append]
  rfl

/-- Written characters end at the first quote, which would be written with a backslash. -/
theorem escaped_cancel {first second rest rest' : List Char}
    (h : (first.flatMap fun c => (escape c).toList) ++ '"' :: rest =
      (second.flatMap fun c => (escape c).toList) ++ '"' :: rest') :
    first = second ∧ rest = rest' := by
  have not_quote (c : Char) (rest rest' : List Char) :
      '"' :: rest ≠ (escape c).toList ++ rest' := by
    intro he
    have hu := congrArg unescape? he
    rw [unescape?_escape] at hu
    cases hu
    cases he
  induction first generalizing second with
  | nil =>
    cases second with
    | nil => exact ⟨rfl, (List.cons.inj h).2⟩
    | cons c second =>
      rw [List.flatMap_nil, List.nil_append, List.flatMap_cons, List.append_assoc] at h
      exact absurd h (not_quote c rest _)
  | cons c first ih =>
    cases second with
    | nil =>
      rw [List.flatMap_nil, List.nil_append, List.flatMap_cons, List.append_assoc] at h
      exact absurd h.symm (not_quote c rest' _)
    | cons c' second =>
      simp only [List.flatMap_cons, List.append_assoc] at h
      have hu := congrArg unescape? h
      rw [unescape?_escape, unescape?_escape, Option.some.injEq, Prod.mk.injEq] at hu
      obtain ⟨rfl, ht⟩ := hu
      obtain ⟨rfl, hr⟩ := ih ht
      exact ⟨rfl, hr⟩

theorem cancels_quote (first second : String) :
    Cancels (fun _ => True) (fun text => (quote text).toList) first second := by
  intro rest rest' _ _ h
  simp only [toList_quote, List.cons_append, List.append_assoc, List.nil_append] at h
  obtain ⟨ht, hr⟩ := escaped_cancel (List.cons.inj h).2
  exact ⟨String.toList_inj.mp ht, hr⟩

-- ---------------------------------------------------------------------------
-- Plain text
-- ---------------------------------------------------------------------------

/-- Every character of the text is written as it is. -/
def Plain (text : String) : Prop := ∀ c ∈ text.toList, escape c = c.toString

instance (text : String) : Decidable (Plain text) :=
  List.decidableBAll _ text.toList

theorem Plain.quote {text : String} (h : Plain text) : quote text = "\"" ++ text ++ "\"" := by
  have ht : (text.toList.flatMap fun c => (escape c).toList) = text.toList := by
    have hc : text.toList.map (fun c => (escape c).toList) = text.toList.map fun c => [c] :=
      List.map_congr_left fun c hc => by rw [h c hc, Char.toString, String.toList_singleton]
    rw [List.flatMap_def, hc, ← List.flatMap_def, List.flatMap_singleton']
  rw [← String.toList_inj, toList_quote, ht]
  simp

theorem Plain.append {front back : String} (hf : Plain front) (hb : Plain back) :
    Plain (front ++ back) := by
  intro c hc
  rw [String.toList_append, List.mem_append] at hc
  exact hc.elim (hf c) (hb c)

theorem Plain.intercalate {separator : String} {items : List String} (hs : Plain separator)
    (hi : ∀ item ∈ items, Plain item) : Plain (separator.intercalate items) := by
  intro c hc
  rw [String.toList_intercalate] at hc
  rcases mem_intercalate hc with hm | ⟨_, hm, hc⟩
  · exact hs c hm
  · obtain ⟨item, hl, rfl⟩ := List.mem_map.mp hm
    exact hi item hl c hc

theorem plain_hexLower (n : Nat) : Plain (Numeral.hexLower 1 n) := by
  have hd : ∀ digit < 16, escape (Nat.digitChar digit) = (Nat.digitChar digit).toString := by
    decide
  intro c hc
  rw [Numeral.toList_hexLower] at hc
  obtain ⟨digit, hl, rfl⟩ := Numeral.mem_toDigits (by decide) hc
  exact hd digit hl

-- ---------------------------------------------------------------------------
-- Numbers
-- ---------------------------------------------------------------------------

def isNumeral (c : Char) : Bool := c == '-' || c.isDigit

theorem toList_number (value : Int) :
    (toString value).toList =
      if value < 0 then '-' :: Nat.toDigits 10 value.natAbs else Nat.toDigits 10 value.natAbs := by
  cases value with
  | ofNat n => simp [toString, Int.repr, Nat.toList_repr]
  | negSucc n => simp [toString, Int.repr, Nat.toList_repr]

theorem isNumeral_toDigits {c : Char} {n : Nat} (h : c ∈ Nat.toDigits 10 n) :
    isNumeral c = true ∧ c ≠ '-' := by
  have hd : ∀ digit < 10, isNumeral (Nat.digitChar digit) = true ∧ Nat.digitChar digit ≠ '-' := by
    decide
  obtain ⟨digit, hl, rfl⟩ := Numeral.mem_toDigits (by decide) h
  exact hd digit hl

theorem isNumeral_number {c : Char} {value : Int} (h : c ∈ (toString value).toList) :
    isNumeral c = true := by
  rw [toList_number] at h
  split at h
  · rcases List.mem_cons.mp h with rfl | hd
    · rfl
    · exact (isNumeral_toDigits hd).1
  · exact (isNumeral_toDigits h).1

theorem number_inj {first second : Int}
    (h : (toString first).toList = (toString second).toList) : first = second := by
  have not_minus {n : Nat} {rest : List Char} : Nat.toDigits 10 n ≠ '-' :: rest :=
    fun he => (isNumeral_toDigits (he ▸ List.mem_cons_self)).2 rfl
  have of_digits (hd : Nat.toDigits 10 first.natAbs = Nat.toDigits 10 second.natAbs) :
      first.natAbs = second.natAbs := Numeral.toDigits_inj (by decide) (by decide) hd
  rw [toList_number, toList_number] at h
  split at h <;> split at h
  · have hn := of_digits (List.cons.inj h).2
    omega
  · exact absurd h.symm not_minus
  · exact absurd h not_minus
  · have hn := of_digits h
    omega

-- ---------------------------------------------------------------------------
-- Blocks
-- ---------------------------------------------------------------------------

/-- Nothing follows a value, or what stands between values or behind the last. -/
def Follows (rest : List Char) : Prop := ∀ c ∈ rest.head?, c = ',' ∨ c = '\n'

theorem follows_comma (rest : List Char) : Follows (",\n".toList ++ rest) := by
  rintro c ⟨⟩
  exact .inl rfl

theorem follows_line {rest : List Char} (h : rest.head? = some '\n') : Follows rest := by
  intro c hc
  rw [h] at hc
  cases hc
  exact .inr rfl

theorem line_ne_comma {rest : List Char} (rest' : List Char) (h : rest.head? = some '\n') :
    rest ≠ ",\n".toList ++ rest' := by
  rintro rfl
  cases h

theorem cancels_number (first second : Int) :
    Cancels Follows (fun value => (toString value).toList) first second := by
  intro rest rest' hr hr' h
  have hn {rest : List Char} (hr : Follows rest) : ∀ c ∈ rest.head?, isNumeral c = false := by
    intro c hc
    rcases hr c hc with rfl | rfl <;> rfl
  obtain ⟨hv, ht⟩ := Cancels.run (fun _ => isNumeral_number) (fun _ => isNumeral_number) (hn hr)
    (hn hr') h
  exact ⟨number_inj hv, ht⟩

theorem toList_block {depth : Nat} {opening closing : String} {print : α → String}
    {items : List α} (h : items ≠ []) :
    (block depth opening closing (items.map print)).toList =
      opening.toList ++ '\n' ::
        (",\n".toList.intercalate
          (items.map fun item => List.replicate (2 * (depth + 1)) ' ' ++ (print item).toList) ++
        '\n' :: (List.replicate (2 * depth) ' ' ++ closing.toList)) := by
  rw [block, if_neg (by simpa using h)]
  simp [String.toList_intercalate, Numeral.blanks, Function.comp_def]

theorem block_nil_ne {depth : Nat} {opening closing : String} {print : α → String}
    {items : List α} (hb : closing.toList.head?.any (· != '\n') = true) (hi : items ≠ [])
    (rest rest' : List Char) :
    (block depth opening closing (([] : List α).map print)).toList ++ rest ≠
      (block depth opening closing (items.map print)).toList ++ rest' := by
  have toList_nil : (block depth opening closing (([] : List α).map print)).toList =
      opening.toList ++ closing.toList := String.toList_append
  intro h
  rw [toList_nil, toList_block hi, List.append_assoc, List.append_assoc] at h
  have hl := List.append_cancel_left h
  cases hc : closing.toList with
  | nil => simp [hc] at hb
  | cons c tail =>
    rw [hc] at hb hl
    obtain ⟨rfl, -⟩ := List.cons.inj hl
    contradiction

theorem block_cancel {depth : Nat} {opening closing : String} {print : α → String}
    {items items' : List α} {rest rest' : List Char}
    (hb : closing.toList.head?.any (· != '\n') = true)
    (hc : ∀ a ∈ items, ∀ b ∈ items', Cancels Follows (fun item => (print item).toList) a b)
    (h : (block depth opening closing (items.map print)).toList ++ rest =
      (block depth opening closing (items'.map print)).toList ++ rest') :
    items = items' ∧ rest = rest' := by
  by_cases hi : items = [] <;> by_cases hi' : items' = []
  · subst hi hi'
    exact ⟨rfl, List.append_cancel_left h⟩
  · subst hi
    exact absurd h (block_nil_ne hb hi' _ _)
  · subst hi'
    exact absurd h.symm (block_nil_ne hb hi _ _)
  · rw [toList_block hi, toList_block hi'] at h
    simp only [List.append_assoc, List.cons_append] at h
    have hl := (List.cons.inj (List.append_cancel_left h)).2
    obtain ⟨ht, hr⟩ := Cancels.intercalate follows_comma (fun _ => follows_line)
      (fun _ => line_ne_comma) rfl rfl (fun a ha b hb => (hc a ha b hb).prepend _) hi hi' hl
    exact ⟨ht, List.append_cancel_left (List.append_cancel_left (List.cons.inj hr).2)⟩

-- ---------------------------------------------------------------------------
-- Values
-- ---------------------------------------------------------------------------

theorem pretty_array (depth : Nat) (items : List Json) :
    (array items).pretty depth = block depth "[" "]" (items.map (pretty (depth + 1))) := by
  rw [pretty]
  exact congrArg (block depth "[" "]") List.attach_map_val

def field (depth : Nat) (member : String × Json) : String :=
  quote member.1 ++ ": " ++ member.2.pretty depth

theorem pretty_object (depth : Nat) (fields : List (String × Json)) :
    (object fields).pretty depth =
      block depth "\x7b" "\x7d" (fields.map (field (depth + 1))) := by
  rw [pretty]
  exact congrArg (block depth "\x7b" "\x7d") (List.attach_map_val (f := field (depth + 1)))

inductive Kind where
  | null
  | bool
  | number
  | text
  | array
  | object

def kind : Json → Kind
  | .null => .null
  | .bool _ => .bool
  | .number _ => .number
  | .text _ => .text
  | .array _ => .array
  | .object _ => .object

def kindOf (c : Char) : Kind :=
  if c = 'n' then .null
  else if c = 't' ∨ c = 'f' then .bool
  else if c = '"' then .text
  else if c = '[' then .array
  else if c = '\x7b' then .object
  else .number

theorem toList_block_eq (depth : Nat) (opening closing : String) (items : List String) :
    ∃ rest, (block depth opening closing items).toList = opening.toList ++ rest := by
  rw [block]
  split
  · exact ⟨_, String.toList_append⟩
  · simp only [String.toList_append, List.append_assoc]
    exact ⟨_, rfl⟩

theorem kindOf_numeral {c : Char} (h : isNumeral c = true) : kindOf c = .number := by
  have hn {d : Char} (hd : isNumeral d = false) : c ≠ d := by
    rintro rfl
    rw [hd] at h
    contradiction
  rw [kindOf, if_neg (hn rfl), if_neg (not_or.mpr ⟨hn rfl, hn rfl⟩), if_neg (hn rfl),
    if_neg (hn rfl), if_neg (hn rfl)]

theorem exists_head (depth : Nat) (value : Json) :
    ∃ c rest, (value.pretty depth).toList = c :: rest ∧ kindOf c = value.kind := by
  cases value with
  | null => exact ⟨'n', "ull".toList, by rw [pretty]; rfl, rfl⟩
  | bool value =>
    cases value with
    | false => exact ⟨'f', "alse".toList, by rw [pretty]; rfl, rfl⟩
    | true => exact ⟨'t', "rue".toList, by rw [pretty]; rfl, rfl⟩
  | number value =>
    rw [pretty]
    cases hl : (toString value).toList with
    | nil =>
      have hn := hl ▸ toList_number value
      split at hn
      · contradiction
      · exact absurd hn.symm Nat.toDigits_ne_nil
    | cons c rest =>
      exact ⟨c, rest, rfl, kindOf_numeral (isNumeral_number (hl ▸ List.mem_cons_self))⟩
  | text value => exact ⟨'"', _, by rw [pretty]; exact toList_quote value, rfl⟩
  | array items =>
    obtain ⟨rest, hr⟩ := toList_block_eq depth "[" "]" (items.map (pretty (depth + 1)))
    exact ⟨'[', rest, by rw [pretty_array]; exact hr, rfl⟩
  | object fields =>
    obtain ⟨rest, hr⟩ := toList_block_eq depth "\x7b" "\x7d" (fields.map (field (depth + 1)))
    exact ⟨'\x7b', rest, by rw [pretty_object]; exact hr, rfl⟩

theorem kind_eq {depth : Nat} {value other : Json} {rest rest' : List Char}
    (h : (value.pretty depth).toList ++ rest = (other.pretty depth).toList ++ rest') :
    value.kind = other.kind := by
  obtain ⟨c, tail, hc, hk⟩ := exists_head depth value
  obtain ⟨c', tail', hc', hk'⟩ := exists_head depth other
  rw [hc, hc'] at h
  cases (List.cons.inj h).1
  rw [← hk, ← hk']

theorem cancels_field {depth : Nat} {first second : String × Json}
    (h : Cancels Follows (fun value => (pretty depth value).toList) first.2 second.2) :
    Cancels Follows (fun member => (field depth member).toList) first second := by
  intro rest rest' hr hr' he
  simp only [field, String.toList_append, List.append_assoc] at he
  obtain ⟨hn, he⟩ := cancels_quote first.1 second.1 _ _ trivial trivial he
  obtain ⟨hv, he⟩ := h rest rest' hr hr' (List.append_cancel_left he)
  exact ⟨Prod.ext hn hv, he⟩

/-- No text of a value is the beginning of another's, in front of what follows. -/
theorem cancels_pretty (depth : Nat) (value other : Json) :
    Cancels Follows (fun value => (pretty depth value).toList) value other := by
  intro rest rest' hr hr' h
  have hk := kind_eq h
  match value, other with
  | .null, .null => exact ⟨rfl, List.append_cancel_left h⟩
  | .bool value, .bool other =>
    simp only [pretty] at h
    cases value <;> cases other
    · exact ⟨rfl, List.append_cancel_left h⟩
    · exact absurd (List.cons.inj h).1 (by decide)
    · exact absurd (List.cons.inj h).1 (by decide)
    · exact ⟨rfl, List.append_cancel_left h⟩
  | .number value, .number other =>
    simp only [pretty] at h
    obtain ⟨rfl, ht⟩ := cancels_number value other rest rest' hr hr' h
    exact ⟨rfl, ht⟩
  | .text value, .text other =>
    simp only [pretty] at h
    obtain ⟨rfl, ht⟩ := cancels_quote value other rest rest' trivial trivial h
    exact ⟨rfl, ht⟩
  | .array items, .array items' =>
    simp only [pretty_array] at h
    obtain ⟨rfl, ht⟩ := block_cancel rfl
      (fun item hi item' _ => cancels_pretty (depth + 1) item item') h
    exact ⟨rfl, ht⟩
  | .object fields, .object fields' =>
    simp only [pretty_object] at h
    obtain ⟨rfl, ht⟩ := block_cancel rfl
      (fun member hi other _ => cancels_field (cancels_pretty (depth + 1) member.2 other.2)) h
    exact ⟨rfl, ht⟩
termination_by sizeOf value
decreasing_by
  · have := List.sizeOf_lt_of_mem hi
    simp only [array.sizeOf_spec]
    omega
  · have := List.sizeOf_lt_of_mem hi
    rw [Prod.mk.sizeOf_spec member.1 member.2] at this
    simp only [object.sizeOf_spec]
    omega

theorem pretty_inj {depth : Nat} {value other : Json}
    (h : value.pretty depth = other.pretty depth) : value = other := by
  have hf : Follows [] := by rintro c ⟨⟩
  exact (cancels_pretty depth value other [] [] hf hf (congrArg (·.toList ++ []) h)).1

end PeCoff.Json
