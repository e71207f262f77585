import PeCoff.Proofs.Text.Digits
import PeCoff.RvaText

/-!
# The grammar of an address

An address is a sign at most and then digits, behind a mark of their radix if
that is sixteen. `parse_grammar`: exactly the texts of that form with a value of
32 bits are read, as that value, and any other is refused by the first character
at which it is wrong. So every address reads back from its numerals.
-/

namespace PeCoff.RvaText

variable {radix value : Nat} {text front : List Char} {c : Char}

-- ---------------------------------------------------------------------------
-- Digits
-- ---------------------------------------------------------------------------

theorem digit?_of_isDigit (hl : radix ≤ 16) {digit : Nat} (h : IsDigit radix c digit) :
    digit? radix c = some digit := by
  have hd : ∀ radix ≤ 16, ∀ digit < radix, digit? radix (Nat.digitChar digit) = some digit ∧
      digit? radix (Nat.digitChar digit).toUpper = some digit := by decide
  obtain ⟨hr, rfl | rfl⟩ := h
  · exact (hd radix hl digit hr).1
  · exact (hd radix hl digit hr).2

theorem isDigit_of_digit? (hl : radix ≤ 16) {digit : Nat} (h : digit? radix c = some digit) :
    IsDigit radix c digit := by
  have hd : ∀ digit < 10, Char.ofNat (digit + 48) = Nat.digitChar digit := by decide
  have hs : ∀ digit < 16, 10 ≤ digit → Char.ofNat (digit + 87) = Nat.digitChar digit := by decide
  have hu : ∀ digit < 16, 10 ≤ digit → Char.ofNat (digit + 55) = (Nat.digitChar digit).toUpper := by
    decide
  have hc : Char.ofNat c.toNat = c := Char.ofNat_toNat c
  simp only [digit?, Option.ite_none_right_eq_some, Option.some.injEq, Bool.and_eq_true,
    decide_eq_true_eq, Char.le_def, UInt32.le_iff_toNat_le, Char.toNat_val] at h
  obtain ⟨hr, hv⟩ := h
  rw [hv] at hr
  refine ⟨hr, ?_⟩
  have h0 : '0'.toNat = 48 := rfl
  have h9 : '9'.toNat = 57 := rfl
  have ha : 'a'.toNat = 97 := rfl
  have hA : 'A'.toNat = 65 := rfl
  split at hv
  next hi =>
    rw [← hd digit (by omega), ← hc]
    exact .inl (congrArg Char.ofNat (by omega))
  next =>
  split at hv
  next hi =>
    rw [← hs digit (by omega) (by omega), ← hc]
    exact .inl (congrArg Char.ofNat (by omega))
  next =>
  split at hv
  next hi =>
    rw [← hu digit (by omega) (by omega), ← hc]
    exact .inr (congrArg Char.ofNat (by omega))
  next => omega

/-- The first fault of what should be digits: a character that is none where the value so
far has 32 bits, or a value that has more where no such character came before. -/
inductive Fault (radix : Nat) (text : List Char) : Error → Prop
  | invalidDigit {front rest : List Char} {c : Char} {n : Nat} : text = front ++ c :: rest →
      Spells radix front n → n < UInt32.size → (∀ digit, ¬IsDigit radix c digit) →
      Fault radix text .invalidDigit
  | tooLarge {front rest : List Char} {n : Nat} : text = front ++ rest →
      Spells radix front n → UInt32.size ≤ n → Fault radix text .tooLarge

inductive Reading (radix : Nat) (text : List Char) : Except Error Nat → Prop
  | number {n : Nat} : Spells radix text n → n < UInt32.size → Reading radix text (.ok n)
  | fault {cause : Error} : Fault radix text cause → Reading radix text (.error cause)

/-- The digits that are left go on from those in front of them. -/
theorem digits_reading (hl : radix ≤ 16) (hs : Spells radix front value)
    (hv : value < UInt32.size) : Reading radix (front ++ text) (digits radix value text) := by
  induction text generalizing front value with
  | nil => exact .number (by rwa [List.append_nil]) hv
  | cons c rest ih =>
    rw [digits]
    split
    next hd =>
      refine .fault (.invalidDigit rfl hs hv fun digit hc => ?_)
      rw [digit?_of_isDigit hl hc] at hd
      contradiction
    next digit hd =>
      have hn := spells_snoc.mpr ⟨value, digit, hs, isDigit_of_digit? hl hd, rfl⟩
      rw [List.append_cons]
      dsimp only
      split
      next hb => exact ih hn hb
      next hb => exact .fault (.tooLarge rfl hn (Nat.le_of_not_lt hb))

theorem le_of_spells (hl : radix ≤ 16) {n m : Nat} {rest : List Char}
    (hf : Spells radix front m) (h : Spells radix (front ++ rest) n) : m ≤ n := by
  obtain ⟨before, hb, hs⟩ := h.of_append
  exact hf.unique hl hs ▸ hb

theorem Fault.not_spells (hl : radix ≤ 16) {cause : Error} {n : Nat} (h : Fault radix text cause)
    (hn : n < UInt32.size) : ¬Spells radix text n := by
  intro hs
  cases h with
  | invalidDigit ht _ _ hd =>
    rw [ht] at hs
    obtain ⟨digit, hc⟩ := hs.isDigit
    exact hd digit hc
  | tooLarge ht hf hm =>
    rw [ht] at hs
    exact absurd (Nat.le_trans hm (le_of_spells hl hf hs)) (Nat.not_le_of_lt hn)

/-- A value beyond 32 bits and a character that is no digit cannot both come first. -/
theorem Fault.unique (hl : radix ≤ 16) {cause other : Error} (h : Fault radix text cause)
    (ho : Fault radix text other) : cause = other := by
  have hx {front rest front' rest' : List Char} {c : Char} {n m : Nat}
      (ht : front ++ c :: rest = front' ++ rest') (hn : n < UInt32.size)
      (hf : Spells radix front n) (hd : ∀ digit, ¬IsDigit radix c digit)
      (hf' : Spells radix front' m) : m < UInt32.size := by
    rcases List.append_eq_append_iff.mp ht with ⟨_ | ⟨c', more⟩, rfl, hr⟩ | ⟨more, rfl, -⟩
    · rw [List.append_nil] at hf'
      exact hf'.unique hl hf ▸ hn
    · obtain ⟨rfl, -⟩ := List.cons.inj hr
      obtain ⟨digit, hc⟩ := hf'.isDigit
      exact absurd hc (hd digit)
    · exact Nat.lt_of_le_of_lt (le_of_spells hl hf' hf) hn
  cases h with
  | invalidDigit ht hf hn hd =>
    cases ho with
    | invalidDigit => rfl
    | tooLarge ht' hf' hm => exact absurd (hx (ht ▸ ht') hn hf hd hf') (Nat.not_lt_of_le hm)
  | tooLarge ht hf hm =>
    cases ho with
    | invalidDigit ht' hf' hn hd => exact absurd (hx (ht' ▸ ht) hn hf' hd hf) (Nat.not_lt_of_le hm)
    | tooLarge => rfl

theorem digits_eq_ok (hl : radix ≤ 16) {n : Nat} :
    digits radix 0 text = .ok n ↔ Spells radix text n ∧ n < UInt32.size := by
  have hr : Reading radix text (digits radix 0 text) :=
    digits_reading hl (spells_nil.mpr rfl) (by decide)
  generalize digits radix 0 text = result at hr
  constructor
  · rintro rfl
    cases hr with
    | number hs hn => exact ⟨hs, hn⟩
  · rintro ⟨hs, hn⟩
    cases hr with
    | number hs' => rw [hs'.unique hl hs]
    | fault hf => exact absurd hs (hf.not_spells hl hn)

theorem digits_eq_error (hl : radix ≤ 16) {cause : Error} :
    digits radix 0 text = .error cause ↔ Fault radix text cause := by
  have hr : Reading radix text (digits radix 0 text) :=
    digits_reading hl (spells_nil.mpr rfl) (by decide)
  generalize digits radix 0 text = result at hr
  constructor
  · rintro rfl
    cases hr with
    | fault hf => exact hf
  · intro hf
    cases hr with
    | number hs hn => exact absurd hs (hf.not_spells hl hn)
    | fault hf' => rw [hf'.unique hl hf]

-- ---------------------------------------------------------------------------
-- Sign
-- ---------------------------------------------------------------------------

/-- What is behind the sign, of a body that may have one. -/
inductive Unsigned : List Char → List Char → Prop
  | plus {digits : List Char} : Unsigned ('+' :: digits) digits
  | none {digits : List Char} : digits.head? ≠ some '+' → Unsigned digits digits

/-- Why a body is refused. A sign alone stands for a wrong character. -/
inductive Refused (radix : Nat) (body : List Char) : Error → Prop
  | empty : body = [] → Refused radix body .empty
  | lonePlus : body = ['+'] → Refused radix body .invalidDigit
  | fault {digits : List Char} {cause : Error} : Unsigned body digits → digits ≠ [] →
      Fault radix digits cause → Refused radix body cause

theorem number_unsigned {body digits : List Char} (h : Unsigned body digits) (hn : digits ≠ []) :
    number radix body = RvaText.digits radix 0 digits := by
  cases h with
  | plus =>
    obtain ⟨c, rest, rfl⟩ := List.exists_cons_of_ne_nil hn
    rfl
  | none hp =>
    obtain ⟨c, rest, rfl⟩ := List.exists_cons_of_ne_nil hn
    unfold number
    split
    next => contradiction
    next he => exact absurd (congrArg List.head? he) hp
    next he => exact absurd (congrArg List.head? he) hp
    next => rfl

theorem exists_unsigned {body : List Char} (hn : body ≠ []) (hp : body ≠ ['+']) :
    ∃ digits, Unsigned body digits ∧ digits ≠ [] := by
  by_cases hs : body.head? = some '+'
  · obtain ⟨digits, rfl⟩ := List.head?_eq_some_iff.mp hs
    exact ⟨digits, .plus, fun hd => hp (hd ▸ rfl)⟩
  · exact ⟨body, .none hs, hn⟩

theorem number_eq_ok (hl : radix ≤ 16) {body : List Char} {n : Nat} :
    number radix body = .ok n ↔
      ∃ digits, Unsigned body digits ∧ digits ≠ [] ∧ Spells radix digits n ∧ n < UInt32.size := by
  constructor
  · intro h
    by_cases hn : body = []
    · rw [hn] at h
      contradiction
    by_cases hp : body = ['+']
    · rw [hp] at h
      contradiction
    obtain ⟨digits, hu, hd⟩ := exists_unsigned hn hp
    rw [number_unsigned hu hd, digits_eq_ok hl] at h
    exact ⟨digits, hu, hd, h⟩
  · rintro ⟨digits, hu, hd, h⟩
    rw [number_unsigned hu hd, digits_eq_ok hl]
    exact h

theorem number_eq_error (hl : radix ≤ 16) {body : List Char} {cause : Error} :
    number radix body = .error cause ↔ Refused radix body cause := by
  constructor
  · intro h
    by_cases hn : body = []
    · rw [hn] at h
      cases h
      exact .empty hn
    by_cases hp : body = ['+']
    · rw [hp] at h
      cases h
      exact .lonePlus hp
    obtain ⟨digits, hu, hd⟩ := exists_unsigned hn hp
    rw [number_unsigned hu hd, digits_eq_error hl] at h
    exact .fault hu hd h
  · rintro (rfl | rfl | ⟨hu, hd, h⟩)
    · rfl
    · rfl
    · rwa [number_unsigned hu hd, digits_eq_error hl]

-- ---------------------------------------------------------------------------
-- Radix
-- ---------------------------------------------------------------------------

/-- The radix that a text is in, and what is behind the mark of it. -/
inductive Marked : List Char → Nat → List Char → Prop
  | sixteen {c : Char} {body : List Char} : c = 'x' ∨ c = 'X' → Marked ('0' :: c :: body) 16 body
  | ten {text : List Char} : (∀ c body, text = '0' :: c :: body → c ≠ 'x' ∧ c ≠ 'X') →
      Marked text 10 text

theorem exists_marked (text : List Char) : ∃ radix body, Marked text radix body := by
  by_cases h : ∃ c body, text = '0' :: c :: body ∧ (c = 'x' ∨ c = 'X')
  · obtain ⟨c, body, rfl, hc⟩ := h
    exact ⟨16, body, .sixteen hc⟩
  · refine ⟨10, text, .ten fun c body ht => ?_⟩
    rw [← not_or]
    exact fun hc => h ⟨c, body, ht, hc⟩

variable {text : String} {body : List Char}

theorem Marked.radix_le {text : List Char} (h : Marked text radix body) : radix ≤ 16 := by
  cases h <;> decide

theorem parse_marked (h : Marked text.toList radix body) :
    parse text = (number radix body).map UInt32.ofNat := by
  unfold parse
  generalize text.toList = chars at h
  cases h with
  | sixteen hc => rcases hc with rfl | rfl <;> rfl
  | ten hn =>
    split
    · exact absurd rfl (hn _ _ rfl).1
    · exact absurd rfl (hn _ _ rfl).2
    · rfl

theorem parse_eq_ok (h : Marked text.toList radix body) {address : UInt32} :
    parse text = .ok address ↔
      ∃ digits, Unsigned body digits ∧ digits ≠ [] ∧ Spells radix digits address.toNat := by
  rw [parse_marked h]
  constructor
  · intro hp
    cases hn : number radix body with
    | error cause =>
      rw [hn] at hp
      contradiction
    | ok n =>
      obtain ⟨digits, hu, hd, hs, hb⟩ := (number_eq_ok h.radix_le).mp hn
      rw [hn] at hp
      obtain rfl : UInt32.ofNat n = address := Except.ok.inj hp
      exact ⟨digits, hu, hd, by rwa [UInt32.toNat_ofNat_of_lt' hb]⟩
  · rintro ⟨digits, hu, hd, hs⟩
    have hn := (number_eq_ok h.radix_le).mpr ⟨digits, hu, hd, hs, address.toNat_lt⟩
    rw [hn]
    exact congrArg Except.ok UInt32.ofNat_toNat

theorem parse_eq_error (h : Marked text.toList radix body) {cause : Error} :
    parse text = .error cause ↔ Refused radix body cause := by
  rw [parse_marked h, ← number_eq_error h.radix_le]
  cases number radix body <;> simp [Except.map]

theorem parse_of_spells (h : Marked text.toList radix body) {address : UInt32}
    (hs : Spells radix body address.toNat) (hn : body ≠ []) : parse text = .ok address := by
  refine (parse_eq_ok h).mpr ⟨body, .none fun hp => ?_, hn, hs⟩
  obtain ⟨rest, rfl⟩ := List.head?_eq_some_iff.mp hp
  have hd : ∀ radix ≤ 16, digit? radix '+' = none := by decide
  have hs : Spells radix ([] ++ '+' :: rest) address.toNat := hs
  obtain ⟨digit, hs⟩ := hs.isDigit
  have hc := digit?_of_isDigit h.radix_le hs
  rw [hd radix h.radix_le] at hc
  contradiction

theorem parse_decimal (address : UInt32) : parse (toString address.toNat) = .ok address := by
  have hl : (toString address.toNat).toList = Nat.toDigits 10 address.toNat := Nat.toList_repr
  refine parse_of_spells (.ten fun c rest he => ?_) (hl ▸ spells_toDigits (by decide) _)
    (hl ▸ Nat.toDigits_ne_nil)
  have hc : c ∈ Nat.toDigits 10 address.toNat := by
    rw [← hl, he]
    simp
  have hx : ∀ digit < 10, Nat.digitChar digit ≠ 'x' ∧ Nat.digitChar digit ≠ 'X' := by decide
  obtain ⟨digit, hd, rfl⟩ := Numeral.mem_toDigits (by decide) hc
  exact hx digit hd

theorem parse_hexadecimal {mark digits : String} {address : UInt32} (hm : mark = "0x" ∨ mark = "0X")
    (hd : Spells 16 digits.toList address.toNat) (hn : digits.toList ≠ []) :
    parse (mark ++ digits) = .ok address := by
  have hb : Marked (mark ++ digits).toList 16 digits.toList := by
    rw [String.toList_append]
    rcases hm with rfl | rfl
    · exact .sixteen (.inl rfl)
    · exact .sixteen (.inr rfl)
  exact parse_of_spells hb hd hn

/-- A text is read if it is a mark, a sign at most and digits of a 32-bit number, and is that
number; any other is refused for its first fault. So a number reads back from its decimal
numeral and, marked, from its hexadecimal ones of every width. -/
theorem parse_grammar :
    (∀ text : String, ∃ radix body, Marked text.toList radix body ∧
      (∀ address, parse text = .ok address ↔
        ∃ digits, Unsigned body digits ∧ digits ≠ [] ∧ Spells radix digits address.toNat) ∧
      ∀ cause, parse text = .error cause ↔ Refused radix body cause) ∧
    ∀ (address : UInt32) (width : Nat), parse (toString address.toNat) = .ok address ∧
      ∀ mark ∈ ["0x", "0X"], parse (mark ++ Numeral.hexLower width address.toNat) = .ok address ∧
        parse (mark ++ Numeral.hexUpper width address.toNat) = .ok address := by
  refine ⟨fun text => ?_, fun address width => ⟨parse_decimal address, fun mark hm => ?_⟩⟩
  · obtain ⟨radix, body, hm⟩ := exists_marked text.toList
    exact ⟨radix, body, hm, fun _ => parse_eq_ok hm, fun _ => parse_eq_error hm⟩
  · have hm : mark = "0x" ∨ mark = "0X" := by simpa using hm
    exact ⟨parse_hexadecimal hm (spells_hexLower width _) (Numeral.toList_hexLower_ne_nil width _),
      parse_hexadecimal hm (spells_hexUpper width _) (Numeral.toList_hexUpper_ne_nil width _)⟩

example : parse "4294967295x" = .error .invalidDigit := by decide

example : parse "4294967296x" = .error .tooLarge := by decide

end PeCoff.RvaText
