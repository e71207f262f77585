import Mathlib.Algebra.Group.Nat.Defs
import PeCoff.Proofs.Bytes.Anchored
import PeCoff.Proofs.Bytes.Forward
import PeCoff.Proofs.Text.Utf16

/-!
# Random access

What stands at a position, found without a reader: numbers and units, each byte
looked up by itself. A reader succeeds exactly if what it reads stands where it
reads, and then ends behind it.
-/

namespace PeCoff

def numberAt (bytes : ByteArray) : (width : Nat) → (position : Nat) → Option Nat
  | 0, _ => some 0
  | width + 1, position => do
    let low ← bytes[position]?
    let above ← numberAt bytes width (position + 1)
    pure (low.toNat + 256 * above)

def u16At (bytes : ByteArray) (position : Nat) : Option UInt16 :=
  (numberAt bytes 2 position).map .ofNat

def u32At (bytes : ByteArray) (position : Nat) : Option UInt32 :=
  (numberAt bytes 4 position).map .ofNat

def unitsAt (bytes : ByteArray) : (count : Nat) → (position : Nat) → Option (List UInt16)
  | 0, _ => some []
  | count + 1, position => do
    let unit ← u16At bytes position
    let rest ← unitsAt bytes count (position + 2)
    pure (unit :: rest)

variable {bytes : ByteArray} {position count : Nat}

def window (bytes : ByteArray) (position count : Nat) : List UInt8 :=
  (bytes.extract position (position + count)).data.toList

@[simp] theorem window_zero : window bytes position 0 = [] := by
  simp [window]

theorem window_succ (h : position < bytes.size) :
    window bytes position (count + 1) = bytes[position] :: window bytes (position + 1) count := by
  simp only [window, ByteArray.data_extract, Array.toList_extract]
  rw [List.extract_eq_take_drop, List.extract_eq_take_drop,
    show position + (count + 1) - position = count + 1 by omega,
    show position + 1 + count - (position + 1) = count by omega,
    List.drop_eq_getElem_cons (by simpa using h), List.take_succ_cons]
  rfl

theorem numberAt_eq (width position : Nat) :
    numberAt bytes width position =
      if width = 0 ∨ position + width ≤ bytes.size then
        some (LittleEndian.value (window bytes position width))
      else none := by
  induction width generalizing position with
  | zero => simp [numberAt, window_zero, LittleEndian.value]
  | succ width ih =>
    rw [numberAt]
    by_cases hp : position < bytes.size
    · rw [getElem?_pos bytes position hp, ih, window_succ hp]
      by_cases hw : width = 0 ∨ position + 1 + width ≤ bytes.size
      · rw [if_pos hw, if_pos (by omega)]
        rfl
      · rw [if_neg hw, if_neg (by omega)]
        rfl
    · rw [getElem?_neg bytes position hp, if_neg (by omega)]
      rfl

theorem exists_u16At (h : position + 2 ≤ bytes.size) :
    ∃ value, u16At bytes position = some value := by
  rw [u16At, numberAt_eq, if_pos (.inr h)]
  exact ⟨_, rfl⟩

theorem le_of_u16At {value : UInt16} (h : u16At bytes position = some value) :
    position + 2 ≤ bytes.size := by
  rw [u16At, numberAt_eq] at h
  split at h
  next hs => omega
  next => contradiction

theorem units_go : (data : List UInt8) → (done : List UInt16) →
    LittleEndian.units.go done data = done.reverse ++ LittleEndian.units data
  | [], done => by simp [LittleEndian.units, LittleEndian.units.go]
  | [_], done => by simp [LittleEndian.units, LittleEndian.units.go]
  | low :: high :: rest, done => by
    simp only [LittleEndian.units, LittleEndian.units.go]
    rw [units_go rest, units_go rest [_]]
    simp

theorem units_cons (low high : UInt8) (rest : List UInt8) :
    LittleEndian.units (low :: high :: rest) =
      .ofNat (LittleEndian.value [low, high]) :: LittleEndian.units rest := by
  rw [LittleEndian.units, LittleEndian.units.go, units_go rest [_]]
  rfl

theorem unitsAt_eq (count position : Nat) :
    unitsAt bytes count position =
      if 2 * count = 0 ∨ position + 2 * count ≤ bytes.size then
        some (LittleEndian.units (window bytes position (2 * count)))
      else none := by
  induction count generalizing position with
  | zero => simp [unitsAt, window_zero, LittleEndian.units, LittleEndian.units.go]
  | succ count ih =>
    rw [unitsAt, u16At, numberAt_eq, ih]
    by_cases hp : position + 2 ≤ bytes.size
    · rw [if_pos (.inr hp), show 2 * (count + 1) = 2 * count + 1 + 1 by omega,
        window_succ (by omega), window_succ (by omega), window_succ (by omega),
        window_succ (by omega), window_zero]
      by_cases hc : 2 * count = 0 ∨ position + 2 + 2 * count ≤ bytes.size
      · rw [if_pos hc, if_pos (by omega)]
        simp only [units_cons]
        rfl
      · rw [if_neg hc, if_neg (by omega)]
        rfl
    · rw [if_neg (c := 2 = 0 ∨ _) (by omega), if_neg (c := 2 * (count + 1) = 0 ∨ _) (by omega)]
      rfl

namespace Reader

variable {after : Nat}

-- ---------------------------------------------------------------------------
-- Successful runs
-- ---------------------------------------------------------------------------

theorem run_pure_ok {value other : α} :
    (pure value : Reader α).run bytes position = .ok (other, after) ↔
      other = value ∧ after = position := by
  simp [eq_comm]

theorem run_seek_ok {start : Nat} {answer : Unit} :
    (seek start).run bytes position = .ok (answer, after) ↔ after = start := by
  simp [seek, eq_comm]

theorem run_require_ok {rule : Prop} [Decidable rule] {cause : FormatError} {answer : Unit} :
    (require rule cause).run bytes position = .ok (answer, after) ↔ rule ∧ after = position := by
  unfold require
  split
  next h => simp [h, eq_comm]
  next h => simp [h, fail]

theorem run_bind_ok {first : Reader α} {next : α → Reader β} {value : β} :
    (first >>= next).run bytes position = .ok (value, after) ↔
      ∃ given middle, first.run bytes position = .ok (given, middle) ∧
        (next given).run bytes middle = .ok (value, after) := by
  rw [run_bind]
  cases first.run bytes position with
  | error cause => simp
  | ok result =>
    simp only [Except.ok.injEq]
    constructor
    · intro h
      exact ⟨result.1, result.2, rfl, h⟩
    · rintro ⟨given, middle, rfl, h⟩
      exact h

theorem run_number_ok {width value : Nat} :
    (number width).run bytes position = .ok (value, after) ↔
      numberAt bytes width position = some value ∧ after = position + width := by
  rw [number, run_bind_ok, numberAt_eq]
  simp only [run_exact_ok, run_pure_ok]
  constructor
  · rintro ⟨data, middle, ⟨hb, rfl, hd⟩, rfl, rfl⟩
    rw [if_pos hb, window, hd]
    exact ⟨rfl, rfl⟩
  · rintro ⟨hv, rfl⟩
    split at hv
    next hb =>
      have hs : (bytes.extract position (position + width)).data.size = width := by
        rw [ByteArray.size_data, ByteArray.size_extract]
        omega
      exact ⟨⟨_, hs⟩, _, ⟨hb, rfl, rfl⟩, (Option.some.inj hv).symm, rfl⟩
    next => contradiction

theorem run_u16_ok {value : UInt16} :
    u16.run bytes position = .ok (value, after) ↔
      u16At bytes position = some value ∧ after = position + 2 := by
  simp only [u16, run_bind_ok, run_number_ok, run_pure_ok, u16At, Option.map_eq_some_iff]
  constructor
  · rintro ⟨number, middle, ⟨hn, rfl⟩, rfl, rfl⟩
    exact ⟨⟨number, hn, rfl⟩, rfl⟩
  · rintro ⟨⟨number, hn, rfl⟩, rfl⟩
    exact ⟨number, _, ⟨hn, rfl⟩, rfl, rfl⟩

theorem run_u32_ok {value : UInt32} :
    u32.run bytes position = .ok (value, after) ↔
      u32At bytes position = some value ∧ after = position + 4 := by
  simp only [u32, run_bind_ok, run_number_ok, run_pure_ok, u32At, Option.map_eq_some_iff]
  constructor
  · rintro ⟨number, middle, ⟨hn, rfl⟩, rfl, rfl⟩
    exact ⟨⟨number, hn, rfl⟩, rfl⟩
  · rintro ⟨⟨number, hn, rfl⟩, rfl⟩
    exact ⟨number, _, ⟨hn, rfl⟩, rfl, rfl⟩

theorem run_i32_ok {number : Int32} :
    i32.run bytes position = .ok (number, after) ↔
      u32At bytes position = some number.toUInt32 ∧ after = position + 4 := by
  simp only [i32, run_bind_ok, run_u32_ok, run_pure_ok]
  constructor
  · rintro ⟨stored, _, ⟨hu, rfl⟩, rfl, rfl⟩
    exact ⟨hu, rfl⟩
  · rintro ⟨hu, rfl⟩
    exact ⟨_, _, ⟨hu, rfl⟩, rfl, rfl⟩

theorem byteCount_eq (count : Nat) : (UInt64.ofNat count * 2).toNat = 2 * count % 2 ^ 64 := by
  have h2 : (2 : UInt64).toNat = 2 := rfl
  rw [UInt64.toNat_mul, UInt64.toNat_ofNat', h2]
  omega

theorem byteCount_of_lt {count : Nat} (h : count < 2 ^ 63) :
    (UInt64.ofNat count * 2).toNat = 2 * count := by
  rw [byteCount_eq, Nat.mod_eq_of_lt (by omega)]

theorem units_lt (length : UInt16) : length.toNat < 2 ^ 63 :=
  Nat.lt_trans length.toNat_lt (by decide)

theorem run_utf16_ok {text : String} (hc : count < 2 ^ 63) :
    (utf16 count).run bytes position = .ok (text, after) ↔
      unitsAt bytes count position = some (Utf16.encode text) ∧ after = position + 2 * count := by
  rw [utf16, byteCount_of_lt hc, run_bind_ok, unitsAt_eq]
  simp only [run_bytes]
  by_cases hb : 2 * count = 0 ∨ position + 2 * count ≤ bytes.size
  · simp only [if_pos hb]
    simp only [Except.ok.injEq, Prod.mk.injEq, Option.some.injEq]
    constructor
    · rintro ⟨data, middle, ⟨rfl, rfl⟩, hd⟩
      split at hd
      next found hf =>
        obtain ⟨rfl, rfl⟩ := run_pure_ok.mp hd
        exact ⟨(Utf16.decode?_eq_some.mp hf).symm, rfl⟩
      next => contradiction
    · rintro ⟨hu, rfl⟩
      refine ⟨_, _, ⟨rfl, rfl⟩, ?_⟩
      have hd := Utf16.decode?_eq_some.mpr hu.symm
      rw [window] at hd
      rw [hd]
      rfl
  · simp only [if_neg hb, reduceCtorEq, false_and, exists_false]

/-- Records of one length, one behind the other. -/
theorem run_times_ok {reader : Reader α} {At : Nat → α → Prop} {length : Nat}
    (h : ∀ position value after, reader.run bytes position = .ok (value, after) ↔
      At position value ∧ after = position + length) {values : List α} :
    (times count reader).run bytes position = .ok (values, after) ↔
      values.length = count ∧
        (∀ k value, values[k]? = some value → At (position + length * k) value) ∧
        after = position + length * count := by
  induction count generalizing position values after with
  | zero =>
    rw [times_zero, run_pure_ok]
    constructor
    · rintro ⟨rfl, rfl⟩
      simp
    · rintro ⟨hl, -, rfl⟩
      exact ⟨List.eq_nil_of_length_eq_zero hl, by simp⟩
  | succ count ih =>
    simp only [times_succ, run_bind_ok, run_pure_ok, h, ih]
    constructor
    · rintro ⟨first, _, ⟨hf, rfl⟩, rest, _, ⟨rfl, hr, rfl⟩, rfl, rfl⟩
      refine ⟨rfl, fun k value hk => ?_, by rw [Nat.mul_add]; omega⟩
      cases k with
      | zero =>
        cases hk
        exact hf
      | succ k =>
        have hv := hr k value hk
        rwa [Nat.add_assoc, Nat.add_comm length, ← Nat.mul_succ] at hv
    · rintro ⟨hl, hv, rfl⟩
      cases values with
      | nil => contradiction
      | cons first rest =>
        refine ⟨first, _, ⟨by simpa using hv 0 first rfl, rfl⟩, rest, _,
          ⟨by simpa using hl, fun k value hk => ?_, rfl⟩, rfl, by rw [Nat.mul_add]; omega⟩
        have hs := hv (k + 1) value hk
        rwa [Nat.mul_succ, Nat.add_comm _ length, ← Nat.add_assoc] at hs

-- ---------------------------------------------------------------------------
-- Values alone
-- ---------------------------------------------------------------------------

/-- The values that a reader gives are those with `Given`, wherever it starts. -/
def Gives (reader : Reader α) (bytes : ByteArray) (Given : α → Prop) : Prop :=
  ∀ position value, reader.value bytes position = .ok value ↔ Given value

theorem Gives.pure (value : α) : Gives (Pure.pure value) bytes fun other => other = value := by
  intro position other
  rw [value_pure, Except.ok.injEq, eq_comm]

theorem Gives.seek_bind {start : Nat} {next : Unit → Reader α} {Given : α → Prop}
    (h : ∀ value, (next ()).value bytes start = .ok value ↔ Given value) :
    Gives (seek start >>= next) bytes Given :=
  fun _ value => h value

theorem value_bind_ok_iff {first : Reader α} {next : α → Reader β} {First Next : α → Prop}
    {value : β} (hf : Gives first bytes First)
    (hn : ∀ given position, (next given).value bytes position = .ok value ↔ Next given)
    (position : Nat) :
    (first >>= next).value bytes position = .ok value ↔ ∃ given, First given ∧ Next given := by
  simp only [value_eq_ok, run_bind_ok] at hn ⊢
  constructor
  · rintro ⟨after, given, middle, hg, hv⟩
    exact ⟨given, (hf position given).mp (value_eq_ok.mpr ⟨_, hg⟩),
      (hn given middle).mp ⟨_, hv⟩⟩
  · rintro ⟨given, hg, hv⟩
    obtain ⟨middle, hm⟩ := value_eq_ok.mp ((hf position given).mpr hg)
    obtain ⟨after, ha⟩ := (hn given middle).mpr hv
    exact ⟨after, given, middle, hm, ha⟩

theorem Gives.bind {first : Reader α} {next : α → Reader β} {First : α → Prop}
    {Next : α → β → Prop} (hf : Gives first bytes First)
    (hn : ∀ value, Gives (next value) bytes (Next value)) :
    Gives (first >>= next) bytes fun value => ∃ given, First given ∧ Next given value :=
  fun position value => value_bind_ok_iff hf (fun given start => hn given start value) position

theorem Gives.bind_map {first : Reader (Option α)} {next : Option α → Reader (Option β)}
    {First : Option α → Prop} (hf : Gives first bytes First) (convert : α → β)
    (hn : ∀ found, next found = Pure.pure (found.map convert)) :
    Gives (first >>= next) bytes fun value =>
      ∃ found, First found ∧ value = found.map convert :=
  hf.bind fun found => hn found ▸ .pure _

theorem Gives.filterMap {read : α → Reader (Option β)} {Given : α → Option β → Prop}
    {items : List α} (h : ∀ item ∈ items, Gives (read item) bytes (Given item)) :
    Gives (Reader.filterMap read items) bytes fun values =>
      ∃ found : List (Option β), found.length = items.length ∧
        (∀ (index : Nat) item given, items[index]? = some item → found[index]? = some given →
          Given item given) ∧
        values = found.reduceOption := by
  induction items with
  | nil =>
    intro position values
    rw [show Reader.filterMap read [] = Pure.pure [] from rfl, value_pure, Except.ok.injEq]
    constructor
    · rintro rfl
      exact ⟨[], rfl, by simp, rfl⟩
    · rintro ⟨found, hl, -, rfl⟩
      rw [List.eq_nil_of_length_eq_zero hl]
      rfl
  | cons item rest ih =>
    obtain ⟨hi, hr⟩ := List.forall_mem_cons.mp h
    have hc (first : Option β) (found : List (Option β)) :
        first.toList ++ found.reduceOption = (first :: found).reduceOption := by
      cases first <;> rfl
    intro position values
    rw [filterMap_cons]
    refine ((hi.bind fun first => (ih hr).bind fun others =>
      .pure (first.toList ++ others)) position values).trans ?_
    constructor
    · rintro ⟨first, hf, _, ⟨found, hl, hg, rfl⟩, rfl⟩
      refine ⟨first :: found, congrArg (· + 1) hl, fun index other given ho hv => ?_, hc _ _⟩
      cases index with
      | zero =>
        cases ho
        cases hv
        exact hf
      | succ index => exact hg index other given ho hv
    · rintro ⟨_ | ⟨first, found⟩, hl, hg, rfl⟩
      · contradiction
      · exact ⟨first, hg 0 item first rfl rfl, _, ⟨found, Nat.succ.inj hl,
          fun index other given => hg (index + 1) other given, rfl⟩, (hc _ _).symm⟩

theorem Gives.mapEach {read : α → Reader β} {Given : α → β → Prop} {items : List α}
    (h : ∀ item, Gives (read item) bytes (Given item)) :
    Gives (Reader.mapEach read items) bytes fun values =>
      values.length = items.length ∧
        ∀ (index : Nat) item value, items[index]? = some item → values[index]? = some value →
          Given item value := by
  induction items with
  | nil =>
    intro position values
    rw [show Reader.mapEach read [] = Pure.pure [] from rfl, value_pure, Except.ok.injEq]
    constructor
    · rintro rfl
      simp
    · rintro ⟨hl, -⟩
      exact (List.eq_nil_of_length_eq_zero hl).symm
  | cons item rest ih =>
    intro position values
    rw [mapEach_cons]
    refine (((h item).bind fun first => ih.bind fun others =>
      .pure (first :: others)) position values).trans ?_
    constructor
    · rintro ⟨first, hf, others, ⟨hl, hg⟩, rfl⟩
      refine ⟨congrArg (· + 1) hl, fun index other value ho hv => ?_⟩
      cases index with
      | zero =>
        cases ho
        cases hv
        exact hf
      | succ index => exact hg index other value ho hv
    · rintro ⟨hl, hg⟩
      cases values with
      | nil => contradiction
      | cons first others =>
        exact ⟨first, hg 0 item first rfl rfl, others, ⟨Nat.succ.inj hl,
          fun index other value => hg (index + 1) other value⟩, rfl⟩

theorem Gives.collect {step : Nat → Reader (Option α)} {Given : Nat → Option α → Prop}
    (h : ∀ index, Gives (step index) bytes (Given index)) (limit : Nat) :
    Gives (Reader.collect limit step) bytes fun values =>
      values.length ≤ limit ∧
        (∀ (index : Nat) value, values[index]? = some value → Given index (some value)) ∧
        (values.length < limit → Given values.length none) := by
  induction limit generalizing step Given with
  | zero =>
    intro position values
    rw [show Reader.collect 0 step = Pure.pure [] from rfl, value_pure, Except.ok.injEq]
    constructor
    · rintro rfl
      simp
    · rintro ⟨hl, -⟩
      exact (List.eq_nil_of_length_eq_zero (Nat.le_zero.mp hl)).symm
  | succ limit ih =>
    have hs := ih fun index => h (index + 1)
    intro position values
    rw [collect_succ]
    simp only [value_eq_ok, run_bind_ok]
    constructor
    · rintro ⟨after, found, middle, hf, hv⟩
      have hf := (h 0 position found).mp (value_eq_ok.mpr ⟨middle, hf⟩)
      cases found with
      | none =>
        obtain ⟨rfl, -⟩ := run_pure_ok.mp hv
        exact ⟨Nat.zero_le _, by simp, fun _ => hf⟩
      | some value =>
        obtain ⟨rest, _, hr, hv⟩ := run_bind_ok.mp hv
        obtain ⟨rfl, -⟩ := run_pure_ok.mp hv
        obtain ⟨hl, hg, hz⟩ := (hs middle rest).mp (value_eq_ok.mpr ⟨_, hr⟩)
        refine ⟨Nat.succ_le_succ hl, fun index other ho => ?_,
          fun hlt => hz (Nat.lt_of_succ_lt_succ hlt)⟩
        cases index with
        | zero =>
          cases ho
          exact hf
        | succ index => exact hg index other ho
    · rintro ⟨hl, hg, hz⟩
      cases values with
      | nil =>
        obtain ⟨middle, hf⟩ := value_eq_ok.mp ((h 0 position none).mpr (hz (Nat.succ_pos limit)))
        exact ⟨middle, none, middle, hf, rfl⟩
      | cons value rest =>
        obtain ⟨middle, hf⟩ := value_eq_ok.mp ((h 0 position (some value)).mpr (hg 0 value rfl))
        obtain ⟨after, hr⟩ := value_eq_ok.mp ((hs middle rest).mpr ⟨Nat.le_of_succ_le_succ hl,
          fun index other => hg (index + 1) other, fun hlt => hz (Nat.succ_lt_succ hlt)⟩)
        exact ⟨after, some value, middle, hf, run_bind_ok.mpr ⟨rest, after, hr, rfl⟩⟩

-- ---------------------------------------------------------------------------
-- Values that may not be there
-- ---------------------------------------------------------------------------

/-- The values that a reader finds are those with `Found`, wherever it starts. It may
find none. -/
def Finds (reader : Reader (Option α)) (bytes : ByteArray) (Found : α → Prop) : Prop :=
  ∀ position value, reader.value bytes position = .ok (some value) ↔ Found value

theorem Finds.some (value : α) :
    Finds (Pure.pure (Option.some value)) bytes fun other => other = value := by
  intro position other
  rw [value_pure, Except.ok.injEq, Option.some.injEq, eq_comm]

theorem Gives.bind_finds {first : Reader α} {next : α → Reader (Option β)} {First : α → Prop}
    {Next : α → β → Prop} (hf : Gives first bytes First)
    (hn : ∀ given, Finds (next given) bytes (Next given)) :
    Finds (first >>= next) bytes fun value => ∃ given, First given ∧ Next given value :=
  fun position value => value_bind_ok_iff hf (fun given start => hn given start value) position

theorem Finds.bind {first : Reader (Option α)} {next : Option α → Reader (Option β)}
    {First : α → Prop} {Next : α → β → Prop} (hf : Finds first bytes First)
    (hz : next none = Pure.pure none)
    (hn : ∀ given, First given → Finds (next (Option.some given)) bytes (Next given)) :
    Finds (first >>= next) bytes fun value => ∃ given, First given ∧ Next given value := by
  intro position value
  simp only [value_eq_ok, run_bind_ok]
  constructor
  · rintro ⟨after, given, middle, hg, hv⟩
    cases given with
    | none =>
      rw [hz, run_pure_ok] at hv
      obtain ⟨⟨⟩, -⟩ := hv
    | some given =>
      have hg := (hf position given).mp (value_eq_ok.mpr ⟨_, hg⟩)
      exact ⟨given, hg, (hn given hg middle value).mp (value_eq_ok.mpr ⟨_, hv⟩)⟩
  · rintro ⟨given, hg, hv⟩
    obtain ⟨middle, hm⟩ := value_eq_ok.mp ((hf position given).mpr hg)
    obtain ⟨after, ha⟩ := value_eq_ok.mp ((hn given hg middle value).mpr hv)
    exact ⟨after, _, middle, hm, ha⟩

end Reader

end PeCoff
