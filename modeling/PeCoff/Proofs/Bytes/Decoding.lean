import PeCoff.Proofs.Bytes.Access

/-!
# Reading undoes writing

A reader that takes apart what a writer puts together: it succeeds exactly where
the written form of an admissible value stands, and gives that value. A record
is taken apart field by field, so what is to be shown of it is how its fields
are written, in their order, and what its checks admit.
-/

namespace PeCoff

namespace LittleEndian

def ofU8 (n : UInt8) : List UInt8 := bytes 1 n.toNat

def ofU16 (n : UInt16) : List UInt8 := bytes 2 n.toNat

def ofU32 (n : UInt32) : List UInt8 := bytes 4 n.toNat

def ofU64 (n : UInt64) : List UInt8 := bytes 8 n.toNat

@[simp] theorem length_ofU8 (n : UInt8) : (ofU8 n).length = 1 := rfl

@[simp] theorem length_ofU16 (n : UInt16) : (ofU16 n).length = 2 := rfl

@[simp] theorem length_ofU32 (n : UInt32) : (ofU32 n).length = 4 := rfl

end LittleEndian

def Stands (bytes : ByteArray) : Nat → List UInt8 → Prop
  | _, [] => True
  | position, byte :: rest => bytes[position]? = some byte ∧ Stands bytes (position + 1) rest

variable {bytes : ByteArray} {position : Nat}

theorem stands_append {front back : List UInt8} :
    Stands bytes position (front ++ back) ↔
      Stands bytes position front ∧ Stands bytes (position + front.length) back := by
  induction front generalizing position with
  | nil => simp [Stands]
  | cons byte rest ih =>
    simp only [List.cons_append, Stands, ih, List.length_cons, and_assoc, Nat.add_right_comm,
      Nat.add_assoc]

theorem stands_flatMap {encode : α → List UInt8} {length : Nat}
    (hl : ∀ value, (encode value).length = length) {values : List α} :
    Stands bytes position (values.flatMap encode) ↔ ∀ (index : Nat) value,
      values[index]? = some value → Stands bytes (position + length * index) (encode value) := by
  induction values generalizing position with
  | nil => simp [Stands]
  | cons first rest ih =>
    have hs (index : Nat) :
        position + length + length * index = position + length * (index + 1) := by
      rw [Nat.mul_succ, Nat.add_assoc, Nat.add_comm length]
    rw [List.flatMap_cons, stands_append, hl, ih]
    simp only [hs]
    constructor
    · rintro ⟨hf, hr⟩ index value hi
      cases index with
      | zero =>
        cases hi
        exact hf
      | succ index => exact hr index value hi
    · exact fun h => ⟨h 0 first rfl, fun index value hi => h (index + 1) value hi⟩

theorem stands_iff_window {data : List UInt8} :
    Stands bytes position data ↔
      (data.length = 0 ∨ position + data.length ≤ bytes.size) ∧
        window bytes position data.length = data := by
  induction data generalizing position with
  | nil => simp [Stands]
  | cons byte rest ih =>
    rw [Stands, ih, List.length_cons]
    by_cases hp : position < bytes.size
    · rw [getElem?_pos bytes position hp, window_succ hp, Option.some.injEq, List.cons.injEq]
      constructor
      · rintro ⟨hb, hs, hw⟩
        exact ⟨.inr (by omega), hb, hw⟩
      · rintro ⟨hs, hb, hw⟩
        exact ⟨hb, by omega, hw⟩
    · rw [getElem?_neg bytes position hp]
      constructor
      · rintro ⟨hb, -⟩
        contradiction
      · rintro ⟨hs, -⟩
        omega

theorem numberAt_eq_some {width n : Nat} :
    numberAt bytes width position = some n ↔
      Stands bytes position (LittleEndian.bytes width n) ∧ n < LittleEndian.capacity width := by
  rw [numberAt_eq, stands_iff_window, LittleEndian.length_bytes]
  split
  next hs =>
    have hl : (window bytes position width).length = width := by
      simp only [window, Array.length_toList, ByteArray.size_data, ByteArray.size_extract]
      omega
    rw [Option.some.injEq]
    constructor
    · rintro rfl
      have hv := LittleEndian.value_lt (window bytes position width)
      have hb := LittleEndian.bytes_value (window bytes position width)
      rw [hl] at hv hb
      exact ⟨⟨hs, hb.symm⟩, hv⟩
    · rintro ⟨⟨-, hw⟩, hn⟩
      rw [hw, LittleEndian.value_bytes, Nat.mod_eq_of_lt hn]
  next hs => simp [hs]

namespace Reader

/-- The reader succeeds where an admissible value is written, behind what is
written, and nowhere else. -/
def Decodes (reader : Reader α) (Admissible : α → Prop) (encode : α → List UInt8) : Prop :=
  ∀ bytes position value after, reader.run bytes position = .ok (value, after) ↔
    Admissible value ∧ Stands bytes position (encode value) ∧
      after = position + (encode value).length

def DecodesAll (reader : Reader α) (encode : α → List UInt8) : Prop :=
  reader.Decodes (fun _ => True) encode

namespace Decodes

theorem congr {reader : Reader α} {Admissible Other : α → Prop} {encode : α → List UInt8}
    (h : reader.Decodes Admissible encode) (ha : ∀ value, Other value ↔ Admissible value) :
    reader.Decodes Other encode :=
  fun bytes position value after =>
    (h bytes position value after).trans (and_congr_left fun _ => (ha value).symm)

section

-- A record is read from its first field on. Of the values that may still come, `Known`
-- says what the fields so far have fixed.
variable {Known Admissible : α → Prop} {encode : α → List UInt8}

theorem start {reader : Reader α}
    (h : reader.Decodes (fun value => True ∧ Admissible value) encode) :
    reader.Decodes Admissible encode :=
  h.congr fun _ => by rw [true_and]

theorem record {value : α} (hk : Known value) (ha : Admissible value)
    (h : ∀ other, Known other → Admissible other → value = other) :
    (Pure.pure value : Reader α).Decodes (fun value => Known value ∧ Admissible value)
      fun _ => [].flatten := by
  intro bytes position found after
  rw [run_pure_ok]
  constructor
  · rintro ⟨rfl, rfl⟩
    exact ⟨⟨hk, ha⟩, trivial, rfl⟩
  · rintro ⟨⟨hf, hv⟩, -, rfl⟩
    exact ⟨(h found hf hv).symm, rfl⟩

theorem fail {cause : FormatError} (h : ∀ value, Known value → ¬Admissible value) :
    (Reader.fail cause : Reader α).Decodes (fun value => Known value ∧ Admissible value)
      encode := by
  intro bytes position value after
  constructor
  · intro hr
    contradiction
  · rintro ⟨⟨hk, ha⟩, -⟩
    exact absurd ha (h value hk)

theorem require_bind {rule : Prop} [Decidable rule] {cause : FormatError} {next : Unit → Reader α}
    (hr : ∀ value, Known value → Admissible value → rule)
    (hn : rule → (next ()).Decodes (fun value => Known value ∧ Admissible value) encode) :
    (Reader.require rule cause >>= next).Decodes (fun value => Known value ∧ Admissible value)
      encode := by
  by_cases h : rule
  · rw [Reader.require, if_pos h, pure_bind]
    exact hn h
  · rw [Reader.require, if_neg h]
    exact fail fun value hk ha => h (hr value hk ha)

/-- A part of the record, then the records with that part. How the part is written
may depend on what is admissible. -/
theorem part {first : Reader β} {next : β → Reader α} {Part : β → Prop} {write : β → List UInt8}
    {written : α → List UInt8} {rest : α → List (List UInt8)} (get : α → β)
    (hf : first.Decodes Part write)
    (hp : ∀ value, Known value → Admissible value → Part (get value))
    (hw : ∀ value, Admissible value → written value = write (get value))
    (hn : ∀ found, Part found → (next found).Decodes
      (fun value => (get value = found ∧ Known value) ∧ Admissible value)
      fun value => (rest value).flatten) :
    (first >>= next).Decodes (fun value => Known value ∧ Admissible value)
      fun value => (written value :: rest value).flatten := by
  intro bytes position value after
  simp only [run_bind_ok, List.flatten_cons, stands_append, List.length_append]
  constructor
  · rintro ⟨found, middle, hr, hv⟩
    obtain ⟨hf, hs, rfl⟩ := (hf bytes position found middle).mp hr
    obtain ⟨⟨⟨rfl, hk⟩, ha⟩, ht, rfl⟩ := (hn found hf bytes _ value after).mp hv
    rw [hw value ha]
    exact ⟨⟨hk, ha⟩, ⟨hs, ht⟩, Nat.add_assoc _ _ _⟩
  · rintro ⟨⟨hk, ha⟩, ⟨hs, ht⟩, rfl⟩
    rw [hw value ha] at hs ht ⊢
    have hg := hp value hk ha
    refine ⟨get value, _, (hf bytes position _ _).mpr ⟨hg, hs, rfl⟩, ?_⟩
    exact (hn _ hg bytes _ value _).mpr ⟨⟨⟨rfl, hk⟩, ha⟩, ht, (Nat.add_assoc _ _ _).symm⟩

theorem field {first : Reader β} {next : β → Reader α} {write : β → List UInt8}
    {rest : α → List (List UInt8)} (get : α → β) (hf : first.DecodesAll write)
    (hn : ∀ found, (next found).Decodes
      (fun value => (get value = found ∧ Known value) ∧ Admissible value)
      fun value => (rest value).flatten) :
    (first >>= next).Decodes (fun value => Known value ∧ Admissible value)
      fun value => (write (get value) :: rest value).flatten :=
  .part get hf (fun _ _ _ => trivial) (fun _ _ => rfl) fun found _ => hn found

end

theorem times {reader : Reader α} {Admissible : α → Prop} {encode : α → List UInt8}
    (h : reader.Decodes Admissible encode) (count : Nat) :
    (Reader.times count reader).Decodes
      (fun values => values.length = count ∧ ∀ value ∈ values, Admissible value)
      fun values => values.flatMap encode := by
  induction count with
  | zero =>
    intro bytes position values after
    rw [times_zero, run_pure_ok]
    constructor
    · rintro ⟨rfl, rfl⟩
      simp [Stands]
    · rintro ⟨⟨hl, -⟩, -, rfl⟩
      cases List.eq_nil_of_length_eq_zero hl
      exact ⟨rfl, rfl⟩
  | succ count ih =>
    intro bytes position values after
    simp only [times_succ, run_bind_ok, run_pure_ok]
    constructor
    · rintro ⟨value, _, hv, rest, _, hr, rfl, rfl⟩
      obtain ⟨ha, hs, rfl⟩ := (h _ _ _ _).mp hv
      obtain ⟨⟨hl, hm⟩, ht, rfl⟩ := (ih _ _ _ _).mp hr
      rw [List.flatMap_cons, stands_append, List.length_append]
      exact ⟨⟨congrArg (· + 1) hl, List.forall_mem_cons.mpr ⟨ha, hm⟩⟩, ⟨hs, ht⟩,
        Nat.add_assoc _ _ _⟩
    · rintro ⟨⟨hl, hm⟩, hs, rfl⟩
      cases values with
      | nil => contradiction
      | cons value rest =>
        obtain ⟨ha, hm⟩ := List.forall_mem_cons.mp hm
        rw [List.flatMap_cons, stands_append] at hs
        refine ⟨value, _, (h _ _ _ _).mpr ⟨ha, hs.1, rfl⟩, rest, _,
          (ih _ _ _ _).mpr ⟨⟨by simpa using hl, hm⟩, hs.2, rfl⟩, rfl, ?_⟩
        rw [List.flatMap_cons, List.length_append, Nat.add_assoc]

end Decodes

theorem ite_bind {rule : Prop} [Decidable rule] (first second : Reader α) (next : α → Reader β) :
    (if rule then first else second) >>= next =
      if rule then first >>= next else second >>= next := by
  split <;> rfl

-- ---------------------------------------------------------------------------
-- Fields
-- ---------------------------------------------------------------------------

theorem decodes_exact (count : Nat) : (exact count).DecodesAll fun data => data.toList := by
  intro bytes position data after
  simp only [run_exact_ok, stands_iff_window, Vector.length_toList, window, true_and]
  constructor
  · rintro ⟨hs, rfl, hd⟩
    exact ⟨⟨hs, by rw [hd]; rfl⟩, rfl⟩
  · rintro ⟨⟨hs, hw⟩, rfl⟩
    exact ⟨hs, rfl, Array.toList_inj.mp hw⟩

theorem run_exact_stands {count after : Nat} {data : Vector UInt8 count} :
    (exact count).run bytes position = .ok (data, after) ↔
      Stands bytes position data.toList ∧ after = position + count := by
  rw [decodes_exact count bytes position data after, true_and, Vector.length_toList]

theorem decodes_number (width : Nat) :
    (number width).Decodes (· < LittleEndian.capacity width) (LittleEndian.bytes width) := by
  intro bytes position n after
  rw [run_number_ok, numberAt_eq_some, LittleEndian.length_bytes, and_comm (a := Stands _ _ _),
    and_assoc]

theorem decodes_converted {width : Nat} {ofNat : Nat → α} {toNat : α → Nat}
    (hl : ∀ value, toNat value < LittleEndian.capacity width)
    (hv : ∀ value, ofNat (toNat value) = value)
    (hn : ∀ n, n < LittleEndian.capacity width → toNat (ofNat n) = n) :
    (number width >>= fun n => pure (ofNat n)).DecodesAll
      fun value => LittleEndian.bytes width (toNat value) := by
  intro bytes position value after
  simp only [run_bind_ok, decodes_number width _ _ _ _, run_pure_ok, LittleEndian.length_bytes,
    true_and]
  constructor
  · rintro ⟨n, _, ⟨hc, hs, rfl⟩, rfl, rfl⟩
    rw [hn n hc]
    exact ⟨hs, rfl⟩
  · rintro ⟨hs, rfl⟩
    exact ⟨toNat value, _, ⟨hl value, hs, rfl⟩, (hv value).symm, rfl⟩

theorem decodes_u8 : u8.DecodesAll LittleEndian.ofU8 :=
  decodes_converted UInt8.toNat_lt (fun _ => UInt8.ofNat_toNat)
    fun _ hn => UInt8.toNat_ofNat_of_lt' hn

theorem decodes_u16 : u16.DecodesAll LittleEndian.ofU16 :=
  decodes_converted UInt16.toNat_lt (fun _ => UInt16.ofNat_toNat)
    fun _ hn => UInt16.toNat_ofNat_of_lt' hn

theorem decodes_u32 : u32.DecodesAll LittleEndian.ofU32 :=
  decodes_converted UInt32.toNat_lt (fun _ => UInt32.ofNat_toNat)
    fun _ hn => UInt32.toNat_ofNat_of_lt' hn

theorem decodes_u64 : u64.DecodesAll LittleEndian.ofU64 :=
  decodes_converted UInt64.toNat_lt (fun _ => UInt64.ofNat_toNat)
    fun _ hn => UInt64.toNat_ofNat_of_lt' hn

theorem decodes_i16 : i16.DecodesAll fun n => LittleEndian.ofU16 n.toUInt16 := by
  intro bytes position n after
  simp only [i16, run_bind_ok, decodes_u16 _ _ _ _, run_pure_ok, true_and]
  constructor
  · rintro ⟨stored, _, ⟨hs, rfl⟩, rfl, rfl⟩
    exact ⟨hs, rfl⟩
  · rintro ⟨hs, rfl⟩
    exact ⟨n.toUInt16, _, ⟨hs, rfl⟩, rfl, rfl⟩

end Reader

theorem u16At_eq_some {number : UInt16} :
    u16At bytes position = some number ↔ Stands bytes position (LittleEndian.ofU16 number) := by
  have h : Reader.u16.run bytes position = .ok (number, position + 2) ↔ _ := Reader.run_u16_ok
  rw [Reader.decodes_u16 bytes position number _] at h
  simpa using h.symm

theorem u32At_eq_some {number : UInt32} :
    u32At bytes position = some number ↔ Stands bytes position (LittleEndian.ofU32 number) := by
  have h : Reader.u32.run bytes position = .ok (number, position + 4) ↔ _ := Reader.run_u32_ok
  rw [Reader.decodes_u32 bytes position number _] at h
  simpa using h.symm

end PeCoff
