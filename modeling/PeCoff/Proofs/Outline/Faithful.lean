import PeCoff.Outline
import PeCoff.Proofs.FlagTable
import PeCoff.Proofs.Json

/-!
# Outlines that lose nothing

An outline is faithful if JSON tells its values apart, and from a value that is
not there. Records, lists and alternatives are faithful if what they are made of
is. The outline of an optional value tells the values apart without being
faithful itself, so no optional value is shown within another.
-/

namespace PeCoff

def CodeTable.Distinct (table : CodeTable) : Prop :=
  ∀ entry ∈ table, ∀ other ∈ table, entry.2 = other.2 → entry.1 = other.1

instance (table : CodeTable) : Decidable table.Distinct :=
  inferInstanceAs (Decidable (∀ entry ∈ table, ∀ other ∈ table, entry.2 = other.2 →
    entry.1 = other.1))

theorem CodeTable.mem_of_name? {table : CodeTable} {code : Nat} {name : String}
    (h : table.name? code = some name) : (code, name) ∈ table := by
  induction table with
  | nil => contradiction
  | cons entry rest ih =>
    rw [name?, List.lookup_cons] at h
    split at h
    next hc =>
      cases h
      rw [beq_iff_eq] at hc
      exact hc ▸ List.mem_cons_self
    next => exact List.mem_cons_of_mem _ (ih h)

namespace Outline

-- ---------------------------------------------------------------------------
-- JSON of outlines
-- ---------------------------------------------------------------------------

theorem toJson_eq (outline : Outline) : outline.toJson = match outline with
    | .number value => .number value
    | .bool value => .bool value
    | .text value => .text value
    | .code table value =>
      match table.name? value with
      | some name => .text name
      | none => .object [("Other", .number value)]
    | .flags table bits => .text (table.text bits)
    | .absent => .null
    | .present value => value.toJson
    | .sequence items => .array (items.map toJson)
    | .record _ fields => .object (fields.map fun field => (field.1, field.2.toJson))
    | .alternative name value => .object [(name, value.toJson)] := by
  cases outline with
  | code table value => exact (toJson.eq_def (.code table value)).trans rfl
  | sequence items =>
    rw [toJson]
    exact congrArg Json.array List.attach_map_val
  | record title fields =>
    rw [toJson]
    exact congrArg Json.object
      (List.attach_map_val (f := fun field : String × Outline => (field.1, field.2.toJson)))
  | _ => rw [toJson]

@[simp] theorem toJson_number (value : Int) : (number value).toJson = .number value :=
  toJson_eq _

@[simp] theorem toJson_bool (value : Bool) : (bool value).toJson = .bool value :=
  toJson_eq _

@[simp] theorem toJson_text (value : String) : (text value).toJson = .text value :=
  toJson_eq _

@[simp] theorem toJson_flags (table : FlagTable) (bits : Nat) :
    (flags table bits).toJson = .text (table.text bits) :=
  toJson_eq _

@[simp] theorem toJson_absent : absent.toJson = .null :=
  toJson_eq _

@[simp] theorem toJson_present (value : Outline) : (present value).toJson = value.toJson :=
  toJson_eq _

@[simp] theorem toJson_alternative (name : String) (value : Outline) :
    (alternative name value).toJson = .object [(name, value.toJson)] :=
  toJson_eq _

@[simp] theorem toJson_sequence (items : List Outline) :
    (sequence items).toJson = .array (items.map toJson) :=
  toJson_eq _

@[simp] theorem toJson_record (title : String) (fields : List (String × Outline)) :
    (record title fields).toJson = .object (fields.map fun field => (field.1, field.2.toJson)) :=
  toJson_eq _

theorem toJson_code (table : CodeTable) (value : Nat) :
    (code table value).toJson = match table.name? value with
      | some name => .text name
      | none => .object [("Other", .number value)] :=
  toJson_eq _

-- ---------------------------------------------------------------------------
-- Faithful outlines
-- ---------------------------------------------------------------------------

/-- JSON tells the values apart, and each from nothing. -/
structure Faithful (outline : α → Outline) : Prop where
  inj : ∀ {a b}, (outline a).toJson = (outline b).toJson → a = b
  ne_null : ∀ a, (outline a).toJson ≠ .null

variable {outline : α → Outline} {a b : α}

@[simp] theorem Faithful.iff (h : Faithful outline) :
    (outline a).toJson = (outline b).toJson ↔ a = b :=
  ⟨h.inj, congrArg fun value => (outline value).toJson⟩

theorem Faithful.number {convert : α → Int} (h : ∀ {a b}, convert a = convert b → a = b) :
    Faithful fun value => .number (convert value) where
  inj he := by
    simp only [toJson_number, Json.number.injEq] at he
    exact h he
  ne_null a := by simp

@[simp] theorem faithful_nat : Faithful nat := .number Int.ofNat.inj

@[simp] theorem faithful_u8 : Faithful u8 :=
  .number fun h => UInt8.toNat_inj.mp (Int.ofNat.inj h)

@[simp] theorem faithful_u16 : Faithful u16 :=
  .number fun h => UInt16.toNat_inj.mp (Int.ofNat.inj h)

@[simp] theorem faithful_u32 : Faithful u32 :=
  .number fun h => UInt32.toNat_inj.mp (Int.ofNat.inj h)

@[simp] theorem faithful_u64 : Faithful u64 :=
  .number fun h => UInt64.toNat_inj.mp (Int.ofNat.inj h)

@[simp] theorem faithful_text : Faithful text where
  inj he := by simpa using he
  ne_null a := by simp

theorem Faithful.code {table : CodeTable} (h : table.Distinct) {toNat : α → Nat}
    (hn : ∀ {a b}, toNat a = toNat b → a = b) :
    Faithful fun value => .code table (toNat value) where
  inj {a b} he := by
    simp only [toJson_code] at he
    cases ha : table.name? (toNat a) <;> cases hb : table.name? (toNat b) <;>
      simp only [ha, hb, reduceCtorEq, Json.text.injEq, Json.object.injEq, List.cons.injEq,
        Prod.mk.injEq, Json.number.injEq, Int.ofNat_inj, and_true, true_and] at he
    · exact hn he
    · subst he
      exact hn (h _ (CodeTable.mem_of_name? ha) _ (CodeTable.mem_of_name? hb) rfl)
  ne_null a := by
    rw [toJson_code]
    cases table.name? (toNat a) <;> simp

theorem Faithful.flags {table : FlagTable} (h : table.Legible) {toNat : α → Nat}
    (hn : ∀ {a b}, toNat a = toNat b → a = b) :
    Faithful fun value => .flags table (toNat value) where
  inj he := by
    simp only [toJson_flags, Json.text.injEq] at he
    exact hn (h.text_inj he)
  ne_null a := by simp

theorem map_inj {f : α → β} {items items' : List α}
    (h : ∀ a ∈ items, ∀ b ∈ items', f a = f b → a = b) (hm : items.map f = items'.map f) :
    items = items' := by
  induction items generalizing items' with
  | nil => exact (List.map_eq_nil_iff.mp hm.symm).symm
  | cons a items ih =>
    cases items' with
    | nil => contradiction
    | cons b items' =>
      obtain ⟨hf, hr⟩ := List.cons.inj hm
      rw [h a List.mem_cons_self b List.mem_cons_self hf,
        ih (fun a ha b hb => h a (.tail _ ha) b (.tail _ hb)) hr]

@[simp] theorem Faithful.ofList (h : Faithful outline) : Faithful (ofList outline) where
  inj he := by
    simp only [Outline.ofList, toJson_sequence, List.map_map, Json.array.injEq] at he
    exact map_inj (fun a _ b _ hf => h.inj hf) he
  ne_null a := by simp [Outline.ofList]

@[simp] theorem faithful_bytes : Faithful (bytes (n := n)) where
  inj he := Vector.toList_inj.mp (faithful_u8.ofList.inj he)
  ne_null a := by simp [bytes]

@[simp] theorem Faithful.ofOption_iff (h : Faithful outline) {a b : Option α} :
    (ofOption outline a).toJson = (ofOption outline b).toJson ↔ a = b := by
  refine ⟨fun he => ?_, congrArg fun value => (ofOption outline value).toJson⟩
  cases a <;> cases b <;> simp only [ofOption, toJson_absent, toJson_present] at he
  · rfl
  · exact absurd he.symm (h.ne_null _)
  · exact absurd he (h.ne_null _)
  · rw [h.inj he]

theorem Faithful.record {title : String} {fields : α → List (String × Outline)}
    (hf : ∀ a b, ((fields a).map fun field => (field.1, field.2.toJson)) =
      ((fields b).map fun field => (field.1, field.2.toJson)) → a = b) :
    Faithful fun value => .record title (fields value) where
  inj he := by
    simp only [toJson_record, Json.object.injEq] at he
    exact hf _ _ he
  ne_null a := by simp

end Outline

end PeCoff
