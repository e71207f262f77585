import PeCoff.Proofs.Outline.Directories
import PeCoff.Proofs.Outline.Headers
import PeCoff.Proofs.Outline.Resource

/-!
# Flags in JSON

In JSON a flag set is one text, the names of its flags and a number of all bits
without a name. `flags_keep_bits`: the names are those of the bits that are set,
in the order in which they are declared, and put together with the number they
give the set again. Nothing in the text is escaped, so it is written as it is.
-/

namespace PeCoff

-- ---------------------------------------------------------------------------
-- What the text has
-- ---------------------------------------------------------------------------

namespace FlagTable

/-- The flags of a set, in the order of the table, and its bits without a name. Together
they are all its bits. -/
structure Splits (table : FlagTable) (bits : Nat) (listed : List (String × Nat)) (rest : Nat) :
    Prop where
  ordered : listed.Sublist table.flags
  complete : ∀ flag ∈ table.flags, flag ∈ listed ↔ bits.testBit flag.2 = true
  unnamed : ∀ place, rest.testBit place = true ↔
    bits.testBit place = true ∧ ∀ flag ∈ table.flags, flag.2 ≠ place
  joined : listed.foldl (fun sum flag => sum ||| 1 <<< flag.2) rest = bits

/-- The names of a set's flags and, if bits are left, their number. Only the empty set has
an empty text. -/
structure Spelled (table : FlagTable) (bits : Nat) (text : String) : Prop where
  parts : ∃ listed rest, table.Splits bits listed rest ∧
    text = " | ".intercalate (listed.map Prod.fst ++
      if rest = 0 then [] else ["0x" ++ String.ofList (Nat.toDigits 16 rest)])
  empty : text = "" ↔ bits = 0

theorem splits (table : FlagTable) (bits : Nat) :
    table.Splits bits (table.flags.filter fun flag => bits.testBit flag.2)
      (table.unknown bits) := by
  have unnamed (place : Nat) : (table.unknown bits).testBit place = true ↔
      bits.testBit place = true ∧ ∀ flag ∈ table.flags, flag.2 ≠ place := by
    rw [testBit_unknown, Bool.and_eq_true, Bool.not_eq_true', ← Bool.not_eq_true, testBit_known]
    simp only [not_exists, not_and, ne_eq]
  refine ⟨List.filter_sublist, fun flag hf => ?_, unnamed, ?_⟩
  · rw [List.mem_filter, and_iff_right hf]
  · refine Nat.eq_of_testBit_eq fun place => ?_
    rw [Bool.eq_iff_iff, testBit_foldl, unnamed]
    -- A bit that is set is that of a flag or has no name.
    constructor
    · rintro (⟨hb, -⟩ | ⟨flag, hf, rfl⟩)
      · exact hb
      · exact (List.mem_filter.mp hf).2
    · intro hb
      by_cases hn : ∃ flag ∈ table.flags, flag.2 = place
      · obtain ⟨flag, hf, rfl⟩ := hn
        exact .inr ⟨flag, List.mem_filter.mpr ⟨hf, hb⟩, rfl⟩
      · exact .inl ⟨hb, fun flag hf he => hn ⟨flag, hf, he⟩⟩

theorem Legible.spelled {table : FlagTable} (h : table.Legible) (bits : Nat) :
    table.Spelled bits (table.text bits) := by
  have hz : table.text 0 = "" := by
    have hn : table.names 0 = [] := by simp [names]
    have hu : table.unknown 0 = 0 := by simp [unknown]
    rw [text_eq, tokens, remainder, hn, hu]
    rfl
  refine ⟨⟨_, _, table.splits bits, ?_⟩, fun he => h.text_inj (he.trans hz.symm), ?_⟩
  · have hd : Numeral.hexLower 1 (table.unknown bits) =
        String.ofList (Nat.toDigits 16 (table.unknown bits)) := by
      rw [← Numeral.toList_hexLower, String.ofList_toList]
    rw [← hd]
    rfl
  · rintro rfl
    exact hz

theorem plain_text {table : FlagTable} (h : ∀ flag ∈ table.flags, Json.Plain flag.1)
    (bits : Nat) : Json.Plain (table.text bits) := by
  refine .intercalate (by decide) fun token ht => ?_
  rcases List.mem_append.mp ht with hn | hr
  · obtain ⟨flag, hf, -, rfl⟩ := mem_names.mp hn
    exact h flag hf
  · split at hr
    · contradiction
    · rw [List.mem_singleton.mp hr]
      exact .append (by decide) (Json.plain_hexLower _)

end FlagTable

-- ---------------------------------------------------------------------------
-- Flag sets
-- ---------------------------------------------------------------------------

/-- A table whose flags can be told apart, by name as by bit, and are written as they are. -/
def FlagTable.Sound (table : FlagTable) : Prop :=
  table.Legible ∧ (table.flags.map Prod.fst).Nodup ∧ (table.flags.map Prod.snd).Nodup ∧
    ∀ flag ∈ table.flags, Json.Plain flag.1

instance (table : FlagTable) : Decidable table.Sound :=
  inferInstanceAs (Decidable (_ ∧ _ ∧ _ ∧ _))

/-- No two flags share a name or a bit. Each set is spelled by its text, which JSON has
between quotes, and no other set has that text. -/
structure KeepsBits (table : FlagTable) (bits : α → Nat) (outline : α → Outline) : Prop where
  names : (table.flags.map Prod.fst).Nodup
  places : (table.flags.map Prod.snd).Nodup
  text : ∀ raw, ∃ text, table.Spelled (bits raw) text ∧ (outline raw).toJson = .text text ∧
    ∀ depth, (outline raw).toJson.pretty depth = "\"" ++ text ++ "\""
  inj : ∀ raw raw', (outline raw).toJson = (outline raw').toJson → raw = raw'

theorem FlagTable.Sound.keepsBits {table : FlagTable} (h : table.Sound) {bits : α → Nat}
    (hb : ∀ {a b}, bits a = bits b → a = b) :
    KeepsBits table bits fun raw => .flags table (bits raw) := by
  obtain ⟨hl, hn, hp, ht⟩ := h
  refine ⟨hn, hp, fun raw => ?_, fun _ _ => (Outline.Faithful.flags hl hb).inj⟩
  refine ⟨table.text (bits raw), hl.spelled _, Outline.toJson_flags _ _, fun depth => ?_⟩
  rw [Outline.toJson_flags, Json.pretty, (plain_text ht _).quote]

/-- Each kind of flag set keeps every bit of every value in JSON, by its name if it has one and
in the number otherwise. -/
theorem flags_keep_bits :
    KeepsBits Characteristics.table UInt16.toNat (fun raw => Characteristics.outline ⟨raw⟩) ∧
    KeepsBits DllCharacteristics.table UInt16.toNat
      (fun raw => DllCharacteristics.outline ⟨raw⟩) ∧
    KeepsBits SectionCharacteristics.table UInt32.toNat
      (fun raw => SectionCharacteristics.outline ⟨raw⟩) ∧
    KeepsBits ManagedFlags.table UInt32.toNat (fun raw => ManagedFlags.outline ⟨raw⟩) ∧
    KeepsBits Version.FileFlags.table UInt32.toNat
      (fun raw => Version.FileFlags.outline ⟨raw⟩) :=
  ⟨FlagTable.Sound.keepsBits (by decide +kernel) UInt16.toNat_inj.mp,
    FlagTable.Sound.keepsBits (by decide +kernel) UInt16.toNat_inj.mp,
    FlagTable.Sound.keepsBits (by decide +kernel) UInt32.toNat_inj.mp,
    FlagTable.Sound.keepsBits (by decide +kernel) UInt32.toNat_inj.mp,
    FlagTable.Sound.keepsBits (by decide +kernel) UInt32.toNat_inj.mp⟩

example : Characteristics.table.text 0x2042 = "EXECUTABLE_IMAGE | DLL | 0x40" := by decide

-- The flags of the other kinds by their masks.

example : DllCharacteristics.table.flags.map (Prod.map id (1 <<< ·)) = [
    ("HIGH_ENTROPY_VIRTUAL_ADDRESSES", 0x20), ("DYNAMIC_BASE", 0x40), ("FORCE_INTEGRITY", 0x80),
    ("NX_COMPATIBILITY", 0x100), ("NO_ISOLATION", 0x200), ("NO_SEH", 0x400), ("NO_BIND", 0x800),
    ("APPCONTAINER", 0x1000), ("WDM_DRIVER", 0x2000), ("GUARD_CF", 0x4000),
    ("TERMINAL_SERVER_AWARE", 0x8000)] := rfl

example : SectionCharacteristics.table.flags.map (Prod.map id (1 <<< ·)) = [
    ("NO_PAD", 0x8), ("CONTAINS_CODE", 0x20), ("CONTAINS_INITIALIZED_DATA", 0x40),
    ("CONTAINS_UNINITIALIZED_DATA", 0x80), ("LINK_OTHER", 0x100), ("LINK_INFO", 0x200),
    ("LINK_REMOVE", 0x800), ("LINK_COMDAT", 0x1000), ("GLOBAL_POINTER_RELATIVE", 0x8000),
    ("MEM_LOCKED", 0x40000), ("MEM_PRELOAD", 0x80000), ("ALIGN_BYTES_SHIFT_COUNT_1", 0x100000),
    ("ALIGN_BYTES_SHIFT_COUNT_2", 0x200000), ("ALIGN_BYTES_SHIFT_COUNT_4", 0x400000),
    ("ALIGN_BYTES_SHIFT_COUNT_8", 0x800000), ("LINK_NRELOC_OVFL", 0x1000000),
    ("MEM_DISCARDABLE", 0x2000000), ("MEM_NOT_CACHED", 0x4000000), ("MEM_NOT_PAGED", 0x8000000),
    ("MEM_SHARED", 0x10000000), ("MEM_EXECUTE", 0x20000000), ("MEM_READ", 0x40000000),
    ("MEM_WRITE", 0x80000000)] := rfl

example : ManagedFlags.table.flags.map (Prod.map id (1 <<< ·)) = [
    ("IL_ONLY", 0x1), ("REQUIRES_32BIT", 0x2), ("IL_LIBRARY", 0x4), ("STRONG_NAME_SIGNED", 0x8),
    ("NATIVE_ENTRY_POINT", 0x10), ("TRACK_DEBUG_DATA", 0x10000),
    ("PREFERS_32BIT", 0x20000)] := rfl

example : Version.FileFlags.table.flags.map (Prod.map id (1 <<< ·)) = [
    ("DEBUG", 0x1), ("PRERELEASE", 0x2), ("PATCHED", 0x4), ("PRIVATE_BUILD", 0x8),
    ("INFO_INFERRED", 0x10), ("SPECIAL_BUILD", 0x20)] := rfl

end PeCoff
