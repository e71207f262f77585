import PeCoff.Proofs.Bytes.Failure
import PeCoff.Proofs.Encodings

/-!
# What version records are

A version record is 92 bytes: three numbers, a key of 16 units, a number that is
passed over and the fixed part. It is read exactly where it stands, and it stands
where the bytes are there, the units are text and the fixed part is signed.
-/

namespace PeCoff

open Reader

variable {bytes : ByteArray} {position offset : Nat}

namespace Version

/-- Each half of a version is stored low number first. -/
structure Number.At (bytes : ByteArray) (position : Nat) (number : Number) : Prop where
  minor : u16At bytes position = some number.minor
  major : u16At bytes (position + 2) = some number.major
  revision : u16At bytes (position + 4) = some number.revision
  build : u16At bytes (position + 6) = some number.build

namespace Record

/-- The units are those of the key, which does not end in a NUL, and then NULs. -/
def KeyOf (units : List UInt16) (key : String) : Prop :=
  key.toList.getLast? ≠ some '\x00' ∧
    ∃ count, units = Utf16.encode key ++ List.replicate count 0

structure At (bytes : ByteArray) (offset : Nat) (record : Record) : Prop where
  length : u16At bytes offset = some record.length
  valueLength : u16At bytes (offset + 2) = some record.valueLength
  valueType : u16At bytes (offset + 4) = some record.valueType
  key : ∃ units, unitsAt bytes 16 (offset + 6) = some units ∧ KeyOf units record.key
  signature : record.fixedInfo.signature = 0xFEEF04BD
  fixedInfo : Stands bytes (offset + 40) record.fixedInfo.encode
  fileVersion : record.fixedInfo.fileVersion.At bytes (offset + 48)
  productVersion : record.fixedInfo.productVersion.At bytes (offset + 56)

structure Present (bytes : ByteArray) (offset : Nat) : Prop where
  size : offset + 92 ≤ bytes.size
  key : ∃ text, unitsAt bytes 16 (offset + 6) = some (Utf16.encode text)
  signature : u32At bytes (offset + 40) = some 0xFEEF04BD

end Record

-- ---------------------------------------------------------------------------
-- Keys
-- ---------------------------------------------------------------------------

theorem dropWhile_eq_iff {blank : Char} {chars rest : List Char} :
    chars.dropWhile (· = blank) = rest ↔
      rest.head? ≠ some blank ∧ ∃ count, chars = List.replicate count blank ++ rest := by
  constructor
  · rintro rfl
    refine ⟨fun hh => ?_, (chars.takeWhile (· = blank)).length, ?_⟩
    · have hn := List.head?_dropWhile_not (· = blank) chars
      rw [hh] at hn
      simp at hn
    · have hr : chars.takeWhile (· = blank) =
          List.replicate (chars.takeWhile (· = blank)).length blank :=
        List.eq_replicate_iff.mpr ⟨rfl, fun c hc => by
          simpa using List.all_eq_true.mp List.all_takeWhile c hc⟩
      rw [← hr, List.takeWhile_append_dropWhile]
  · rintro ⟨hh, count, rfl⟩
    rw [List.dropWhile_append_of_pos (by simp)]
    cases rest with
    | nil => rfl
    | cons first rest => rw [List.dropWhile_cons_of_neg (by simpa using hh)]

/-- NULs are taken off the end as far as they go. -/
theorem Record.trimNuls_eq_iff {text key : String} :
    trimNuls text = key ↔ key.toList.getLast? ≠ some '\x00' ∧
      ∃ count, text.toList = key.toList ++ List.replicate count '\x00' := by
  have hk : trimNuls text = key ↔
      text.toList.reverse.dropWhile (· = '\x00') = key.toList.reverse := by
    rw [trimNuls, ← String.toList_inj, String.toList_ofList, List.reverse_eq_iff]
  rw [hk, dropWhile_eq_iff, List.head?_reverse]
  simp only [List.reverse_eq_iff, List.reverse_append, List.reverse_replicate, List.reverse_reverse]

theorem encode_nuls (chars : List Char) (count : Nat) :
    Utf16.encode (String.ofList (chars ++ List.replicate count '\x00')) =
      Utf16.encode (String.ofList chars) ++ List.replicate count 0 := by
  have hz : Utf16.unitsOf '\x00' = [0] := by decide
  simp [Utf16.encode, hz, List.flatMap_replicate]

theorem Record.keyOf_encode {text key : String} :
    KeyOf (Utf16.encode text) key ↔ trimNuls text = key := by
  have he (count : Nat) :
      Utf16.encode text = Utf16.encode key ++ List.replicate count 0 ↔
        text.toList = key.toList ++ List.replicate count '\x00' := by
    have hn := encode_nuls key.toList count
    rw [String.ofList_toList] at hn
    rw [← hn, eq_comm, ← Utf16.decode?_eq_some, Utf16.decode?_eq_some.mpr rfl, Option.some.injEq,
      ← String.toList_inj, String.toList_ofList]
  simp only [KeyOf, he, trimNuls_eq_iff]

theorem Record.KeyOf.exists_text {units : List UInt16} {key : String} (h : KeyOf units key) :
    ∃ text, units = Utf16.encode text := by
  obtain ⟨-, count, rfl⟩ := h
  have hn := encode_nuls key.toList count
  rw [String.ofList_toList] at hn
  exact ⟨_, hn.symm⟩

-- ---------------------------------------------------------------------------
-- The fixed part
-- ---------------------------------------------------------------------------

namespace FixedInfo

theorem takes_read : read.Takes [4, 4, 2, 2, 2, 2, 2, 2, 2, 2, 4, 4, 4, 4, 4, 4, 4] := by
  unfold read
  iterate 2 refine .cons .u32 fun _ => ?_
  iterate 8 refine .cons .u16 fun _ => ?_
  iterate 7 refine .cons .u32 fun _ => ?_
  exact .pure _

theorem run_read_ok {info : FixedInfo} {after : Nat} :
    read.run bytes position = .ok (info, after) ↔
      Stands bytes position info.encode ∧ after = position + 52 := by
  rw [decodes_read bytes position info after, true_and]
  rfl

theorem exists_stands (h : position + 52 ≤ bytes.size) :
    ∃ info : FixedInfo, Stands bytes position info.encode := by
  obtain ⟨info, after, hr⟩ := takes_read.firstCut_eq_none.mp (firstCut_of_le h)
  exact ⟨info, (run_read_ok.mp hr).1⟩

theorem at_of_stands {info : FixedInfo} (h : Stands bytes position info.encode) :
    u32At bytes position = some info.signature ∧ info.fileVersion.At bytes (position + 8) ∧
      info.productVersion.At bytes (position + 16) := by
  simp only [encode, List.flatten_cons, stands_append, LittleEndian.length_ofU16,
    LittleEndian.length_ofU32, Nat.add_assoc, Nat.reduceAdd, ← u16At_eq_some, ← u32At_eq_some] at h
  obtain ⟨hs, -, hf1, hf2, hf3, hf4, hp1, hp2, hp3, hp4, -⟩ := h
  exact ⟨hs, ⟨hf1, hf2, hf3, hf4⟩, ⟨hp1, hp2, hp3, hp4⟩⟩

end FixedInfo

-- ---------------------------------------------------------------------------
-- Records
-- ---------------------------------------------------------------------------

namespace Record

theorem size_of_stands {info : FixedInfo} (h : Stands bytes (offset + 40) info.encode) :
    offset + 92 ≤ bytes.size := by
  have hl : info.encode.length = 52 := rfl
  have hs := (stands_iff_window.mp h).1
  omega

theorem value_read_some {record : Record} :
    read.value bytes offset = .ok (some record) ↔ record.At bytes offset := by
  have hk : keyUnits < 2 ^ 63 := by decide
  simp only [value_eq_ok, read, run_bind_ok, run_u16_ok, run_utf16_ok hk, FixedInfo.run_read_ok]
  constructor
  · rintro ⟨_, length, _, ⟨hl, rfl⟩, valueLength, _, ⟨hv, rfl⟩, valueType, _, ⟨ht, rfl⟩, text, _,
      ⟨hk, rfl⟩, padding, _, ⟨-, rfl⟩, info, _, ⟨hi, rfl⟩, hr⟩
    split at hr
    next hs =>
      obtain ⟨hr, -⟩ := run_pure_ok.mp hr
      cases hr
      obtain ⟨-, hf, hp⟩ := FixedInfo.at_of_stands hi
      exact ⟨hl, hv, ht, ⟨_, hk, keyOf_encode.mpr rfl⟩, hs, hi, hf, hp⟩
    next hs =>
      obtain ⟨⟨⟩, -⟩ := run_pure_ok.mp hr
  · rintro ⟨hl, hv, ht, ⟨units, hu, hk⟩, hs, hi, -, -⟩
    obtain ⟨text, rfl⟩ := hk.exists_text
    have hb := size_of_stands hi
    obtain ⟨padding, hp⟩ := exists_u16At (show offset + 38 + 2 ≤ bytes.size by omega)
    refine ⟨offset + 92, _, _, ⟨hl, rfl⟩, _, _, ⟨hv, rfl⟩, _, _, ⟨ht, rfl⟩, _, _, ⟨hu, rfl⟩, _, _,
      ⟨hp, rfl⟩, _, _, ⟨hi, rfl⟩, ?_⟩
    rw [if_pos (show _ = FixedInfo.expectedSignature from hs)]
    exact run_pure_ok.mpr ⟨by rw [keyOf_encode.mp hk], rfl⟩

theorem exists_at_iff : (∃ record : Record, record.At bytes offset) ↔ Present bytes offset := by
  constructor
  · rintro ⟨record, h⟩
    obtain ⟨units, hu, hk⟩ := h.key
    obtain ⟨text, rfl⟩ := hk.exists_text
    exact ⟨size_of_stands h.fixedInfo, ⟨text, hu⟩,
      h.signature ▸ (FixedInfo.at_of_stands h.fixedInfo).1⟩
  · rintro ⟨hb, ⟨text, hu⟩, hs⟩
    obtain ⟨length, hl⟩ := exists_u16At (show offset + 2 ≤ bytes.size by omega)
    obtain ⟨valueLength, hv⟩ := exists_u16At (show offset + 2 + 2 ≤ bytes.size by omega)
    obtain ⟨valueType, ht⟩ := exists_u16At (show offset + 4 + 2 ≤ bytes.size by omega)
    obtain ⟨info, hi⟩ := FixedInfo.exists_stands (show offset + 40 + 52 ≤ bytes.size by omega)
    obtain ⟨hg, hf, hp⟩ := FixedInfo.at_of_stands hi
    exact ⟨⟨length, valueLength, valueType, trimNuls text, info⟩, hl, hv, ht,
      ⟨_, hu, keyOf_encode.mpr rfl⟩, Option.some.inj (hg.symm.trans hs), hi, hf, hp⟩

end Record

end Version

end PeCoff
