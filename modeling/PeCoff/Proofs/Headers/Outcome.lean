import PeCoff.Proofs.Bytes.Causes
import PeCoff.Proofs.Bytes.Failure
import PeCoff.Proofs.Encodings
import PeCoff.Proofs.Image.Extension

/-!
# What headers are

What reading headers answers, said of the bytes alone. An image, a bare object
and what is neither differ in their first bytes; each of their parts stands at a
place that the parts before it give, and the first rule that is broken is the
answer.

`read_outcome`: bytes that reach as far as they are asked for have one of these
outcomes, and it is the answer. The section table lies behind the optional
header as this was declared, whatever of it was read.
-/

namespace PeCoff

open Reader

variable {bytes : ByteArray} {position after : Nat}

-- ---------------------------------------------------------------------------
-- What stands there
-- ---------------------------------------------------------------------------

namespace OptionalHeader

/-- The rules that a header of this declared size breaks, one at a time. -/
inductive Refuses (bytes : ByteArray) (position : Nat) (size : UInt16) : FormatError → Prop
  | tiny : size.toNat < 2 → Refuses bytes position size (.optionalHeaderSize 2 size)
  | magic {magic : UInt16} : 2 ≤ size.toNat → u16At bytes position = some magic →
      magic ≠ 0x010B → magic ≠ 0x020B → Refuses bytes position size (.optionalHeaderMagic magic)
  | pe32 : 2 ≤ size.toNat → size.toNat < 96 → u16At bytes position = some 0x010B →
      Refuses bytes position size (.optionalHeaderSize 96 size)
  | pe32Plus : 2 ≤ size.toNat → size.toNat < 112 → u16At bytes position = some 0x020B →
      Refuses bytes position size (.optionalHeaderSize 112 size)

end OptionalHeader

namespace Headers

/-- What the first bytes lead to: the NT headers of an image, or none in an object. -/
inductive Located (bytes : ByteArray) : Except FormatError (Option UInt32) → Prop
  | image {ntOffset : UInt32} : u16At bytes 0 = some 0x5A4D →
      u32At bytes 0x3C = some ntOffset → u32At bytes ntOffset.toNat = some 0x00004550 →
      Located bytes (.ok (some ntOffset))
  | unsigned {ntOffset signature : UInt32} : u16At bytes 0 = some 0x5A4D →
      u32At bytes 0x3C = some ntOffset → u32At bytes ntOffset.toNat = some signature →
      signature ≠ 0x00004550 → Located bytes (.error (.peSignature signature))
  | anonymous : u16At bytes 0 = some 0 → u16At bytes 2 = some 0xFFFF →
      Located bytes (.error .anonymousObject)
  | object {magic : UInt16} : u16At bytes 0 = some magic → magic ≠ 0x5A4D →
      (magic = 0 → ∃ second, u16At bytes 2 = some second ∧ second ≠ 0xFFFF) →
      Located bytes (.ok none)

def fileHeaderStart : Option UInt32 → Nat
  | some ntOffset => ntOffset.toNat + 4
  | none => 0

/-- The optional header, which an image has if it declares one. That of an object
is passed over. -/
inductive OptionalAt (bytes : ByteArray) :
    Option UInt32 → (size : UInt16) → Option OptionalHeader → Prop
  | object (size : UInt16) : OptionalAt bytes none size none
  | undeclared (ntOffset : UInt32) : OptionalAt bytes (some ntOffset) 0 none
  | declared {ntOffset : UInt32} {size : UInt16} {header : OptionalHeader} : size ≠ 0 →
      header.Admissible size → Stands bytes (ntOffset.toNat + 24) header.encode →
      OptionalAt bytes (some ntOffset) size (some header)

structure Found (bytes : ByteArray) (headers : Headers) : Prop where
  located : Located bytes (.ok headers.ntOffset)
  file : Stands bytes (fileHeaderStart headers.ntOffset) headers.file.encode
  sectionCount : headers.file.numberOfSections.toNat < 0x8000
  optional : OptionalAt bytes headers.ntOffset headers.file.sizeOfOptionalHeader headers.optional
  length_sections : headers.sections.length = headers.file.numberOfSections.toNat
  sections : ∀ i header, headers.sections[i]? = some header →
    Stands bytes (fileHeaderStart headers.ntOffset + 20 +
      headers.file.sizeOfOptionalHeader.toNat + 40 * i) header.encode

/-- The answers that the bytes give if there are enough of them. -/
inductive Outcome (bytes : ByteArray) (loaded : Bool) : Except FormatError Headers → Prop
  | unlocated {cause : FormatError} : Located bytes (.error cause) →
      Outcome bytes loaded (.error cause)
  | negative {ntOffset : Option UInt32} {count : UInt16} : Located bytes (.ok ntOffset) →
      u16At bytes (fileHeaderStart ntOffset + 2) = some count → 0x8000 ≤ count.toNat →
      Outcome bytes loaded (.error (.negativeSectionCount count.toInt16))
  | refused {ntOffset : UInt32} {file : FileHeader} {cause : FormatError} :
      Located bytes (.ok (some ntOffset)) → Stands bytes (ntOffset.toNat + 4) file.encode →
      file.numberOfSections.toNat < 0x8000 → file.sizeOfOptionalHeader ≠ 0 →
      OptionalHeader.Refuses bytes (ntOffset.toNat + 24) file.sizeOfOptionalHeader cause →
      Outcome bytes loaded (.error cause)
  | read {headers : Headers} : headers.loaded = loaded → headers.Found bytes →
      Outcome bytes loaded (.ok headers)

end Headers

-- ---------------------------------------------------------------------------
-- Records
-- ---------------------------------------------------------------------------

theorem FileHeader.run_read_format {cause : FormatError} :
    read.run bytes position = .error (.format cause) ↔
      ∃ count, u16At bytes (position + 2) = some count ∧ 0x8000 ≤ count.toNat ∧
        cause = .negativeSectionCount count.toInt16 := by
  have hn (count : UInt16) : ¬0 ≤ count.toInt16 ↔ 0x8000 ≤ count.toNat := by
    rw [zero_le_toInt16, Nat.not_lt]
  simp only [read, i16, bind_assoc, pure_bind, run_bind_error, run_u16_error, run_u32_error,
    run_require_error, run_u16_ok, run_pure, reduceCtorEq, and_false, false_or, or_false,
    exists_false, ReadError.format.injEq, hn]
  constructor
  · rintro ⟨machine, _, ⟨hm, rfl⟩, count, _, ⟨hc, rfl⟩, hl, rfl⟩
    exact ⟨count, hc, hl, rfl⟩
  · rintro ⟨count, hc, hl, rfl⟩
    have hs := le_of_u16At hc
    obtain ⟨machine, hm⟩ := exists_u16At (show position + 2 ≤ bytes.size by omega)
    exact ⟨machine, _, ⟨hm, rfl⟩, count, _, ⟨hc, rfl⟩, hl, rfl⟩

namespace SectionHeader

theorem length_encode (header : SectionHeader) : header.encode.length = 40 := by
  simp [encode]

theorem run_read_ok {header : SectionHeader} :
    read.run bytes position = .ok (header, after) ↔
      Stands bytes position header.encode ∧ after = position + 40 := by
  rw [decodes_read bytes position header after, length_encode, true_and]

theorem blames_read {causes : FormatError → Prop} : read.Blames causes := by
  unfold read
  refine .bind (.exact 8) fun _ => ?_
  iterate 6 refine .bind .u32 fun _ => ?_
  iterate 2 refine .bind .u16 fun _ => ?_
  exact .bind .u32 fun _ => .pure _

end SectionHeader

namespace OptionalHeader

theorem blames_readAddress {causes : FormatError → Prop} (wide : Bool) :
    (readAddress wide).Blames causes := by
  unfold readAddress
  split
  · exact .bind (.number 8) fun _ => .pure _
  · exact .bind .u32 fun _ => .pure _

theorem blames_readBody {causes : FormatError → Prop} (magic : OptionalMagic)
    (size fixed : UInt16) : (readBody magic size fixed).Blames causes := by
  have hd : DataDirectory.read.Blames causes := .bind .u32 fun _ => .bind .u32 fun _ => .pure _
  unfold readBody
  extract_lets wide
  iterate 2 refine .bind .u8 fun _ => ?_
  iterate 5 refine .bind .u32 fun _ => ?_
  extract_lets behind
  have hb (baseOfData : Option UInt32) : (behind baseOfData).Blames causes := by
    refine .bind (blames_readAddress _) fun _ => ?_
    iterate 2 refine .bind .u32 fun _ => ?_
    iterate 6 refine .bind .u16 fun _ => ?_
    iterate 4 refine .bind .u32 fun _ => ?_
    iterate 2 refine .bind .u16 fun _ => ?_
    iterate 4 refine .bind (blames_readAddress _) fun _ => ?_
    iterate 2 refine .bind .u32 fun _ => ?_
    exact .bind (hd.times _) fun _ => .pure _
  split
  · exact .bind (.pure none) hb
  · exact .bind .u32 fun _ => .bind (.pure _) hb

theorem run_checked_format {magic size : UInt16} {cause : FormatError} :
    (match OptionalMagic.fixedSize? ⟨magic⟩ with
      | none => Reader.fail (.optionalHeaderMagic magic)
      | some fixed => do
        require (fixed ≤ size) (.optionalHeaderSize fixed size)
        readBody ⟨magic⟩ size fixed : Reader OptionalHeader).run bytes position =
        .error (.format cause) ↔
      (magic ≠ 0x010B ∧ magic ≠ 0x020B ∧ cause = .optionalHeaderMagic magic) ∨
        (magic = 0x010B ∧ size.toNat < 96 ∧ cause = .optionalHeaderSize 96 size) ∨
        (magic = 0x020B ∧ size.toNat < 112 ∧ cause = .optionalHeaderSize 112 size) := by
  have hs (fixed : UInt16) : ¬fixed ≤ size ↔ size.toNat < fixed.toNat := by
    rw [UInt16.le_iff_toNat_le, Nat.not_le]
  have hb (fixed : UInt16) (position : Nat) :
      (readBody ⟨magic⟩ size fixed).run bytes position ≠ .error (.format cause) :=
    (blames_readBody _ _ _).run_ne bytes position cause
  by_cases hn : magic = 0x010B
  · subst hn
    simp [OptionalMagic.fixedSize?, OptionalMagic.pe32, run_bind_error, run_require_error, hs, hb]
  by_cases hw : magic = 0x020B
  · subst hw
    simp [OptionalMagic.fixedSize?, OptionalMagic.pe32, OptionalMagic.pe32Plus, run_bind_error,
      run_require_error, hs, hb]
  · simp [OptionalMagic.fixedSize?, OptionalMagic.pe32, OptionalMagic.pe32Plus, hn, hw,
      Reader.fail, eq_comm]

theorem run_read_format {size : UInt16} {cause : FormatError} :
    (read size).run bytes position = .error (.format cause) ↔
      Refuses bytes position size cause := by
  have hs : ¬2 ≤ size ↔ size.toNat < 2 := by
    rw [UInt16.le_iff_toNat_le, Nat.not_le]
    rfl
  simp only [read, run_bind_error, run_require_error, run_require_ok, run_u16_error, run_u16_ok,
    reduceCtorEq, and_false, false_or, ReadError.format.injEq, hs]
  constructor
  · rintro (⟨hl, rfl⟩ | ⟨_, _, ⟨hl, rfl⟩, magic, _, ⟨hm, -⟩, hc⟩)
    · exact .tiny hl
    · have hl := UInt16.le_iff_toNat_le.mp hl
      rcases run_checked_format.mp hc with ⟨hn, hw, rfl⟩ | ⟨rfl, hf, rfl⟩ | ⟨rfl, hf, rfl⟩
      · exact .magic hl hm hn hw
      · exact .pe32 hl hf hm
      · exact .pe32Plus hl hf hm
  · have hl (h : 2 ≤ size.toNat) : 2 ≤ size := UInt16.le_iff_toNat_le.mpr h
    rintro (h | ⟨h, hm, hn, hw⟩ | ⟨h, hf, hm⟩ | ⟨h, hf, hm⟩)
    · exact .inl ⟨h, rfl⟩
    · exact .inr ⟨(), _, ⟨hl h, rfl⟩, _, _, ⟨hm, rfl⟩,
        run_checked_format.mpr (.inl ⟨hn, hw, rfl⟩)⟩
    · exact .inr ⟨(), _, ⟨hl h, rfl⟩, _, _, ⟨hm, rfl⟩,
        run_checked_format.mpr (.inr (.inl ⟨rfl, hf, rfl⟩))⟩
    · exact .inr ⟨(), _, ⟨hl h, rfl⟩, _, _, ⟨hm, rfl⟩,
        run_checked_format.mpr (.inr (.inr ⟨rfl, hf, rfl⟩))⟩

end OptionalHeader

-- ---------------------------------------------------------------------------
-- Locating
-- ---------------------------------------------------------------------------

namespace Headers

variable {ntOffset : Option UInt32} {cause : FormatError}

theorem run_refuseAnonymous_ok {magic : UInt16} :
    (∃ answer after, (refuseAnonymous magic).run bytes position = .ok (answer, after)) ↔
      (magic = 0 → ∃ second, u16At bytes position = some second ∧ second ≠ 0xFFFF) := by
  unfold refuseAnonymous
  split
  next hz =>
    simp only [run_bind_ok, run_u16_ok, run_require_ok, hz, forall_const]
    constructor
    · rintro ⟨_, _, second, _, ⟨hs, -⟩, hn, -⟩
      exact ⟨second, hs, hn⟩
    · rintro ⟨second, hs, hn⟩
      exact ⟨(), _, second, _, ⟨hs, rfl⟩, hn, rfl⟩
  next hz => simp [hz]

theorem run_refuseAnonymous_format {magic : UInt16} :
    (refuseAnonymous magic).run bytes position = .error (.format cause) ↔
      magic = 0 ∧ u16At bytes position = some 0xFFFF ∧ cause = .anonymousObject := by
  unfold refuseAnonymous
  split
  next hz =>
    simp only [run_bind_error, run_u16_error, run_u16_ok, run_require_error, hz, reduceCtorEq,
      and_false, false_or, ne_eq, Decidable.not_not, ReadError.format.injEq, true_and]
    constructor
    · rintro ⟨_, _, ⟨hs, -⟩, rfl, rfl⟩
      exact ⟨hs, rfl⟩
    · rintro ⟨hs, rfl⟩
      exact ⟨_, _, ⟨hs, rfl⟩, rfl, rfl⟩
  next hz => simp [hz]

theorem run_locate_ok :
    locate.run bytes position = .ok (ntOffset, after) ↔
      Located bytes (.ok ntOffset) ∧ after = fileHeaderStart ntOffset := by
  simp only [locate, run_bind_ok, run_seek_ok, run_u16_ok]
  constructor
  · rintro ⟨_, _, rfl, magic, _, ⟨hm, rfl⟩, hr⟩
    split at hr
    next hz =>
      subst hz
      simp only [run_bind_ok, run_seek_ok, run_u32_ok, run_require_ok, run_pure_ok] at hr
      obtain ⟨_, _, rfl, start, _, ⟨ho, rfl⟩, _, _, rfl, _, _, ⟨hs, rfl⟩, _, _, ⟨rfl, rfl⟩, rfl,
        rfl⟩ := hr
      exact ⟨.image hm ho hs, rfl⟩
    next hz =>
      simp only [run_bind_ok, run_seek_ok, run_pure_ok] at hr
      obtain ⟨_, _, hn, _, _, rfl, rfl, rfl⟩ := hr
      exact ⟨.object hm hz (run_refuseAnonymous_ok.mp ⟨_, _, hn⟩), rfl⟩
  · rintro ⟨hl, rfl⟩
    cases hl with
    | image hm ho hs =>
      refine ⟨(), _, rfl, _, _, ⟨hm, rfl⟩, ?_⟩
      rw [if_pos rfl]
      simp only [run_bind_ok, run_seek_ok, run_u32_ok, run_require_ok, run_pure_ok]
      exact ⟨(), _, rfl, _, _, ⟨ho, rfl⟩, (), _, rfl, _, _, ⟨hs, rfl⟩, (), _, ⟨rfl, rfl⟩, rfl, rfl⟩
    | object hm hz hn =>
      obtain ⟨_, _, hn⟩ := run_refuseAnonymous_ok.mpr hn
      refine ⟨(), _, rfl, _, _, ⟨hm, rfl⟩, ?_⟩
      rw [if_neg hz]
      simp only [run_bind_ok, run_seek_ok, run_pure_ok]
      exact ⟨_, _, hn, (), _, rfl, trivial, rfl⟩

theorem run_locate_format :
    locate.run bytes position = .error (.format cause) ↔ Located bytes (.error cause) := by
  have hk (target start : Nat) : (seek target).run bytes start ≠ .error (.format cause) := nofun
  simp only [locate, run_bind_error, run_seek_ok, run_u16_ok, run_u16_error, hk, reduceCtorEq,
    and_false, false_or]
  constructor
  · rintro ⟨_, _, rfl, magic, _, ⟨hm, rfl⟩, hr⟩
    split at hr
    next hz =>
      subst hz
      simp only [run_bind_error, run_seek_ok, run_u32_ok, run_u32_error, run_require_error, hk,
        run_pure, reduceCtorEq, and_false, false_or, or_false, exists_false,
        ReadError.format.injEq] at hr
      obtain ⟨_, _, rfl, start, _, ⟨ho, rfl⟩, _, _, rfl, signature, _, ⟨hs, rfl⟩, hn, rfl⟩ := hr
      exact .unsigned hm ho hs hn
    next hz =>
      simp only [run_bind_error, run_seek_ok, hk, run_pure, reduceCtorEq, and_false, or_false,
        exists_false, run_refuseAnonymous_format] at hr
      obtain ⟨rfl, hs, rfl⟩ := hr
      exact .anonymous hm hs
  · intro hl
    cases hl with
    | unsigned hm ho hs hn =>
      refine ⟨(), _, rfl, _, _, ⟨hm, rfl⟩, ?_⟩
      rw [if_pos rfl]
      simp only [run_bind_error, run_seek_ok, run_u32_ok, run_require_error]
      exact .inr ⟨(), _, rfl, .inr ⟨_, _, ⟨ho, rfl⟩, .inr ⟨(), _, rfl, .inr ⟨_, _, ⟨hs, rfl⟩,
        .inl ⟨hn, rfl⟩⟩⟩⟩⟩
    | anonymous hm hs =>
      refine ⟨(), _, rfl, _, _, ⟨hm, rfl⟩, ?_⟩
      rw [if_neg (by decide)]
      rw [run_bind_error]
      exact .inl (run_refuseAnonymous_format.mpr ⟨rfl, hs, rfl⟩)

-- ---------------------------------------------------------------------------
-- Reading on
-- ---------------------------------------------------------------------------

theorem fileHeaderEnd_eq (ntOffset : Option UInt32) :
    fileHeaderEnd ntOffset = fileHeaderStart ntOffset + 20 := by
  cases ntOffset <;> rfl

theorem value_readOptional_ok {size : UInt16} {optional : Option OptionalHeader} :
    (readOptional ntOffset size).value bytes (fileHeaderStart ntOffset + 20) = .ok optional ↔
      OptionalAt bytes ntOffset size optional := by
  unfold readOptional
  cases ntOffset with
  | none =>
    rw [if_neg (by simp), value_pure, Except.ok.injEq]
    constructor
    · rintro rfl
      exact .object size
    · rintro ⟨⟩
      rfl
  | some ntOffset =>
    by_cases hz : size = 0
    · subst hz
      rw [if_neg (by simp), value_pure, Except.ok.injEq]
      constructor
      · rintro rfl
        exact .undeclared ntOffset
      · rintro (_ | _ | ⟨hz, -, -⟩)
        · rfl
        · contradiction
    · rw [if_pos (by simpa using hz)]
      simp only [value_eq_ok, run_bind_ok, run_pure_ok, OptionalHeader.decodes_read size _ _ _ _]
      constructor
      · rintro ⟨_, header, _, ⟨ha, hs, -⟩, rfl, -⟩
        exact .declared hz ha hs
      · rintro (_ | _ | ⟨-, ha, hs⟩)
        · contradiction
        · exact ⟨_, _, _, ⟨ha, hs, rfl⟩, rfl, rfl⟩

theorem run_readOptional_format {size : UInt16} :
    (readOptional ntOffset size).run bytes position = .error (.format cause) ↔
      ntOffset.isSome ∧ size ≠ 0 ∧ OptionalHeader.Refuses bytes position size cause := by
  unfold readOptional
  split
  next h =>
    rw [Bool.and_eq_true, bne_iff_ne] at h
    rw [run_bind_error, OptionalHeader.run_read_format]
    simp [h]
  next h =>
    rw [Bool.and_eq_true, bne_iff_ne] at h
    simp only [run_pure, reduceCtorEq, false_iff]
    rintro ⟨hn, hz, -⟩
    exact h ⟨hn, hz⟩

variable {loaded : Bool}

def readSections (loaded : Bool) (ntOffset : Option UInt32) (file : FileHeader)
    (optional : Option OptionalHeader) : Reader Headers := do
  seek (fileHeaderEnd ntOffset + file.sizeOfOptionalHeader.toNat)
  let sections ← times file.numberOfSections.toNat SectionHeader.read
  pure { loaded, ntOffset, file, optional, sections }

theorem read_eq (loaded : Bool) : read loaded = (do
    let ntOffset ← locate
    let file ← FileHeader.read
    let optional ← readOptional ntOffset file.sizeOfOptionalHeader
    readSections loaded ntOffset file optional) := rfl

theorem value_read_ok {headers : Headers} :
    (read loaded).value bytes position = .ok headers ↔
      headers.loaded = loaded ∧ headers.Found bytes := by
  simp only [value_eq_ok, read, run_bind_ok, run_locate_ok, FileHeader.decodes_read _ _ _ _,
    run_seek_ok, run_times_ok fun _ _ _ => SectionHeader.run_read_ok, run_pure_ok,
    fileHeaderEnd_eq]
  constructor
  · rintro ⟨_, ntOffset, _, ⟨hl, rfl⟩, file, _, ⟨ha, hf, rfl⟩, optional, _, ho, _, _, rfl, sections,
      _, ⟨hn, hs, rfl⟩, rfl, rfl⟩
    exact ⟨rfl, hl, hf, ha, value_readOptional_ok.mp (value_eq_ok.mpr ⟨_, ho⟩), hn, hs⟩
  · rintro ⟨rfl, hl, hf, ha, ho, hn, hs⟩
    obtain ⟨_, ho⟩ := value_eq_ok.mp (value_readOptional_ok.mpr ho)
    exact ⟨_, _, _, ⟨hl, rfl⟩, _, _, ⟨ha, hf, rfl⟩, _, _, ho, (), _, rfl, _, _, ⟨hn, hs, rfl⟩, rfl,
      rfl⟩

theorem run_sections_ne (loaded : Bool) (ntOffset : Option UInt32) (file : FileHeader)
    (optional : Option OptionalHeader) (bytes : ByteArray) (position : Nat)
    (cause : FormatError) :
    (readSections loaded ntOffset file optional).run bytes position ≠ .error (.format cause) :=
  Blames.run_ne (.bind (.seek _) fun _ => .bind (SectionHeader.blames_read.times _) fun _ =>
    .pure _) bytes position cause

theorem value_read_format :
    (read loaded).value bytes position = .error (.format cause) ↔
      Outcome bytes loaded (.error cause) := by
  rw [value_eq_error, read_eq]
  simp only [run_bind_error, run_locate_format, run_locate_ok, FileHeader.run_read_format,
    FileHeader.decodes_read _ _ _ _, run_readOptional_format, run_sections_ne, and_false,
    exists_false, or_false]
  constructor
  · rintro (hl | ⟨ntOffset, _, ⟨hl, rfl⟩, ⟨count, hc, hn, rfl⟩ |
      ⟨file, _, ⟨ha, hf, rfl⟩, ho, hz, hr⟩⟩)
    · exact .unlocated hl
    · exact .negative hl hc hn
    · obtain ⟨ntOffset, rfl⟩ := Option.isSome_iff_exists.mp ho
      exact .refused hl hf ha hz hr
  · rintro (hl | ⟨hl, hc, hn⟩ | ⟨hl, hf, ha, hz, hr⟩)
    · exact .inl hl
    · exact .inr ⟨_, _, ⟨hl, rfl⟩, .inl ⟨_, hc, hn, rfl⟩⟩
    · exact .inr ⟨_, _, ⟨hl, rfl⟩, .inr ⟨_, _, ⟨ha, hf, rfl⟩, rfl, hz, hr⟩⟩

theorem size_lt_of_read_truncated {start requested : Nat}
    (h : (read loaded).value bytes position = .error (.truncated start requested)) :
    bytes.size < start + requested := by
  have ht : (Copy.append bytes .empty).Tracks FieldSize id (read loaded) (read loaded) :=
    Copy.tracks_headers_append loaded
  have hf := ht.value (Nat.zero_le 0)
  rw [show (read loaded).value (Copy.append bytes .empty).original 0 = _ from h] at hf
  exact hf.2.1

/-- Reading headers gives the outcome that the bytes have, and misses bytes exactly if they
have none. -/
theorem read_outcome (bytes : ByteArray) (loaded : Bool) (position : Nat) :
    (∀ outcome, (read loaded).value bytes position = outcome.mapError .format ↔
      Outcome bytes loaded outcome) ∧
    ((¬∃ outcome, Outcome bytes loaded outcome) ↔
      ∃ start requested, bytes.size < start + requested ∧
        (read loaded).value bytes position = .error (.truncated start requested)) := by
  have ho (outcome : Except FormatError Headers) :
      (read loaded).value bytes position = outcome.mapError .format ↔
        Outcome bytes loaded outcome := by
    cases outcome with
    | error cause => exact value_read_format
    | ok headers =>
      refine value_read_ok.trans ⟨fun ⟨hl, hf⟩ => .read hl hf, ?_⟩
      rintro (_ | _ | _ | ⟨hl, hf⟩)
      exact ⟨hl, hf⟩
  refine ⟨ho, fun hn => ?_, ?_⟩
  · rcases hr : (read loaded).value bytes position with (cause | ⟨start, requested⟩) | headers
    · exact absurd ⟨.error cause, (ho _).mp hr⟩ hn
    · exact ⟨start, requested, size_lt_of_read_truncated hr, rfl⟩
    · exact absurd ⟨.ok headers, (ho _).mp hr⟩ hn
  · rintro ⟨start, requested, -, hr⟩ ⟨outcome, h⟩
    rw [(ho outcome).mpr h] at hr
    cases outcome <;> cases hr

end Headers

end PeCoff
