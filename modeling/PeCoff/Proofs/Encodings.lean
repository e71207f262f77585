import PeCoff.Image
import PeCoff.Proofs.Bytes.Decoding

/-!
# How records are written

Each record of the format is written field by field, in the order of its
declaration, every number with its low byte first. `records_round_trip`: reading
a record and writing it undo each other, and no reader accepts anything else.

Text, trees and whole images are not among these records.
-/

namespace PeCoff

open LittleEndian Reader

/-- The reader and the writer of a record of a known length undo each other. -/
structure Reader.RoundTrips (reader : Reader α) (length : α → Nat) (encode : α → List UInt8)
    (Admissible : α → Prop) : Prop where
  of_run : ∀ {bytes position value after}, reader.run bytes position = .ok (value, after) →
    Admissible value ∧ Stands bytes position (encode value) ∧ after = position + length value
  run_encode : ∀ {bytes position value}, Admissible value → Stands bytes position (encode value) →
    reader.run bytes position = .ok (value, position + length value)
  length_encode : ∀ {value}, Admissible value → (encode value).length = length value

theorem Reader.Decodes.roundTrips {reader : Reader α} {length : α → Nat} {encode : α → List UInt8}
    {Admissible : α → Prop} (h : reader.Decodes Admissible encode)
    (hl : ∀ value, Admissible value → (encode value).length = length value) :
    reader.RoundTrips length encode Admissible where
  of_run hr := by
    obtain ⟨ha, hs, rfl⟩ := (h _ _ _ _).mp hr
    exact ⟨ha, hs, by rw [hl _ ha]⟩
  run_encode ha hs := (h _ _ _ _).mpr ⟨ha, hs, by rw [hl _ ha]⟩
  length_encode := hl _

theorem zero_le_toInt16 (n : UInt16) : 0 ≤ n.toInt16 ↔ n.toNat < 0x8000 := by
  have hn := n.toNat_lt
  rw [Int16.le_iff_toInt_le, show n.toInt16.toInt = n.toBitVec.toInt from rfl,
    BitVec.toInt_eq_toNat_cond]
  show (0 : Int) ≤ (if 2 * n.toNat < 0x10000 then (n.toNat : Int) else n.toNat - 0x10000) ↔ _
  split <;> omega

-- ---------------------------------------------------------------------------
-- Headers
-- ---------------------------------------------------------------------------

namespace DataDirectory

def encode (directory : DataDirectory) : List UInt8 :=
  [ofU32 directory.rva, ofU32 directory.size].flatten

theorem decodes_read : read.DecodesAll encode := by
  refine .start <| .field rva decodes_u32 fun _ => .field size decodes_u32 fun _ => ?_
  refine .record (by simp) trivial fun other h _ => ?_
  iterate 2 obtain ⟨rfl, h⟩ := h
  rfl

end DataDirectory

namespace FileHeader

def encode (header : FileHeader) : List UInt8 :=
  [ofU16 header.machine.code, ofU16 header.numberOfSections, ofU32 header.timeDateStamp,
    ofU32 header.pointerToSymbolTable, ofU32 header.numberOfSymbols,
    ofU16 header.sizeOfOptionalHeader, ofU16 header.characteristics.bits].flatten

/-- The count of sections is a signed number that is not negative. -/
def Admissible (header : FileHeader) : Prop := header.numberOfSections.toNat < 0x8000

theorem decodes_read : read.Decodes Admissible encode := by
  refine .start <| .field (machine · |>.code) decodes_u16 fun _ => ?_
  refine .field (numberOfSections · |>.toInt16) decodes_i16 fun count => ?_
  refine .require_bind ?_ fun hc => ?_
  · rintro header ⟨rfl, -⟩ ha
    exact (zero_le_toInt16 _).mpr ha
  refine .field timeDateStamp decodes_u32 fun _ => .field pointerToSymbolTable decodes_u32 fun _ =>
    .field numberOfSymbols decodes_u32 fun _ => .field sizeOfOptionalHeader decodes_u16 fun _ =>
    .field (characteristics · |>.bits) decodes_u16 fun _ => ?_
  refine .record (by simp) ((zero_le_toInt16 count.toUInt16).mp hc) fun other h _ => ?_
  iterate 7 obtain ⟨rfl, h⟩ := h
  rfl

end FileHeader

namespace SectionHeader

def encode (header : SectionHeader) : List UInt8 :=
  [header.name.toList, ofU32 header.virtualSize, ofU32 header.virtualAddress,
    ofU32 header.sizeOfRawData, ofU32 header.pointerToRawData, ofU32 header.pointerToRelocations,
    ofU32 header.pointerToLineNumbers, ofU16 header.numberOfRelocations,
    ofU16 header.numberOfLineNumbers, ofU32 header.characteristics.bits].flatten

theorem decodes_read : read.DecodesAll encode := by
  refine .start <| .field name (decodes_exact 8) fun _ => .field virtualSize decodes_u32 fun _ =>
    .field virtualAddress decodes_u32 fun _ => .field sizeOfRawData decodes_u32 fun _ =>
    .field pointerToRawData decodes_u32 fun _ => .field pointerToRelocations decodes_u32 fun _ =>
    .field pointerToLineNumbers decodes_u32 fun _ => .field numberOfRelocations decodes_u16 fun _ =>
    .field numberOfLineNumbers decodes_u16 fun _ =>
    .field (characteristics · |>.bits) decodes_u32 fun _ => ?_
  refine .record (by simp) trivial fun other h _ => ?_
  iterate 10 obtain ⟨rfl, h⟩ := h
  rfl

end SectionHeader

-- ---------------------------------------------------------------------------
-- The optional header
-- ---------------------------------------------------------------------------

namespace OptionalHeader

def addressWidth (magic : OptionalMagic) : Nat := if magic = .pe32Plus then 8 else 4

def fixedLength (magic : OptionalMagic) : Nat := if magic = .pe32Plus then 112 else 96

def encodeAddress (magic : OptionalMagic) (address : UInt64) : List UInt8 :=
  bytes (addressWidth magic) address.toNat

def encodeBaseOfData : Option UInt32 → List UInt8
  | some base => ofU32 base
  | none => []

def fields (header : OptionalHeader) : List (List UInt8) :=
  [ofU8 header.majorLinkerVersion, ofU8 header.minorLinkerVersion, ofU32 header.sizeOfCode,
    ofU32 header.sizeOfInitializedData, ofU32 header.sizeOfUninitializedData,
    ofU32 header.addressOfEntryPoint, ofU32 header.baseOfCode,
    encodeBaseOfData header.baseOfData, encodeAddress header.magic header.imageBase,
    ofU32 header.sectionAlignment, ofU32 header.fileAlignment,
    ofU16 header.majorOperatingSystemVersion, ofU16 header.minorOperatingSystemVersion,
    ofU16 header.majorImageVersion, ofU16 header.minorImageVersion,
    ofU16 header.majorSubsystemVersion, ofU16 header.minorSubsystemVersion,
    ofU32 header.win32VersionValue, ofU32 header.sizeOfImage, ofU32 header.sizeOfHeaders,
    ofU32 header.checksum, ofU16 header.subsystem.code, ofU16 header.dllCharacteristics.bits,
    encodeAddress header.magic header.sizeOfStackReserve,
    encodeAddress header.magic header.sizeOfStackCommit,
    encodeAddress header.magic header.sizeOfHeapReserve,
    encodeAddress header.magic header.sizeOfHeapCommit, ofU32 header.loaderFlags,
    ofU32 header.numberOfRvaAndSizes, header.dataDirectories.flatMap DataDirectory.encode]

def encode (header : OptionalHeader) : List UInt8 :=
  (ofU16 header.magic.code :: header.fields).flatten

def AddressFits (magic : OptionalMagic) (address : UInt64) : Prop :=
  magic = .pe32Plus ∨ address.toNat < 0x100000000

structure Admissible (size : UInt16) (header : OptionalHeader) : Prop where
  magic : header.magic = .pe32 ∨ header.magic = .pe32Plus
  fixed : fixedLength header.magic ≤ size.toNat
  baseOfData : header.baseOfData.isSome ↔ header.magic = .pe32
  imageBase : AddressFits header.magic header.imageBase
  sizeOfStackReserve : AddressFits header.magic header.sizeOfStackReserve
  sizeOfStackCommit : AddressFits header.magic header.sizeOfStackCommit
  sizeOfHeapReserve : AddressFits header.magic header.sizeOfHeapReserve
  sizeOfHeapCommit : AddressFits header.magic header.sizeOfHeapCommit
  /-- As many directories as are counted, as far as there is room. -/
  dataDirectories : header.dataDirectories.length =
    min header.numberOfRvaAndSizes.toNat ((size.toNat - fixedLength header.magic) / 8)

theorem decodes_readAddress (magic : OptionalMagic) :
    (readAddress (decide (magic = .pe32Plus))).Decodes (AddressFits magic)
      (encodeAddress magic) := by
  intro bytes position address after
  unfold readAddress AddressFits encodeAddress addressWidth
  by_cases hm : magic = .pe32Plus
  · simp only [hm, decide_true, if_true, decodes_u64 _ _ _ _, true_or]
    exact Iff.rfl
  · simp only [hm, decide_false, Bool.false_eq_true, if_false, false_or, run_bind_ok,
      decodes_u32 _ _ _ _, run_pure_ok, true_and]
    constructor
    · rintro ⟨stored, _, ⟨hs, rfl⟩, rfl, rfl⟩
      have hn : stored.toUInt64.toNat = stored.toNat := UInt32.toNat_toUInt64 stored
      rw [hn]
      exact ⟨stored.toNat_lt, hs, rfl⟩
    · rintro ⟨hf, hs, rfl⟩
      have hn : address.toUInt32.toNat = address.toNat := by
        rw [UInt64.toNat_toUInt32, Nat.mod_eq_of_lt hf]
      refine ⟨address.toUInt32, _, ⟨?_, rfl⟩, ?_, rfl⟩
      · rw [ofU32, hn]
        exact hs
      · exact UInt64.toNat_inj.mp (by rw [UInt32.toNat_toUInt64, hn])

theorem pe32_iff {magic : OptionalMagic} (h : magic = .pe32 ∨ magic = .pe32Plus) :
    magic = .pe32 ↔ ¬magic = .pe32Plus := by
  rcases h with rfl | rfl <;> decide

theorem eq_fixedLength {magic : OptionalMagic} {fixed : UInt16}
    (h : magic.fixedSize? = some fixed) :
    fixed.toNat = fixedLength magic ∧ (magic = .pe32 ∨ magic = .pe32Plus) := by
  unfold OptionalMagic.fixedSize? at h
  split at h
  next hm =>
    subst hm
    cases h
    exact ⟨rfl, .inl rfl⟩
  next =>
    split at h
    next hm =>
      subst hm
      cases h
      exact ⟨rfl, .inr rfl⟩
    next => contradiction

theorem decodes_baseOfData {wide : Prop} [Decidable wide] :
    (if wide then pure none else u32 >>= fun base => pure (some base)).Decodes
      (fun base => base.isSome ↔ ¬wide) encodeBaseOfData := by
  split
  next h =>
    intro bytes position base after
    simp only [run_pure_ok, h, not_true_eq_false, iff_false]
    cases base <;> simp [encodeBaseOfData, Stands]
  next h =>
    intro bytes position base after
    simp only [run_bind_ok, decodes_u32 _ _ _ _, run_pure_ok, true_and, h, not_false_eq_true,
      iff_true]
    constructor
    · rintro ⟨found, _, ⟨hs, rfl⟩, rfl, rfl⟩
      exact ⟨rfl, hs, rfl⟩
    · rintro ⟨hb, hs, rfl⟩
      obtain ⟨found, rfl⟩ := Option.isSome_iff_exists.mp hb
      exact ⟨found, _, ⟨hs, rfl⟩, rfl, rfl⟩

theorem decodes_readBody {magic : OptionalMagic} {size fixed : UInt16}
    (hm : magic.fixedSize? = some fixed) (hs : fixed ≤ size) :
    (readBody magic size fixed).Decodes
      (fun header => header.magic = magic ∧ Admissible size header)
      fun header => header.fields.flatten := by
  obtain ⟨hx, hk⟩ := eq_fixedLength hm
  have hl : fixedLength magic ≤ size.toNat := hx ▸ UInt16.le_iff_toNat_le.mp hs
  have hr : (size - fixed).toNat = size.toNat - fixedLength magic := by
    rw [UInt16.toNat_sub_of_le _ _ hs, hx]
  have ha := decodes_readAddress magic
  have hd (count : Nat) := DataDirectory.decodes_read.times count
  have hw (header : OptionalHeader) (address : UInt64)
      (h : header.magic = magic ∧ Admissible size header) :
      encodeAddress header.magic address = encodeAddress magic address := by rw [h.1]
  unfold readBody fields
  extract_lets wide
  refine .start <| .field majorLinkerVersion decodes_u8 fun _ =>
    .field minorLinkerVersion decodes_u8 fun _ => .field sizeOfCode decodes_u32 fun _ =>
    .field sizeOfInitializedData decodes_u32 fun _ =>
    .field sizeOfUninitializedData decodes_u32 fun _ =>
    .field addressOfEntryPoint decodes_u32 fun _ => .field baseOfCode decodes_u32 fun _ => ?_
  extract_lets behind
  rw [← bind_assoc, ← ite_bind]
  refine .part baseOfData decodes_baseOfData ?_ (fun _ _ => rfl) fun base hb =>
    .part imageBase ha ?_ (fun header => hw header _) fun _ hi =>
    .field sectionAlignment decodes_u32 fun _ => .field fileAlignment decodes_u32 fun _ =>
    .field majorOperatingSystemVersion decodes_u16 fun _ =>
    .field minorOperatingSystemVersion decodes_u16 fun _ =>
    .field majorImageVersion decodes_u16 fun _ => .field minorImageVersion decodes_u16 fun _ =>
    .field majorSubsystemVersion decodes_u16 fun _ =>
    .field minorSubsystemVersion decodes_u16 fun _ => .field win32VersionValue decodes_u32 fun _ =>
    .field sizeOfImage decodes_u32 fun _ => .field sizeOfHeaders decodes_u32 fun _ =>
    .field checksum decodes_u32 fun _ => .field (subsystem · |>.code) decodes_u16 fun _ =>
    .field (dllCharacteristics · |>.bits) decodes_u16 fun _ =>
    .part sizeOfStackReserve ha ?_ (fun header => hw header _) fun _ hsr =>
    .part sizeOfStackCommit ha ?_ (fun header => hw header _) fun _ hsc =>
    .part sizeOfHeapReserve ha ?_ (fun header => hw header _) fun _ hhr =>
    .part sizeOfHeapCommit ha ?_ (fun header => hw header _) fun _ hhc =>
    .field loaderFlags decodes_u32 fun _ => .field numberOfRvaAndSizes decodes_u32 fun stored =>
    .part dataDirectories (hd _) ?_ (fun _ _ => rfl) fun _ hn => .record (by simp) ⟨rfl, ?_⟩ ?_
  · rintro header - ⟨rfl, hv⟩
    exact hv.baseOfData.trans (pe32_iff hk)
  · rintro header - ⟨rfl, hv⟩
    exact hv.imageBase
  · rintro header - ⟨rfl, hv⟩
    exact hv.sizeOfStackReserve
  · rintro header - ⟨rfl, hv⟩
    exact hv.sizeOfStackCommit
  · rintro header - ⟨rfl, hv⟩
    exact hv.sizeOfHeapReserve
  · rintro header - ⟨rfl, hv⟩
    exact hv.sizeOfHeapCommit
  · rintro header ⟨rfl, -⟩ ⟨rfl, hv⟩
    exact ⟨by rw [hv.dataDirectories, directoryCount, hr], fun _ _ => trivial⟩
  · exact ⟨hk, hl, hb.trans (pe32_iff hk).symm, hi, hsr, hsc, hhr, hhc,
      by rw [hn.1, directoryCount, hr]⟩
  · rintro other h ⟨rfl, -⟩
    iterate 30 obtain ⟨rfl, h⟩ := h
    rfl

theorem decodes_read (size : UInt16) : (read size).Decodes (Admissible size) encode := by
  refine .start <| .require_bind ?_ fun _ => .field (magic · |>.code) decodes_u16 fun code => ?_
  · rintro header - ha
    have hf := ha.fixed
    rw [UInt16.le_iff_toNat_le]
    unfold fixedLength at hf
    show 2 ≤ size.toNat
    split at hf <;> omega
  split
  next hn =>
    refine .fail ?_
    rintro header ⟨rfl, -⟩ ha
    rcases ha.magic with hm | hm <;> rw [hm] at hn <;> contradiction
  next fixed hf =>
    obtain ⟨hx, -⟩ := eq_fixedLength hf
    refine .require_bind ?_ fun hs => (decodes_readBody hf hs).congr fun header => ?_
    · rintro header ⟨rfl, -⟩ ha
      rw [UInt16.le_iff_toNat_le, hx]
      exact ha.fixed
    · refine and_congr_left fun _ => ?_
      rw [and_true, ← OptionalMagic.mk.injEq]

end OptionalHeader

-- ---------------------------------------------------------------------------
-- Directories
-- ---------------------------------------------------------------------------

namespace ExportHeader

def encode (header : ExportHeader) : List UInt8 :=
  [ofU32 header.characteristics, ofU32 header.timeDateStamp, ofU16 header.majorVersion,
    ofU16 header.minorVersion, ofU32 header.name, ofU32 header.base,
    ofU32 header.numberOfFunctions, ofU32 header.numberOfNames, ofU32 header.addressOfFunctions,
    ofU32 header.addressOfNames, ofU32 header.addressOfNameOrdinals].flatten

theorem decodes_read : read.DecodesAll encode := by
  refine .start <|
    .field characteristics decodes_u32 fun _ => .field timeDateStamp decodes_u32 fun _ =>
    .field majorVersion decodes_u16 fun _ => .field minorVersion decodes_u16 fun _ =>
    .field name decodes_u32 fun _ => .field base decodes_u32 fun _ =>
    .field numberOfFunctions decodes_u32 fun _ => .field numberOfNames decodes_u32 fun _ =>
    .field addressOfFunctions decodes_u32 fun _ => .field addressOfNames decodes_u32 fun _ =>
    .field addressOfNameOrdinals decodes_u32 fun _ => ?_
  refine .record (by simp) trivial fun other h _ => ?_
  iterate 11 obtain ⟨rfl, h⟩ := h
  rfl

end ExportHeader

namespace ImportDescriptor

def encode (descriptor : ImportDescriptor) : List UInt8 :=
  [ofU32 descriptor.originalFirstThunk, ofU32 descriptor.timeDateStamp,
    ofU32 descriptor.forwarderChain, ofU32 descriptor.name, ofU32 descriptor.firstThunk].flatten

theorem decodes_read : read.DecodesAll encode := by
  refine .start <|
    .field originalFirstThunk decodes_u32 fun _ => .field timeDateStamp decodes_u32 fun _ =>
    .field forwarderChain decodes_u32 fun _ => .field name decodes_u32 fun _ =>
    .field firstThunk decodes_u32 fun _ => ?_
  refine .record (by simp) trivial fun other h _ => ?_
  iterate 5 obtain ⟨rfl, h⟩ := h
  rfl

end ImportDescriptor

namespace DebugEntry

def encode (entry : DebugEntry) : List UInt8 :=
  [ofU32 entry.characteristics, ofU32 entry.timeDateStamp, ofU16 entry.majorVersion,
    ofU16 entry.minorVersion, ofU32 entry.kind.code, ofU32 entry.sizeOfData,
    ofU32 entry.addressOfRawData, ofU32 entry.pointerToRawData].flatten

/-- The characteristics are reserved. -/
def Admissible (entry : DebugEntry) : Prop := entry.characteristics = 0

theorem decodes_read : read.Decodes Admissible encode := by
  refine .start <| .field characteristics decodes_u32 fun _ => ?_
  refine .require_bind ?_ fun hz => ?_
  · rintro entry ⟨rfl, -⟩ ha
    exact ha
  refine .field timeDateStamp decodes_u32 fun _ => .field majorVersion decodes_u16 fun _ =>
    .field minorVersion decodes_u16 fun _ => .field (kind · |>.code) decodes_u32 fun _ =>
    .field sizeOfData decodes_u32 fun _ => .field addressOfRawData decodes_u32 fun _ =>
    .field pointerToRawData decodes_u32 fun _ => ?_
  refine .record (by simp) hz fun other h _ => ?_
  iterate 8 obtain ⟨rfl, h⟩ := h
  rfl

end DebugEntry

namespace ManagedHeader

def encode (header : ManagedHeader) : List UInt8 :=
  [ofU32 header.statedSize, ofU16 header.majorRuntimeVersion, ofU16 header.minorRuntimeVersion,
    header.metadata.encode, ofU32 header.flags.bits, ofU32 header.entryPoint,
    header.resources.encode, header.strongNameSignature.encode, header.codeManagerTable.encode,
    header.vtableFixups.encode, header.exportAddressTableJumps.encode,
    header.managedNativeHeader.encode].flatten

theorem decodes_read : read.DecodesAll encode := by
  have hd := DataDirectory.decodes_read
  refine .start <|
    .field statedSize decodes_u32 fun _ => .field majorRuntimeVersion decodes_u16 fun _ =>
    .field minorRuntimeVersion decodes_u16 fun _ => .field metadata hd fun _ =>
    .field (flags · |>.bits) decodes_u32 fun _ => .field entryPoint decodes_u32 fun _ =>
    .field resources hd fun _ => .field strongNameSignature hd fun _ =>
    .field codeManagerTable hd fun _ => .field vtableFixups hd fun _ =>
    .field exportAddressTableJumps hd fun _ => .field managedNativeHeader hd fun _ => ?_
  refine .record (by simp) trivial fun other h _ => ?_
  iterate 12 obtain ⟨rfl, h⟩ := h
  rfl

end ManagedHeader

namespace Version.FixedInfo

def encode (info : FixedInfo) : List UInt8 :=
  [ofU32 info.signature, ofU32 info.structureVersion, ofU16 info.fileMinor, ofU16 info.fileMajor,
    ofU16 info.fileRevision, ofU16 info.fileBuild, ofU16 info.productMinor,
    ofU16 info.productMajor, ofU16 info.productRevision, ofU16 info.productBuild,
    ofU32 info.fileFlagsMask, ofU32 info.fileFlags.bits, ofU32 info.fileOs, ofU32 info.fileType,
    ofU32 info.fileSubtype, ofU32 info.fileDateHigh, ofU32 info.fileDateLow].flatten

theorem decodes_read : read.DecodesAll encode := by
  refine .start <|
    .field signature decodes_u32 fun _ => .field structureVersion decodes_u32 fun _ =>
    .field fileMinor decodes_u16 fun _ => .field fileMajor decodes_u16 fun _ =>
    .field fileRevision decodes_u16 fun _ => .field fileBuild decodes_u16 fun _ =>
    .field productMinor decodes_u16 fun _ => .field productMajor decodes_u16 fun _ =>
    .field productRevision decodes_u16 fun _ => .field productBuild decodes_u16 fun _ =>
    .field fileFlagsMask decodes_u32 fun _ => .field (fileFlags · |>.bits) decodes_u32 fun _ =>
    .field fileOs decodes_u32 fun _ => .field fileType decodes_u32 fun _ =>
    .field fileSubtype decodes_u32 fun _ => .field fileDateHigh decodes_u32 fun _ =>
    .field fileDateLow decodes_u32 fun _ => ?_
  refine .record (by simp) trivial fun other h _ => ?_
  iterate 17 obtain ⟨rfl, h⟩ := h
  rfl

end Version.FixedInfo

-- ---------------------------------------------------------------------------
-- Lengths
-- ---------------------------------------------------------------------------

theorem DataDirectory.length_encode (directory : DataDirectory) : directory.encode.length = 8 := rfl

theorem DataDirectory.length_flatMap_encode (directories : List DataDirectory) :
    (directories.flatMap encode).length = 8 * directories.length := by
  simp [List.length_flatMap, length_encode, List.map_const', Nat.mul_comm]

namespace OptionalHeader

theorem length_encodeBaseOfData {size : UInt16} {header : OptionalHeader}
    (h : header.Admissible size) :
    (encodeBaseOfData header.baseOfData).length = if header.magic = .pe32Plus then 0 else 4 := by
  have hb := h.baseOfData.trans (pe32_iff h.magic)
  cases hv : header.baseOfData with
  | none =>
    rw [hv] at hb
    rw [if_pos (by simpa using hb)]
    rfl
  | some base =>
    rw [hv] at hb
    rw [if_neg (by simpa using hb)]
    rfl

theorem length_encode {size : UInt16} {header : OptionalHeader} (h : header.Admissible size) :
    header.encode.length = fixedLength header.magic + 8 * header.dataDirectories.length := by
  have hb := length_encodeBaseOfData h
  have hd := DataDirectory.length_flatMap_encode header.dataDirectories
  have ha (address : UInt64) : (encodeAddress header.magic address).length =
      addressWidth header.magic := length_bytes _ _
  simp only [encode, fields, List.flatten_cons, List.flatten_nil, List.length_append,
    List.length_nil, length_ofU8, length_ofU16, length_ofU32, hb, hd, ha]
  unfold addressWidth fixedLength
  -- The literals are added up from the left; nested to the right they are slow to decide.
  by_cases hm : header.magic = .pe32Plus
  · simp only [if_pos hm, ← Nat.add_assoc, Nat.reduceAdd, Nat.add_zero]
  · simp only [if_neg hm, ← Nat.add_assoc, Nat.reduceAdd, Nat.add_zero]

end OptionalHeader

/-- Every record of the format is read back as it was written, and written back as it
was read. -/
theorem records_round_trip :
    DataDirectory.read.RoundTrips (fun _ => 8) DataDirectory.encode (fun _ => True) ∧
    FileHeader.read.RoundTrips (fun _ => 20) FileHeader.encode FileHeader.Admissible ∧
    SectionHeader.read.RoundTrips (fun _ => 40) SectionHeader.encode (fun _ => True) ∧
    ExportHeader.read.RoundTrips (fun _ => 40) ExportHeader.encode (fun _ => True) ∧
    ImportDescriptor.read.RoundTrips (fun _ => 20) ImportDescriptor.encode (fun _ => True) ∧
    DebugEntry.read.RoundTrips (fun _ => 28) DebugEntry.encode DebugEntry.Admissible ∧
    Version.FixedInfo.read.RoundTrips (fun _ => 52) Version.FixedInfo.encode (fun _ => True) ∧
    ManagedHeader.read.RoundTrips (fun _ => 72) ManagedHeader.encode (fun _ => True) ∧
    ∀ size, (OptionalHeader.read size).RoundTrips
      (fun header =>
        OptionalHeader.fixedLength header.magic + 8 * header.dataDirectories.length)
      OptionalHeader.encode (OptionalHeader.Admissible size) := by
  refine ⟨DataDirectory.decodes_read.roundTrips fun _ _ => rfl,
    FileHeader.decodes_read.roundTrips fun _ _ => rfl,
    SectionHeader.decodes_read.roundTrips fun header _ => ?_,
    ExportHeader.decodes_read.roundTrips fun _ _ => rfl,
    ImportDescriptor.decodes_read.roundTrips fun _ _ => rfl,
    DebugEntry.decodes_read.roundTrips fun _ _ => rfl,
    Version.FixedInfo.decodes_read.roundTrips fun _ _ => rfl,
    ManagedHeader.decodes_read.roundTrips fun _ _ => rfl,
    fun size => (OptionalHeader.decodes_read size).roundTrips fun _ => OptionalHeader.length_encode⟩
  simp [SectionHeader.encode]

end PeCoff
