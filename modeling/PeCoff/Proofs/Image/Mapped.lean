import PeCoff.Proofs.Headers
import PeCoff.Proofs.Image.Copy

/-!
# Files and mapped images

A file and the image that a loader makes of it by moving all sections the same
distance away from the headers. `read_spread`: both are read alike, each in its
own layout, and positions behind the headers differ by that distance.

Sections that move by different distances are not covered.
-/

namespace PeCoff

open Reader

-- ---------------------------------------------------------------------------
-- Spread bytes
-- ---------------------------------------------------------------------------

/-- The bytes with `gap` zeros in front of those from `cut` on. -/
def spread (bytes : ByteArray) (cut gap : Nat) : ByteArray :=
  bytes.extract 0 cut ++ ⟨Array.replicate gap 0⟩ ++ bytes.extract cut bytes.size

section

variable {bytes : ByteArray} {cut : Nat} (gap : Nat) (hc : cut ≤ bytes.size)
include hc

theorem size_spread : (spread bytes cut gap).size = bytes.size + gap := by
  have hz : (ByteArray.mk (Array.replicate gap 0)).size = gap := Array.size_replicate
  simp only [spread, ByteArray.size_append, ByteArray.size_extract, hz]
  omega

theorem agree_below_spread : Agree bytes (spread bytes cut gap) 0 0 cut := by
  intro i _ hi
  have hs := size_spread gap hc
  have hp : i < (bytes.extract 0 cut).size := by
    rw [ByteArray.size_extract]
    omega
  rw [Nat.add_zero, getElem?_pos bytes i (by omega), getElem?_pos _ i (by omega)]
  simp only [spread, ByteArray.append_assoc, ByteArray.getElem_append_left hp,
    ByteArray.getElem_extract, Nat.zero_add]

theorem agree_spread : Agree bytes (spread bytes cut gap) gap cut bytes.size := by
  intro i hl hi
  have hs := size_spread gap hc
  have hp : (bytes.extract 0 cut ++ ByteArray.mk (Array.replicate gap 0)).size = cut + gap := by
    rw [ByteArray.size_append, ByteArray.size_extract]
    show min cut bytes.size - 0 + (Array.replicate gap (0 : UInt8)).size = cut + gap
    rw [Array.size_replicate]
    omega
  have hi' : cut + (i + gap - (cut + gap)) = i := by omega
  rw [getElem?_pos bytes i hi, getElem?_pos _ (i + gap) (by omega)]
  simp only [spread, ByteArray.getElem_append_right (hp ▸ Nat.add_le_add_right hl gap),
    ByteArray.getElem_extract, hp, hi']

end

def Copy.spread (bytes : ByteArray) (cut gap : Nat) (hc : cut ≤ bytes.size) : Copy where
  original := bytes
  copy := PeCoff.spread bytes cut gap
  cut := cut
  shift := gap
  agree := agree_spread gap hc

-- ---------------------------------------------------------------------------
-- Layouts
-- ---------------------------------------------------------------------------

def DebugRecord.entries (headers : Headers) (bytes : ByteArray) : List DebugEntry :=
  match headers.directoryOffset? (headers.directory .debug) false with
  | .ok (some start) =>
    ((times ((headers.directory .debug).size / DebugEntry.length).toNat DebugEntry.read).value
      bytes start).toOption.getD []
  | _ => []

/-- All that is mapped lies behind the cut in a file with these headers, and
`gap` places further on in memory. -/
structure UniformGap (headers : Headers) (bytes : ByteArray) (cut gap : Nat) : Prop where
  cut_le_size : cut ≤ bytes.size
  magic_le_cut : 0x40 ≤ cut
  tableEnd_le_cut : headers.tableEnd ≤ cut
  sections : ∀ container ∈ headers.sections, cut ≤ container.pointerToRawData.toNat ∧
    container.virtualAddress.toNat = container.pointerToRawData.toNat + gap
  codeViews : ∀ entry ∈ DebugRecord.entries headers bytes, entry.kind = .codeView →
    (entry.pointerToRawData = 0 ∧ entry.addressOfRawData = 0) ∨
    (cut ≤ entry.pointerToRawData.toNat ∧
      entry.addressOfRawData.toNat = entry.pointerToRawData.toNat + gap)

instance (headers : Headers) (bytes : ByteArray) (cut gap : Nat) :
    Decidable (UniformGap headers bytes cut gap) :=
  decidable_of_iff (cut ≤ bytes.size ∧ 0x40 ≤ cut ∧ headers.tableEnd ≤ cut ∧
      (∀ container ∈ headers.sections, cut ≤ container.pointerToRawData.toNat ∧
        container.virtualAddress.toNat = container.pointerToRawData.toNat + gap) ∧
      ∀ entry ∈ DebugRecord.entries headers bytes, entry.kind = .codeView →
        (entry.pointerToRawData = 0 ∧ entry.addressOfRawData = 0) ∨
        (cut ≤ entry.pointerToRawData.toNat ∧
          entry.addressOfRawData.toNat = entry.pointerToRawData.toNat + gap))
    ⟨fun ⟨hs, hm, ht, hc, hv⟩ => ⟨hs, hm, ht, hc, hv⟩,
      fun ⟨hs, hm, ht, hc, hv⟩ => ⟨hs, hm, ht, hc, hv⟩⟩

def Headers.mapped (headers : Headers) : Headers := { headers with loaded := true }

def Image.mapped (gap : Nat) (image : Image) : Image :=
  { image with headers := image.headers.mapped, resources := image.resources.relocate gap }

namespace UniformGap

variable {headers : Headers} {bytes : ByteArray} {cut gap : Nat}
  (hg : UniformGap headers bytes cut gap) (hl : headers.loaded = false)
include hg hl

theorem places : (Copy.spread bytes cut gap hg.cut_le_size).Places headers headers.mapped where
  optional := rfl
  sections := rfl
  offsetWithin := by
    intro container hm rva hc
    obtain ⟨-, hv⟩ := hg.sections container hm
    simp only [SectionHeader.contains, Bool.and_eq_true, decide_eq_true_eq] at hc
    have hr := UInt32.le_iff_toNat_le.mp hc.1
    have hd := UInt32.toNat_sub_of_le _ _ hc.1
    simp only [Headers.offsetWithin, Headers.mapped, hl, if_true, Bool.false_eq_true, if_false,
      Copy.spread]
    omega
  behind := by
    intro container hm rva _
    obtain ⟨hp, -⟩ := hg.sections container hm
    simp only [Headers.offsetWithin, hl, Bool.false_eq_true, if_false]
    exact Nat.le_add_right_of_le hp

theorem debugPlaced :
    (Copy.spread bytes cut gap hg.cut_le_size).DebugPlaced headers headers.mapped := by
  intro start entries after hf hr entry hm hk
  have he : DebugRecord.entries headers bytes = entries := by
    have hv := value_eq_ok.mpr ⟨after, hr⟩
    simp only [Copy.spread] at hv
    simp only [DebugRecord.entries, hf, hv]
    rfl
  have hc := hg.magic_le_cut
  simp only [Copy.CodeViewPlaced, DebugRecord.dataOffset, hl, Headers.mapped, if_true,
    Bool.false_eq_true, if_false]
  rcases hg.codeViews entry (he ▸ hm) hk with ⟨hp, ha⟩ | ⟨hp, ha⟩
  · exact .inl ⟨hp, ha⟩
  · refine .inr ⟨fun hz => ?_, fun hz => ?_, hp, ha⟩
    · rw [hz, UInt32.toNat_zero] at hp
      omega
    · rw [hz, UInt32.toNat_zero] at ha
      omega

end UniformGap

namespace Image

/-- A file and its mapped image are read alike. -/
theorem read_spread {bytes : ByteArray} {headers : Headers} {cut gap : Nat}
    (hh : (Headers.read false).value bytes 0 = .ok headers)
    (hg : UniformGap headers bytes cut gap) :
    read (spread bytes cut gap) true =
      ((read bytes false).map (mapped gap)).mapError (ReadError.relocate gap) := by
  have hp := hg.places (Headers.loaded_of_read hh)
  have hs := size_spread gap hg.cut_le_size
  have hm : (Headers.read true).value (spread bytes cut gap) 0 = .ok headers.mapped :=
    Headers.value_read_below true hh (agree_below_spread gap hg.cut_le_size) hg.magic_le_cut
      hg.tableEnd_le_cut
  have hf : directories headers.mapped (spread bytes cut gap) (cut + gap) =
      ((directories headers bytes cut).map fun image =>
        { image with headers := headers.mapped }).mapError (ReadError.relocate gap) :=
    (hp.follows_directories (hg.debugPlaced (Headers.loaded_of_read hh))
      (Nat.le_refl cut)).eq_relocate hs
  have hr : Resource.Table.ofBytes headers.mapped (spread bytes cut gap) =
      (Resource.Table.ofBytes headers bytes).relocate gap := hp.ofBytes_relocate hs
  rw [read_of_headers hm (cut + gap), read_of_headers hh cut, hf, hr]
  cases hd : directories headers bytes cut with
  | error cause => rfl
  | ok image =>
    have hi := headers_of_directories hd
    subst hi
    rfl

/-- A file whose only section holds a debug directory, a resource tree and a
CodeView record, each field given by its width and its value. -/
def sample : ByteArray :=
  ⟨(([
      (2, 0x5A4D), (58, 0), (4, 0x40),
      (4, 0x4550), (2, 0x14C), (2, 1), (12, 0), (2, 152), (2, 0),
      (2, 0x10B), (90, 0), (4, 7), (16, 0), (4, 324), (4, 40), (24, 0), (4, 296), (4, 28),
      (8, 0), (4, 96), (4, 296), (4, 96), (4, 280), (16, 0),
      (12, 0), (4, 2), (4, 26), (4, 364), (4, 348),
      (14, 0), (2, 1), (4, 16), (4, 24), (4, 364), (4, 26), (8, 0),
      (4, 0x53445352), (16, 1), (4, 1), (2, 0x61)] : List (Nat × Nat)).flatMap fun field =>
    LittleEndian.bytes field.1 field.2).toArray⟩

set_option maxRecDepth 2000 in
theorem read_spread_sample :
    ∃ headers image, (Headers.read false).value sample 0 = .ok headers ∧
      UniformGap headers sample 280 16 ∧ read sample false = .ok image ∧
      read (spread sample 280 16) true = .ok (image.mapped 16) ∧
      image.resources.rootOffset = some 308 ∧
      (image.mapped 16).resources.rootOffset = some 324 ∧
      image.database? = some ⟨⟨1, 0, 0, .replicate 8 0⟩, 1, "a"⟩ ∧
      (image.mapped 16).database? = image.database? := by
  have hh : ((Headers.read false).value sample 0).toOption.any
    (fun headers => UniformGap headers sample 280 16) = true := by decide +kernel
  have hi : (read sample false).toOption.any (fun image =>
      image.resources.rootOffset == some 308 &&
        image.database? == some ⟨⟨1, 0, 0, .replicate 8 0⟩, 1, "a"⟩) = true := by decide +kernel
  obtain ⟨headers, hh, hg⟩ := exists_ok_of_any hh
  obtain ⟨image, hi, hp⟩ := exists_ok_of_any hi
  rw [Bool.and_eq_true, beq_iff_eq, beq_iff_eq] at hp
  obtain ⟨hr, hd⟩ := hp
  have hg : UniformGap headers sample 280 16 := of_decide_eq_true hg
  have hm := read_spread hh hg
  rw [hi, map_ok] at hm
  refine ⟨headers, image, hh, hg, hi, hm, hr, ?_, hd, rfl⟩
  show image.resources.rootOffset.map (· + 16) = some 324
  rw [hr]
  rfl

end Image

end PeCoff
