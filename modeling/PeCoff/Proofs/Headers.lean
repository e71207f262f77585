import PeCoff.Proofs.Bytes.Extent
import PeCoff.Proofs.Records

/-!
# What headers depend on

Headers are read of the bytes below the end of the section table and of the
first 64 bytes, in which an image says where its NT headers are. Whatever lies
behind has no part in them.
-/

namespace PeCoff

open Reader

-- ---------------------------------------------------------------------------
-- Extents
-- ---------------------------------------------------------------------------

theorem DataDirectory.within_read : read.Within 8 :=
  .bind within_u32 fun _ => .bind within_u32 fun _ => .pure _

theorem FileHeader.within_read : read.Within length :=
  .bind within_u16 fun _ => .bind within_i16 fun _ => .bind (.require _ _) fun _ =>
    .bind within_u32 fun _ => .bind within_u32 fun _ => .bind within_u32 fun _ =>
    .bind within_u16 fun _ => .bind within_u16 fun _ => .pure _

theorem SectionHeader.within_read : read.Within length :=
  .bind (.exact 8) fun _ => .bind within_u32 fun _ => .bind within_u32 fun _ =>
    .bind within_u32 fun _ => .bind within_u32 fun _ => .bind within_u32 fun _ =>
    .bind within_u32 fun _ => .bind within_u16 fun _ => .bind within_u16 fun _ =>
    .bind within_u32 fun _ => .pure _

namespace OptionalHeader

theorem within_readAddress (magic : OptionalMagic) :
    (readAddress (decide (magic = .pe32Plus))).Within (if magic = .pe32Plus then 8 else 4) := by
  unfold readAddress
  by_cases h : magic = .pe32Plus
  · rw [if_pos h, if_pos (decide_eq_true h)]
    exact within_u64
  · rw [if_neg h, if_neg (fun hd => h (of_decide_eq_true hd))]
    exact .bind within_u32 fun _ => .pure _

theorem within_readBody (magic : OptionalMagic) (size fixed : UInt16) :
    (readBody magic size fixed).Within
      ((if magic = .pe32Plus then 110 else 94) + 8 * ((size - fixed).toNat / 8)) := by
  have ha := within_readAddress magic
  have hd (stored : UInt32) : Within (8 * ((size - fixed).toNat / 8))
      (times (directoryCount size fixed stored) DataDirectory.read) :=
    (DataDirectory.within_read.times _).mono (Nat.mul_le_mul_left 8 (Nat.min_le_right _ _))
  unfold readBody
  extract_lets wide
  rw [show (if magic = .pe32Plus then 110 else 94) + 8 * ((size - fixed).toNat / 8) =
    1 + (1 + (4 + (4 + (4 + (4 + (4 + ((if magic = .pe32Plus then 88 else 72) +
      8 * ((size - fixed).toNat / 8)))))))) by split <;> omega]
  refine .bind within_u8 fun _ => .bind within_u8 fun _ => .bind within_u32 fun _ =>
    .bind within_u32 fun _ => .bind within_u32 fun _ => .bind within_u32 fun _ =>
    .bind within_u32 fun _ => ?_
  extract_lets behind
  have hb := fun baseOfData => show Within _ (behind baseOfData) from
    .bind ha fun _ => .bind within_u32 fun _ => .bind within_u32 fun _ =>
    .bind within_u16 fun _ => .bind within_u16 fun _ => .bind within_u16 fun _ =>
    .bind within_u16 fun _ => .bind within_u16 fun _ => .bind within_u16 fun _ =>
    .bind within_u32 fun _ => .bind within_u32 fun _ => .bind within_u32 fun _ =>
    .bind within_u32 fun _ => .bind within_u16 fun _ => .bind within_u16 fun _ =>
    .bind ha fun _ => .bind ha fun _ => .bind ha fun _ => .bind ha fun _ =>
    .bind within_u32 fun _ => .bind within_u32 fun stored => .bind (hd stored) fun _ => .pure _
  split
  next hw =>
    refine (Within.bind (.pure none) hb).mono ?_
    simp only [if_pos (show magic = .pe32Plus from hw)]
    omega
  next hw =>
    refine (within_u32.bind fun _ => Within.bind (.pure _) hb).mono ?_
    simp only [if_neg (show ¬magic = .pe32Plus from hw)]
    omega

theorem fixedSize?_eq_some {magic : OptionalMagic} {fixed : UInt16}
    (h : magic.fixedSize? = some fixed) :
    fixed.toNat = (if magic = .pe32Plus then 110 else 94) + 2 := by
  unfold OptionalMagic.fixedSize? at h
  split at h
  next hm =>
    subst hm
    cases h
    rfl
  next =>
    split at h
    next hm =>
      subst hm
      cases h
      rfl
    next => contradiction

theorem within_read (size : UInt16) : (read size).Within size.toNat := by
  intro bytes position header after h
  simp only [read, run_bind_ok, run_require_ok] at h
  obtain ⟨_, _, ⟨hs, rfl⟩, magic, middle, hm, h⟩ := h
  have hu := within_u16 _ _ _ _ hm
  split at h
  next => contradiction
  next fixed hf =>
    simp only [run_bind_ok, run_require_ok] at h
    obtain ⟨_, _, ⟨hl, rfl⟩, hb⟩ := h
    have hr := within_readBody _ _ _ _ _ _ _ hb
    have hx := fixedSize?_eq_some hf
    have hd : (size - fixed).toNat = size.toNat - fixed.toNat := UInt16.toNat_sub_of_le _ _ hl
    have hl' := UInt16.le_iff_toNat_le.mp hl
    omega

end OptionalHeader

-- ---------------------------------------------------------------------------
-- Headers of the same bytes
-- ---------------------------------------------------------------------------

namespace Headers

def tableEnd (headers : Headers) : Nat :=
  fileHeaderEnd headers.ntOffset + headers.file.sizeOfOptionalHeader.toNat +
    SectionHeader.length * headers.file.numberOfSections.toNat

variable {bytes other : ByteArray} {position after cut : Nat}

theorem run_below {sizes : Nat → Prop} {reader : Reader α} {value : α} {most : Nat}
    (hf : reader.Forward sizes) (hw : reader.Within most)
    (ha : Agree bytes other 0 0 cut) (hc : position + most ≤ cut)
    (hr : reader.run bytes position = .ok (value, after)) :
    reader.run other position = .ok (value, after) := by
  obtain ⟨-, -, hs⟩ := hf.run_ok hr
  have hl := hw _ _ _ _ hr
  exact hs (ha.mono (Nat.zero_le _) (by omega))

theorem within_refuseAnonymous (magic : UInt16) : (refuseAnonymous magic).Within 2 := by
  unfold refuseAnonymous
  split
  · exact .bind within_u16 fun _ => .require _ _
  · exact (Within.pure ()).mono (Nat.zero_le 2)

theorem run_locate {ntOffset : Option UInt32} (ha : Agree bytes other 0 0 cut)
    (hm : 0x40 ≤ cut) (hc : fileHeaderEnd ntOffset ≤ cut)
    (hr : locate.run bytes position = .ok (ntOffset, after)) :
    locate.run other position = .ok (ntOffset, after) ∧
      after + FileHeader.length = fileHeaderEnd ntOffset := by
  simp only [locate, run_bind_ok, run_seek_ok] at hr ⊢
  obtain ⟨_, _, rfl, magic, middle, hg, hr⟩ := hr
  have hg' := run_below forward_u16 within_u16 ha (by omega) hg
  split at hr
  next hz =>
    simp only [run_bind_ok, run_seek_ok, run_require_ok, run_pure_ok] at hr
    obtain ⟨_, _, rfl, offset, behind, ho, _, _, rfl, signature, _, hs, _, _, ⟨hp, rfl⟩, rfl,
      rfl⟩ := hr
    simp only [fileHeaderEnd, FileHeader.length] at hc ⊢
    refine ⟨⟨(), 0, rfl, magic, middle, hg', ?_⟩, by rw [(run_u32_ok.mp hs).2]⟩
    rw [if_pos hz]
    simp only [run_bind_ok, run_seek_ok, run_require_ok, run_pure_ok]
    exact ⟨(), _, rfl, offset, behind, run_below forward_u32 within_u32 ha (by omega) ho,
      (), _, rfl, signature, _, run_below forward_u32 within_u32 ha (by omega) hs,
      (), _, ⟨hp, rfl⟩, rfl, rfl⟩
  next hz =>
    simp only [run_bind_ok, run_seek_ok, run_pure_ok] at hr
    obtain ⟨_, last, hn, _, _, rfl, rfl, rfl⟩ := hr
    have hl := within_u16 _ _ _ _ hg
    refine ⟨⟨(), 0, rfl, magic, middle, hg', ?_⟩, Nat.zero_add _⟩
    rw [if_neg hz]
    simp only [run_bind_ok, run_seek_ok, run_pure_ok]
    exact ⟨(), last, run_below (forward_refuseAnonymous magic) (within_refuseAnonymous magic) ha
      (by omega) hn, (), _, rfl, trivial, rfl⟩

theorem within_readOptional (ntOffset : Option UInt32) (size : UInt16) :
    (readOptional ntOffset size).Within size.toNat := by
  unfold readOptional
  split
  · exact (OptionalHeader.within_read size).bind fun _ => .pure _
  · exact (Within.pure none).mono (Nat.zero_le _)

/-- The same headers stand in other bytes that are the same below the cut, however these
are laid out. -/
theorem value_read_below {headers : Headers} {loaded : Bool} (loaded' : Bool)
    (hr : (read loaded).value bytes 0 = .ok headers) (ha : Agree bytes other 0 0 cut)
    (hm : 0x40 ≤ cut) (hc : headers.tableEnd ≤ cut) :
    (read loaded').value other 0 = .ok { headers with loaded := loaded' } := by
  obtain ⟨last, hr⟩ := value_eq_ok.mp hr
  refine value_eq_ok.mpr ⟨last, ?_⟩
  simp only [read, run_bind_ok, run_seek_ok, run_pure_ok] at hr ⊢
  obtain ⟨ntOffset, start, hl, file, middle, hf, optional, _, ho, _, _, rfl, sections, _, hs, rfl,
    rfl⟩ := hr
  simp only [tableEnd] at hc
  obtain ⟨hl', he⟩ := run_locate ha hm (by omega) hl
  have hf' := FileHeader.within_read _ _ _ _ hf
  -- Each piece ends below the cut and so leads to the same next one.
  refine ⟨ntOffset, start, hl', file, middle,
    run_below FileHeader.forward_read FileHeader.within_read ha (by omega) hf, optional, _,
    run_below (forward_readOptional _ _) (within_readOptional _ _) ha (by omega) ho, (), _, rfl,
    sections, _, run_below (SectionHeader.forward_read.times _) (SectionHeader.within_read.times _)
      ha hc hs, rfl, rfl⟩

theorem loaded_of_read {headers : Headers} {loaded : Bool} {position : Nat}
    (hr : (read loaded).value bytes position = .ok headers) : headers.loaded = loaded := by
  obtain ⟨last, hr⟩ := value_eq_ok.mp hr
  simp only [read, run_bind_ok, run_pure_ok] at hr
  obtain ⟨_, _, _, _, _, _, _, _, _, _, _, _, _, _, _, rfl, _⟩ := hr
  rfl

end Headers

end PeCoff
