import PeCoff.Image
import PeCoff.Proofs.Bytes.Forward

/-!
# Records are read forward

The fields of every record follow each other, and no field is longer than 16
bytes. Labels and version records are the exception: their text is asked for as
one piece of any length.
-/

namespace PeCoff

namespace Reader

/-- The lengths of numbers and of other fields that are read as one piece. -/
def FieldSize (count : Nat) : Prop := count ∈ [1, 2, 4, 8, 16]

theorem forward_number {sizes : Nat → Prop} {width : Nat} (h : sizes width) :
    (number width).Forward sizes :=
  .bind (.exact h) fun _ => .pure _

theorem forward_u8 : u8.Forward FieldSize :=
  .bind (forward_number (by simp [FieldSize])) fun _ => .pure _

theorem forward_u16 : u16.Forward FieldSize :=
  .bind (forward_number (by simp [FieldSize])) fun _ => .pure _

theorem forward_u32 : u32.Forward FieldSize :=
  .bind (forward_number (by simp [FieldSize])) fun _ => .pure _

theorem forward_u64 : u64.Forward FieldSize :=
  .bind (forward_number (by simp [FieldSize])) fun _ => .pure _

theorem forward_i16 : i16.Forward FieldSize := .bind forward_u16 fun _ => .pure _

theorem forward_i32 : i32.Forward FieldSize := .bind forward_u32 fun _ => .pure _

theorem forward_terminated : terminated.Forward FieldSize := by
  refine .bind (.untilZero (by simp [FieldSize])) fun data => ?_
  split
  · exact .pure _
  · exact .fail _

end Reader

open Reader

-- ---------------------------------------------------------------------------
-- Headers
-- ---------------------------------------------------------------------------

theorem DataDirectory.forward_read : read.Forward FieldSize := by
  unfold read
  iterate 2 refine .bind forward_u32 fun _ => ?_
  exact .pure _

theorem FileHeader.forward_read : read.Forward FieldSize := by
  unfold read
  refine .bind forward_u16 fun _ => .bind forward_i16 fun _ => .bind (.require _ _) fun _ => ?_
  iterate 3 refine .bind forward_u32 fun _ => ?_
  iterate 2 refine .bind forward_u16 fun _ => ?_
  exact .pure _

theorem SectionHeader.forward_read : read.Forward FieldSize := by
  unfold read
  refine .bind (.exact (by simp [FieldSize])) fun _ => ?_
  iterate 6 refine .bind forward_u32 fun _ => ?_
  iterate 2 refine .bind forward_u16 fun _ => ?_
  exact .bind forward_u32 fun _ => .pure _

theorem OptionalHeader.forward_readAddress (wide : Bool) :
    (readAddress wide).Forward FieldSize := by
  unfold readAddress
  split
  · exact forward_u64
  · exact .bind forward_u32 fun _ => .pure _

theorem OptionalHeader.forward_readBody (magic : OptionalMagic) (size fixed : UInt16) :
    (readBody magic size fixed).Forward FieldSize := by
  unfold readBody
  extract_lets wide
  iterate 2 refine .bind forward_u8 fun _ => ?_
  iterate 5 refine .bind forward_u32 fun _ => ?_
  extract_lets behind
  have hb : ∀ baseOfData, (behind baseOfData).Forward FieldSize := by
    intro baseOfData
    refine .bind (forward_readAddress _) fun _ => ?_
    iterate 2 refine .bind forward_u32 fun _ => ?_
    iterate 6 refine .bind forward_u16 fun _ => ?_
    iterate 4 refine .bind forward_u32 fun _ => ?_
    iterate 2 refine .bind forward_u16 fun _ => ?_
    iterate 4 refine .bind (forward_readAddress _) fun _ => ?_
    iterate 2 refine .bind forward_u32 fun _ => ?_
    exact .bind (DataDirectory.forward_read.times _) fun _ => .pure _
  split
  · exact .bind (.pure none) hb
  · exact .bind forward_u32 fun _ => .bind (.pure _) hb

theorem OptionalHeader.forward_read (size : UInt16) : (read size).Forward FieldSize := by
  unfold read
  refine .bind (.require _ _) fun _ => .bind forward_u16 fun magic => ?_
  split
  · exact .fail _
  · exact .bind (.require _ _) fun _ => forward_readBody _ _ _

theorem Headers.forward_refuseAnonymous (magic : UInt16) :
    (refuseAnonymous magic).Forward FieldSize := by
  unfold refuseAnonymous
  split
  · exact .bind forward_u16 fun _ => .require _ _
  · exact .pure ()

theorem Headers.forward_readOptional (ntOffset : Option UInt32) (size : UInt16) :
    (readOptional ntOffset size).Forward FieldSize := by
  unfold readOptional
  split
  · exact .bind (OptionalHeader.forward_read size) fun _ => .pure _
  · exact .pure none

-- ---------------------------------------------------------------------------
-- Directories
-- ---------------------------------------------------------------------------

theorem ManagedHeader.forward_read : read.Forward FieldSize := by
  unfold read
  refine .bind forward_u32 fun _ => ?_
  iterate 2 refine .bind forward_u16 fun _ => ?_
  refine .bind DataDirectory.forward_read fun _ => ?_
  iterate 2 refine .bind forward_u32 fun _ => ?_
  iterate 6 refine .bind DataDirectory.forward_read fun _ => ?_
  exact .pure _

theorem ExportHeader.forward_read : read.Forward FieldSize := by
  unfold read
  iterate 2 refine .bind forward_u32 fun _ => ?_
  iterate 2 refine .bind forward_u16 fun _ => ?_
  iterate 7 refine .bind forward_u32 fun _ => ?_
  exact .pure _

theorem ImportDescriptor.forward_read : read.Forward FieldSize := by
  unfold read
  iterate 5 refine .bind forward_u32 fun _ => ?_
  exact .pure _

theorem DebugEntry.forward_read : read.Forward FieldSize := by
  unfold read
  refine .bind forward_u32 fun _ => .bind (.require _ _) fun _ => .bind forward_u32 fun _ => ?_
  iterate 2 refine .bind forward_u16 fun _ => ?_
  iterate 4 refine .bind forward_u32 fun _ => ?_
  exact .pure _

theorem Guid.forward_read : read.Forward FieldSize :=
  .bind (.exact (by simp [FieldSize])) fun _ => .pure _

theorem CodeView.forward_read : read.Forward FieldSize := by
  unfold read
  refine .bind (.exact (by simp [FieldSize])) fun _ => .bind (.require _ _) fun _ => ?_
  refine .bind Guid.forward_read fun _ => .bind forward_i32 fun _ => ?_
  exact .bind forward_terminated fun _ => .pure _

-- ---------------------------------------------------------------------------
-- Resources
-- ---------------------------------------------------------------------------

namespace Resource

theorem LevelHeader.forward_read : read.Forward FieldSize := by
  unfold read
  iterate 2 refine .bind forward_u32 fun _ => ?_
  iterate 4 refine .bind forward_u16 fun _ => ?_
  exact .pure _

theorem RawEntry.forward_read : read.Forward FieldSize := by
  unfold read
  iterate 2 refine .bind forward_u32 fun _ => ?_
  exact .pure _

end Resource

theorem Reader.forward_utf16 (count : Nat) : (utf16 count).Forward fun _ => True := by
  refine .bind (.bytes trivial) fun data => ?_
  split
  · exact .pure _
  · exact .fail _

theorem Resource.Label.forward_read : read.Forward fun _ => True := by
  unfold read
  refine .bind forward_u16.any fun length => ?_
  exact .bind (forward_utf16 _) fun _ => .pure _

theorem Version.FixedInfo.forward_read : read.Forward FieldSize := by
  unfold read
  iterate 2 refine .bind forward_u32 fun _ => ?_
  iterate 8 refine .bind forward_u16 fun _ => ?_
  iterate 7 refine .bind forward_u32 fun _ => ?_
  exact .pure _

theorem Version.Record.forward_read : read.Forward fun _ => True := by
  unfold read
  iterate 3 refine .bind forward_u16.any fun _ => ?_
  refine .bind (forward_utf16 _) fun _ => ?_
  refine .bind forward_u16.any fun _ => ?_
  refine .bind FixedInfo.forward_read.any fun _ => ?_
  split
  · exact .pure _
  · exact .pure _

end PeCoff
