import PeCoff.Proofs.Headers.Outcome
import PeCoff.Proofs.Records

/-!
# The optional header stays inside its declared size

The declared size and the stored count of directories are two numbers that need
not go together, and what is behind the size belongs to the section table.
`read_contained`: whatever the two are, a header takes no more than its size, its
directories are those that stand within it, and no byte behind it matters.
-/

namespace PeCoff

open Reader

namespace OptionalHeader

variable {bytes : ByteArray} {position after : Nat} {size : UInt16} {header : OptionalHeader}

/-- The header takes the bytes up to `after`, and these are inside the declared size. Its
directories are those that stand there, and any other slot is empty. -/
structure Contained (bytes : ByteArray) (position : Nat) (size : UInt16) (header : OptionalHeader)
    (after : Nat) : Prop where
  known : header.magic = .pe32 ∨ header.magic = .pe32Plus
  magic : u16At bytes position = some header.magic.code
  fixed : fixedLength header.magic ≤ size.toNat
  stored : u32At bytes (position + (fixedLength header.magic - 4)) =
    some header.numberOfRvaAndSizes
  count : header.dataDirectories.length =
    min header.numberOfRvaAndSizes.toNat ((size.toNat - fixedLength header.magic) / 8)
  extent : after =
    position + fixedLength header.magic + 8 * header.dataDirectories.length
  inside : after ≤ position + size.toNat
  directory : ∀ slot : DirectorySlot, slot.index < header.dataDirectories.length →
    u32At bytes (position + fixedLength header.magic + 8 * slot.index) =
        some (header.directory slot).rva ∧
      u32At bytes (position + fixedLength header.magic + 8 * slot.index + 4) =
        some (header.directory slot).size
  absent : ∀ slot : DirectorySlot, header.dataDirectories.length ≤ slot.index →
    header.directory slot = ⟨0, 0⟩

theorem exists_encode (h : header.Admissible size) :
    ∃ front : List UInt8, front.length + 4 = fixedLength header.magic ∧
      header.encode = front ++ (LittleEndian.ofU32 header.numberOfRvaAndSizes ++
        header.dataDirectories.flatMap DataDirectory.encode) := by
  have he : header.encode = ((LittleEndian.ofU16 header.magic.code ::
      header.fields.take 28).flatten) ++ (LittleEndian.ofU32 header.numberOfRvaAndSizes ++
        header.dataDirectories.flatMap DataDirectory.encode) := by
    simp only [encode, fields, List.take_succ_cons, List.take_zero, List.flatten_cons,
      List.flatten_nil, List.append_nil, List.append_assoc]
  refine ⟨_, ?_, he⟩
  have hl := length_encode h
  rw [he, List.length_append, List.length_append, LittleEndian.length_ofU32,
    DataDirectory.length_flatMap_encode] at hl
  omega

theorem stands_directory {directory : DataDirectory}
    (h : Stands bytes position directory.encode) :
    u32At bytes position = some directory.rva ∧
      u32At bytes (position + 4) = some directory.size := by
  rw [DataDirectory.encode, List.flatten_cons, stands_append, List.flatten_cons,
    List.flatten_nil, List.append_nil, ← u32At_eq_some, LittleEndian.length_ofU32,
    ← u32At_eq_some] at h
  exact h

theorem contained_of_run (h : (read size).run bytes position = .ok (header, after)) :
    Contained bytes position size header after := by
  obtain ⟨ha, hs, rfl⟩ := (decodes_read size bytes position header after).mp h
  rw [length_encode ha]
  have hm : Stands bytes position (LittleEndian.ofU16 header.magic.code) := by
    rw [encode, List.flatten_cons, stands_append] at hs
    exact hs.1
  obtain ⟨front, hf, he⟩ := exists_encode ha
  rw [he, stands_append, stands_append, stands_flatMap DataDirectory.length_encode,
    LittleEndian.length_ofU32, Nat.add_assoc position, hf] at hs
  obtain ⟨-, hn, hd⟩ := hs
  have hc := ha.dataDirectories
  have hx := ha.fixed
  exact {
    known := ha.magic
    magic := u16At_eq_some.mpr hm
    fixed := hx
    stored := by
      rw [← hf, Nat.add_sub_cancel]
      exact u32At_eq_some.mpr hn
    count := hc
    extent := by omega
    inside := by omega
    directory := fun slot hi => by
      rw [directory, List.getElem?_eq_getElem hi]
      exact stands_directory (hd slot.index _ (List.getElem?_eq_getElem hi))
    absent := fun slot hi => by
      rw [directory, List.getElem?_eq_none hi]
      rfl }

/-- A header that is read takes no more bytes than it declares, whatever count it stores, and
nothing behind them decides what it is. The size and the magic are refused in their order,
and for nothing else. -/
theorem read_contained (bytes : ByteArray) (position : Nat) (size : UInt16) :
    (∀ header after, (read size).run bytes position = .ok (header, after) →
      Contained bytes position size header after ∧
        ∀ other shift, Agree bytes other shift position (position + size.toNat) →
          (read size).run other (position + shift) = .ok (header, after + shift)) ∧
    ∀ cause, (read size).run bytes position = .error (.format cause) ↔
      Refuses bytes position size cause := by
  refine ⟨fun header after h => ?_, fun cause => run_read_format⟩
  have hc := contained_of_run h
  obtain ⟨-, -, hf⟩ := (forward_read size).run_ok h
  exact ⟨hc, fun other shift ha => hf (ha.mono (Nat.le_refl _) (by have := hc.inside; omega))⟩

def crowded : ByteArray :=
  ⟨(([(2, 0x10B), (90, 0), (4, 0xFFFFFFFF), (4, 1), (4, 2), (4, 3), (4, 4)] :
    List (Nat × Nat)).flatMap fun field => LittleEndian.bytes field.1 field.2).toArray⟩

theorem read_contained_crowded :
    ∃ header after, (read 111).run crowded 0 = .ok (header, after) ∧
      header.numberOfRvaAndSizes = 0xFFFFFFFF ∧ header.dataDirectories.length = 1 ∧
      after = 104 ∧ u32At crowded 104 = some 3 ∧ header.directory .importTable = ⟨0, 0⟩ := by
  have he : ((read 111).run crowded 0).toOption.map (fun found =>
      (found.1.magic, found.1.numberOfRvaAndSizes)) = some (.pe32, 0xFFFFFFFF) := by
    decide +kernel
  obtain ⟨⟨header, after⟩, hr, he⟩ := Option.map_eq_some_iff.mp he
  obtain ⟨hm, hn⟩ := Prod.mk.inj he
  rw [toOption_eq_some] at hr
  obtain ⟨hc, -⟩ := (read_contained crowded 0 111).1 header after hr
  have hx : fixedLength header.magic = 96 := by
    rw [hm]
    rfl
  have hl : header.dataDirectories.length = 1 := by
    rw [hc.count, hn, hx]
    decide
  refine ⟨header, after, hr, hn, hl, ?_, rfl, hc.absent .importTable (Nat.le_of_eq hl)⟩
  rw [hc.extent, hx, hl]

end OptionalHeader

end PeCoff
