import Mathlib.Data.List.TakeWhile
import PeCoff.Headers.SectionHeader
import PeCoff.Proofs.Text.Replacement

/-!
# Names of sections

A section's name fills eight bytes with zeros and need not be text. `displayName_exact`:
what is displayed is the text of the bytes in front of the first zero, with
U+FFFD where they are none.
-/

namespace PeCoff

structure BeforeZero (field run : List UInt8) : Prop where
  nonzero : 0 ∉ run
  ended : run = field ∨ ∃ rest, field = run ++ 0 :: rest

theorem takeWhile_eq_iff {field run : List UInt8} :
    field.takeWhile (· != 0) = run ↔ BeforeZero field run := by
  constructor
  · rintro rfl
    refine ⟨fun hm => by simpa using List.mem_takeWhile_imp hm, ?_⟩
    have hs := @List.takeWhile_append_dropWhile _ (· != 0) field
    have hh := List.head?_dropWhile_not (· != 0) field
    generalize field.dropWhile (· != 0) = behind at hs hh
    match behind with
    | [] => exact .inl (by rwa [List.append_nil] at hs)
    | byte :: rest =>
      obtain rfl : byte = 0 := by simpa using hh
      exact .inr ⟨rest, hs.symm⟩
  · rintro ⟨hz, he⟩
    have hp : ∀ byte ∈ run, (byte != 0) = true := by
      intro byte hm
      simpa using ne_of_mem_of_not_mem hm hz
    rcases he with rfl | ⟨rest, rfl⟩
    · exact List.takeWhile_eq_self_iff.mpr hp
    · rw [List.takeWhile_append_of_pos hp]
      simp

namespace SectionHeader

/-- The name displayed is the text of the bytes in front of the first zero, so that it has no
zero itself. Where those are no text, as where any bytes are none, each maximal subpart that is
no character is displayed as one U+FFFD. -/
theorem displayName_exact :
    (∀ (header : SectionHeader) (text : String), header.displayName = text ↔
      ∃ run, BeforeZero header.name.toList run ∧ Utf8.Replaced run text) ∧
    (∀ header : SectionHeader, '\x00' ∉ header.displayName.toList) ∧
    ∀ (data : ByteArray) (text : String),
      Utf8.replacing data = text ↔ Utf8.Replaced data.data.toList text := by
  have hd (header : SectionHeader) (text : String) : header.displayName = text ↔
      ∃ run, BeforeZero header.name.toList run ∧ Utf8.Replaced run text := by
    rw [displayName, Utf8.replacing_eq_iff, List.toList_data_toByteArray]
    simp only [← takeWhile_eq_iff, exists_eq_left']
  refine ⟨hd, fun header => ?_, fun data text => Utf8.replacing_eq_iff⟩
  obtain ⟨run, hb, hr⟩ := (hd header _).mp rfl
  exact hr.zero_not_mem hb.nonzero

example : Utf8.replacing ⟨#[0x2E, 0xE2, 0x82, 0x41, 0xC0, 0x80]⟩ = ".\uFFFDA\uFFFD\uFFFD" := by
  cbv

end SectionHeader

end PeCoff
