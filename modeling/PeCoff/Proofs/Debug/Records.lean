import PeCoff.Proofs.Bytes.Terminated
import PeCoff.Proofs.Encodings
import PeCoff.Proofs.Guid

/-!
# Records of the debug directory

An entry and a CodeView record, read or refused as what stands in the bytes is.
Both start with a field that has one admissible value, and are refused for it
before the rest of them is looked for.
-/

namespace PeCoff

open Reader

variable {bytes : ByteArray} {position after : Nat} {cause : ReadError}

-- ---------------------------------------------------------------------------
-- Entries
-- ---------------------------------------------------------------------------

namespace DebugEntry

structure At (bytes : ByteArray) (position : Nat) (entry : DebugEntry) : Prop where
  characteristics : entry.characteristics = 0
  stands : Stands bytes position entry.encode

/-- What is wrong with an entry: its reserved field is not zero, or it is cut and the field is
zero or cut itself. -/
inductive Fault (bytes : ByteArray) (position : Nat) : ReadError → Prop
  | reserved {characteristics : UInt32} : u32At bytes position = some characteristics →
      characteristics ≠ 0 → Fault bytes position (.format (.debugCharacteristics characteristics))
  | cut {cause : ReadError} : (∀ characteristics, u32At bytes position = some characteristics →
      characteristics = 0) → firstCut bytes position [4, 4, 2, 2, 4, 4, 4, 4] = some cause →
      Fault bytes position cause

theorem run_read_ok {entry : DebugEntry} :
    read.run bytes position = .ok (entry, after) ↔
      entry.At bytes position ∧ after = position + 28 := by
  rw [decodes_read bytes position entry after, ← and_assoc]
  exact and_congr_left fun _ => ⟨fun ⟨hz, hs⟩ => ⟨hz, hs⟩, fun ⟨hz, hs⟩ => ⟨hz, hs⟩⟩

theorem run_read_error : read.run bytes position = .error cause ↔ Fault bytes position cause := by
  refine (Takes.u32.checked_error fun characteristics _ => Takes.error (.cons .u32 fun _ =>
    .cons .u16 fun _ => .cons .u16 fun _ => .cons .u32 fun _ => .cons .u32 fun _ =>
    .cons .u32 fun _ => .cons .u32 fun _ => .pure _)).trans ?_
  simp only [run_u32_ok, ← firstCut_cons]
  constructor
  · rintro (⟨characteristics, _, ⟨hu, -⟩, hn, rfl⟩ | ⟨hz, hc⟩)
    · exact .reserved hu hn
    · exact .cut (fun characteristics hu => hz characteristics _ ⟨hu, rfl⟩) hc
  · rintro (⟨hu, hn⟩ | ⟨hz, hc⟩)
    · exact .inl ⟨_, _, ⟨hu, rfl⟩, hn, rfl⟩
    · exact .inr ⟨fun characteristics _ h => hz characteristics h.1, hc⟩

end DebugEntry

-- ---------------------------------------------------------------------------
-- CodeView records
-- ---------------------------------------------------------------------------

namespace CodeView

structure At (bytes : ByteArray) (position : Nat) (record : CodeView) : Prop where
  magic : Stands bytes position [0x52, 0x53, 0x44, 0x53]
  signature : Stands bytes (position + 4) record.signature.toList
  age : u32At bytes (position + 20) = some record.age.toUInt32
  path : TextAt bytes (position + 24) record.path

inductive Fault (bytes : ByteArray) (position : Nat) : ReadError → Prop
  | magic {obtained : Vector UInt8 4} : Stands bytes position obtained.toList →
      obtained ≠ #v[0x52, 0x53, 0x44, 0x53] →
      Fault bytes position (.format (.codeViewMagic obtained))
  | cut {cause : ReadError} : (∀ obtained : Vector UInt8 4, Stands bytes position obtained.toList →
      obtained = #v[0x52, 0x53, 0x44, 0x53]) → firstCut bytes position [4, 16, 4] = some cause →
      Fault bytes position cause
  | path {cause : ReadError} : Stands bytes position [0x52, 0x53, 0x44, 0x53] →
      position + 24 ≤ bytes.size → TextFault bytes (position + 24) cause →
      Fault bytes position cause

theorem value_read_ok {record : CodeView} :
    read.value bytes position = .ok record ↔ record.At bytes position := by
  simp only [value_eq_ok, read, run_bind_ok, run_exact_stands, run_require_ok,
    Guid.decodes_read _ _ _ _, Guid.length_toList, run_i32_ok, run_pure_ok, true_and]
  constructor
  · rintro ⟨_, obtained, _, ⟨hm, rfl⟩, _, _, ⟨rfl, rfl⟩, signature, _, ⟨hs, rfl⟩, age, _, ⟨ha, rfl⟩,
      path, _, hp, rfl, rfl⟩
    exact ⟨hm, hs, ha, value_terminated_ok.mp (value_eq_ok.mpr ⟨_, hp⟩)⟩
  · rintro ⟨hm, hs, ha, hp⟩
    obtain ⟨_, hp⟩ := value_eq_ok.mp (value_terminated_ok.mpr hp)
    exact ⟨_, magic, _, ⟨hm, rfl⟩, (), _, ⟨rfl, rfl⟩, _, _, ⟨hs, rfl⟩, _, _, ⟨ha, rfl⟩, _, _, hp,
      rfl, rfl⟩

theorem takes_signature : Guid.read.Takes [16] := .cons (.exact (by decide)) fun _ => .pure _

theorem run_behind_error :
    (do
      let signature ← Guid.read
      let age ← i32
      let path ← terminated
      pure (CodeView.mk signature age path)).run bytes position = .error cause ↔
      firstCut bytes position [16, 4] = some cause ∨
        position + 20 ≤ bytes.size ∧ TextFault bytes (position + 20) cause := by
  have ht (signature : Guid) (age : Int32) (position : Nat) :
      (terminated >>= fun path => pure (CodeView.mk signature age path)).run bytes position =
        .error cause ↔ TextFault bytes position cause := by
    rw [run_bind_error, ← value_eq_error, value_terminated_error]
    simp
  refine (takes_signature.bind_error fun signature =>
    Takes.i32.bind_error fun age => ht signature age _).trans ?_
  simp only [firstCut]
  by_cases h : bytes.size < position + 16
  · have hs : ¬position + 20 ≤ bytes.size := by omega
    simp [h, hs]
  by_cases h' : bytes.size < position + 16 + 4
  · have hs : ¬position + 20 ≤ bytes.size := by omega
    simp [h, h', hs]
  · have hs : position + 20 ≤ bytes.size := by omega
    simp [h, h', hs]

theorem value_read_error :
    read.value bytes position = .error cause ↔ Fault bytes position cause := by
  have hf : Takes (exact 4) [4] := .exact (by decide)
  refine value_eq_error.trans ((hf.checked_error fun _ _ => run_behind_error).trans ?_)
  simp only [run_exact_stands]
  constructor
  · rintro (⟨obtained, _, ⟨hm, -⟩, hn, rfl⟩ | ⟨hz, hc⟩)
    · exact .magic hm hn
    have hz (obtained : Vector UInt8 4) (hm : Stands bytes position obtained.toList) :
        obtained = CodeView.magic := hz obtained _ ⟨hm, rfl⟩
    rcases hc with hc | ⟨hn, hc | ⟨hs, ht⟩⟩
    · exact .cut hz (firstCut_cons.mpr (.inl hc))
    · exact .cut hz (firstCut_cons.mpr (.inr ⟨hn, hc⟩))
    · obtain ⟨obtained, _, hr⟩ := hf.firstCut_eq_none.mp hn
      obtain ⟨hm, -⟩ := run_exact_stands.mp hr
      rw [hz obtained hm] at hm
      exact .path hm hs ht
  · rintro (⟨hm, hn⟩ | ⟨hz, hc⟩ | ⟨hm, hs, ht⟩)
    · exact .inl ⟨_, _, ⟨hm, rfl⟩, hn, rfl⟩
    · refine .inr ⟨fun obtained _ h => hz obtained h.1, ?_⟩
      exact (firstCut_cons.mp hc).imp_right fun ⟨hn, hc⟩ => ⟨hn, .inl hc⟩
    · have hm : Stands bytes position magic.toList := hm
      have hr := run_exact_stands.mpr ⟨hm, rfl⟩
      refine .inr ⟨fun obtained _ h => ?_, .inr ⟨hf.firstCut_eq_none.mpr ⟨_, _, hr⟩,
        .inr ⟨hs, ht⟩⟩⟩
      rw [run_exact_stands.mpr h] at hr
      exact (Prod.mk.inj (Except.ok.inj hr)).1

end CodeView

end PeCoff
