import PeCoff.Outline.Directories
import PeCoff.Proofs.Outline.Headers

/-!
# The outlines of exports, imports, debug records and the managed header are faithful
-/

namespace PeCoff

open Outline

@[simp] theorem Guid.faithful : Faithful outline := .record fun a b h => by
  cases a; cases b
  simpa using h

@[simp] theorem ExportHeader.faithful : Faithful outline := .record fun a b h => by
  cases a; cases b
  simpa using h

@[simp] theorem Export.faithful : Faithful outline where
  inj {a b} h := by
    obtain ⟨_, _, _, target⟩ := a
    obtain ⟨_, _, _, target'⟩ := b
    cases target <;> cases target' <;> simp_all [outline]
  ne_null a := by
    obtain ⟨_, _, _, target⟩ := a
    cases target <;> simp [outline]

@[simp] theorem ExportTable.faithful : Faithful outline := .record fun a b h => by
  cases a; cases b
  simpa using h

@[simp] theorem ImportDescriptor.faithful : Faithful outline := .record fun a b h => by
  cases a; cases b
  simpa using h

@[simp] theorem ImportedModule.faithful : Faithful outline := .record fun a b h => by
  cases a; cases b
  simpa using h

@[simp] theorem DebugKind.faithful : Faithful outline :=
  .code (by decide) fun h => congrArg mk (UInt32.toNat_inj.mp h)

@[simp] theorem DebugEntry.faithful : Faithful outline := .record fun a b h => by
  cases a; cases b
  simpa using h

@[simp] theorem CodeView.faithful : Faithful outline := .record fun a b h => by
  cases a; cases b
  simpa [Int32.toInt_inj] using h

@[simp] theorem DebugRecord.faithful : Faithful outline := .record fun a b h => by
  cases a; cases b
  simpa using h

@[simp] theorem ManagedFlags.faithful : Faithful outline :=
  .flags (by decide +kernel) fun h => congrArg mk (UInt32.toNat_inj.mp h)

@[simp] theorem ManagedHeader.faithful : Faithful outline := .record fun a b h => by
  cases a; cases b
  simpa using h

end PeCoff
