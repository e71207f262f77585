import PeCoff.Outline.Headers
import PeCoff.Proofs.Outline.Faithful

/-!
# The outlines of the headers are faithful
-/

namespace PeCoff

open Outline

@[simp] theorem Machine.faithful : Faithful outline :=
  .code (by decide) fun h => congrArg mk (UInt16.toNat_inj.mp h)

@[simp] theorem OptionalMagic.faithful : Faithful outline :=
  .code (by decide) fun h => congrArg mk (UInt16.toNat_inj.mp h)

@[simp] theorem Subsystem.faithful : Faithful outline :=
  .code (by decide) fun h => congrArg mk (UInt16.toNat_inj.mp h)

@[simp] theorem Characteristics.faithful : Faithful outline :=
  .flags (by decide +kernel) fun h => congrArg mk (UInt16.toNat_inj.mp h)

@[simp] theorem DllCharacteristics.faithful : Faithful outline :=
  .flags (by decide +kernel) fun h => congrArg mk (UInt16.toNat_inj.mp h)

@[simp] theorem SectionCharacteristics.faithful : Faithful outline :=
  .flags (by decide +kernel) fun h => congrArg mk (UInt32.toNat_inj.mp h)

@[simp] theorem DataDirectory.faithful : Faithful outline := .record fun a b h => by
  cases a; cases b
  simpa using h

@[simp] theorem FileHeader.faithful : Faithful outline := .record fun a b h => by
  cases a; cases b
  simpa using h

@[simp] theorem OptionalHeader.faithful : Faithful outline := .record fun a b h => by
  cases a; cases b
  simpa using h

@[simp] theorem SectionHeader.faithful : Faithful outline := .record fun a b h => by
  cases a; cases b
  simpa using h

@[simp] theorem Headers.faithful : Faithful outline := .record fun a b h => by
  cases a; cases b
  simpa using h

end PeCoff
