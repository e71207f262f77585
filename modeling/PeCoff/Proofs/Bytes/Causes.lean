import PeCoff.Bytes.Text
import PeCoff.Proofs.Bytes.Access

/-!
# Which rules a reader finds broken

A reader that lacks no bytes fails only by a rule that it checks. The causes of
its failures are those of its pieces, so that a failure can be traced back to
the one place that names its cause.
-/

namespace PeCoff.Reader

/-- A failure is one of missing bytes or has one of the causes. -/
def Blames (causes : FormatError → Prop) (reader : Reader α) : Prop :=
  ∀ bytes position cause, reader.run bytes position = .error (.format cause) → causes cause

namespace Blames

variable {causes : FormatError → Prop}

theorem pure (value : α) : Blames causes (Pure.pure value : Reader α) :=
  fun _ _ _ h => nomatch h

theorem fail {cause : FormatError} (h : causes cause) :
    Blames causes (Reader.fail cause : Reader α) := by
  rintro bytes position _ ⟨⟩
  exact h

theorem require {rule : Prop} [Decidable rule] {cause : FormatError} (h : causes cause) :
    Blames causes (Reader.require rule cause) := by
  unfold Reader.require
  split
  · exact .pure ()
  · exact .fail h

theorem seek (target : Nat) : Blames causes (Reader.seek target) :=
  fun _ _ _ h => nomatch h

theorem exact (count : Nat) : Blames causes (Reader.exact count) := by
  intro bytes position cause h
  simp only [Reader.exact] at h
  split at h <;> cases h

theorem bind {first : Reader α} {next : α → Reader β} (hf : Blames causes first)
    (hn : ∀ value, Blames causes (next value)) : Blames causes (first >>= next) := by
  intro bytes position cause h
  rw [run_bind] at h
  split at h
  next hr =>
    cases h
    exact hf bytes position cause hr
  next value after _ => exact hn value bytes after cause h

theorem times {reader : Reader α} (h : Blames causes reader) (count : Nat) :
    Blames causes (Reader.times count reader) := by
  induction count with
  | zero => exact .pure []
  | succ count ih =>
    rw [times_succ]
    exact .bind h fun value => .bind ih fun values => .pure (value :: values)

theorem mapEach {read : α → Reader β} (h : ∀ item, Blames causes (read item))
    (items : List α) : Blames causes (Reader.mapEach read items) := by
  induction items with
  | nil => exact .pure []
  | cons item rest ih =>
    rw [mapEach_cons]
    exact .bind (h item) fun value => .bind ih fun values => .pure (value :: values)

theorem number (width : Nat) : Blames causes (Reader.number width) :=
  .bind (.exact width) fun _ => .pure _

theorem u8 : Blames causes Reader.u8 := .bind (.number 1) fun _ => .pure _

theorem u16 : Blames causes Reader.u16 := .bind (.number 2) fun _ => .pure _

theorem u32 : Blames causes Reader.u32 := .bind (.number 4) fun _ => .pure _

theorem i32 : Blames causes Reader.i32 := .bind .u32 fun _ => .pure _

theorem untilZero : Blames causes Reader.untilZero := by
  have hg (bytes done : ByteArray) (position : Nat) (cause : FormatError) :
      untilZero.go bytes done position ≠ .error (.format cause) := by
    intro hr
    fun_induction untilZero.go bytes done position with
    | case1 done position other hu =>
      cases hr
      exact (u8 : Blames (fun _ => False) Reader.u8) bytes position cause hu
    | case2 => contradiction
    | case3 done position byte after hu hz ih => exact ih hr
  exact fun bytes position cause h => absurd h (hg bytes .empty position cause)

theorem terminated (h : causes .invalidText) : Blames causes Reader.terminated := by
  refine .bind .untilZero fun data => ?_
  split
  · exact .pure _
  · exact .fail h

theorem run_ne {reader : Reader α} (h : reader.Blames fun _ => False) (bytes : ByteArray)
    (position : Nat) (cause : FormatError) :
    reader.run bytes position ≠ .error (.format cause) :=
  fun hr => h bytes position cause hr

end Blames

theorem Gives.bind_eq_error {first : Reader α} {next : α → Reader β} {First : α → Prop}
    {bytes : ByteArray} {position : Nat} {cause : FormatError} (hf : Gives first bytes First)
    (hb : first.Blames (· ≠ cause)) (hn : ∀ given, (next given).Anchored) :
    (first >>= next).value bytes position = .error (.format cause) ↔
      ∃ given, First given ∧ (next given).value bytes position = .error (.format cause) := by
  rw [Anchored.value_bind_eq_error hn]
  simp only [hf position _, or_iff_right_iff_imp]
  exact fun he => absurd rfl (hb bytes position cause (value_eq_error.mp he))

end PeCoff.Reader
