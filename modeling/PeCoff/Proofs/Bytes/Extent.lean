import PeCoff.Proofs.Bytes.Access

/-!
# How far a reader goes

A bound on the bytes between where a reader starts and where it ends, whenever
it succeeds. Bounds add up along a reader as its pieces do.
-/

namespace PeCoff.Reader

/-- A success ends at most `most` bytes behind the start. -/
def Within (most : Nat) (reader : Reader α) : Prop :=
  ∀ bytes position value after, reader.run bytes position = .ok (value, after) →
    after ≤ position + most

namespace Within

theorem mono {most more : Nat} {reader : Reader α} (h : Within most reader) (hm : most ≤ more) :
    Within more reader :=
  fun bytes position value after hr =>
    Nat.le_trans (h bytes position value after hr) (Nat.add_le_add_left hm position)

theorem pure (value : α) : Within 0 (Pure.pure value : Reader α) := by
  intro bytes position given after h
  obtain ⟨-, rfl⟩ := run_pure_ok.mp h
  exact Nat.le_refl _

theorem fail (cause : FormatError) : Within 0 (Reader.fail cause : Reader α) :=
  fun _ _ _ _ h => nomatch h

theorem require (rule : Prop) [Decidable rule] (cause : FormatError) :
    Within 0 (Reader.require rule cause) := by
  unfold Reader.require
  split
  · exact .pure ()
  · exact .fail cause

theorem exact (count : Nat) : Within count (Reader.exact count) := by
  intro bytes position value after h
  obtain ⟨-, rfl, -⟩ := run_exact_ok.mp h
  exact Nat.le_refl _

theorem bind {first : Reader α} {next : α → Reader β} {most more : Nat} (hf : Within most first)
    (hn : ∀ value, Within more (next value)) : Within (most + more) (first >>= next) := by
  intro bytes position value after h
  obtain ⟨given, middle, hg, hv⟩ := run_bind_ok.mp h
  have hm := hf _ _ _ _ hg
  have ha := hn _ _ _ _ _ hv
  omega

theorem times {reader : Reader α} {most : Nat} (h : Within most reader) (count : Nat) :
    Within (most * count) (Reader.times count reader) := by
  induction count with
  | zero => exact .pure []
  | succ count ih =>
    rw [times_succ]
    refine (h.bind fun value => ih.bind fun values => .pure (value :: values)).mono ?_
    rw [Nat.mul_succ]
    omega

theorem number (width : Nat) : Within width (Reader.number width) :=
  (exact width).bind fun _ => .pure _

end Within

theorem within_u8 : Within 1 u8 := (Within.number 1).bind fun _ => .pure _

theorem within_u16 : Within 2 u16 := (Within.number 2).bind fun _ => .pure _

theorem within_u32 : Within 4 u32 := (Within.number 4).bind fun _ => .pure _

theorem within_u64 : Within 8 u64 := (Within.number 8).bind fun _ => .pure _

theorem within_i16 : Within 2 i16 := within_u16.bind fun _ => .pure _

end PeCoff.Reader
