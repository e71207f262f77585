import PeCoff.Proofs.Bytes.Terminated
import PeCoff.Proofs.Text.Utf8

/-!
# Text in front of the first zero

Reading text goes up to the first zero from the position on, wherever that is,
and judges only then what is in front of it. `terminated_exact`: the text is
read if the bytes are well-formed UTF-8, and is the text of these bytes; without
a zero it is the end of the data that is reported, whatever the bytes are.
-/

namespace PeCoff

structure FirstZero (bytes : ByteArray) (position stop : Nat) : Prop where
  le : position ≤ stop
  zero : bytes[stop]? = some 0
  before : ∀ place, position ≤ place → place < stop → bytes[place]? ≠ some 0

variable {bytes : ByteArray} {position stop : Nat}

namespace FirstZero

theorem back (hz : bytes[position]? ≠ some 0) (h : FirstZero bytes (position + 1) stop) :
    FirstZero bytes position stop where
  le := Nat.le_of_succ_le h.le
  zero := h.zero
  before place hp hs := by
    rcases Nat.eq_or_lt_of_le hp with rfl | hp
    · exact hz
    · exact h.before place hp hs

theorem exists_of_zero {place : Nat} (hp : position ≤ place) (hz : bytes[place]? = some 0) :
    ∃ stop, FirstZero bytes position stop := by
  obtain ⟨count, rfl⟩ := Nat.exists_eq_add_of_le hp
  induction count generalizing position with
  | zero => exact ⟨position, Nat.le_refl _, hz, fun place hp hs => absurd hs (Nat.not_lt_of_le hp)⟩
  | succ count ih =>
    by_cases hb : bytes[position]? = some 0
    · exact ⟨position, Nat.le_refl _, hb, fun place hp hs => absurd hs (Nat.not_lt_of_le hp)⟩
    · rw [← Nat.add_assoc, Nat.add_right_comm] at hz
      obtain ⟨stop, hs⟩ := ih (Nat.le_add_right _ _) hz
      exact ⟨stop, hs.back hb⟩

theorem of_run {run : List UInt8} (hz : 0 ∉ run) (hs : Stands bytes position (run ++ [0])) :
    FirstZero bytes position (position + run.length) := by
  induction run generalizing position with
  | nil => exact ⟨Nat.le_refl _, hs.1, fun place hp hl => absurd hl (Nat.not_lt_of_le hp)⟩
  | cons byte rest ih =>
    obtain ⟨hn, hr⟩ := not_or.mp (mt List.mem_cons.mpr hz)
    have hb : bytes[position]? ≠ some 0 := by
      rw [hs.1]
      exact fun he => hn (Option.some.inj he).symm
    rw [List.length_cons, ← Nat.add_assoc, Nat.add_right_comm]
    exact (ih hr hs.2).back hb

theorem exists_run (h : FirstZero bytes position stop) :
    ∃ run : List UInt8, 0 ∉ run ∧ Stands bytes position (run ++ [0]) ∧
      stop = position + run.length := by
  obtain ⟨count, rfl⟩ := Nat.exists_eq_add_of_le h.le
  induction count generalizing position with
  | zero => exact ⟨[], List.not_mem_nil, ⟨h.zero, trivial⟩, rfl⟩
  | succ count ih =>
    obtain ⟨hl, -⟩ := getElem?_eq_some_iff.mp h.zero
    have hp : position < bytes.size := by omega
    have hb := h.before position (Nat.le_refl _) (by omega)
    rw [getElem?_pos bytes position hp] at hb
    have he : position + (count + 1) = position + 1 + count := by omega
    have hn : FirstZero bytes (position + 1) (position + 1 + count) :=
      ⟨Nat.le_add_right _ _, he ▸ h.zero, fun place hp hs => h.before place (by omega) (by omega)⟩
    obtain ⟨run, hz, hs, hr⟩ := ih hn
    refine ⟨bytes[position] :: run, ?_, ⟨getElem?_pos bytes position hp, hs⟩, ?_⟩
    · exact List.not_mem_cons_of_ne_of_not_mem (fun h => hb (congrArg some h.symm)) hz
    · rw [List.length_cons]
      omega

theorem unique {other : Nat} (h : FirstZero bytes position stop)
    (ho : FirstZero bytes position other) : stop = other := by
  rcases Nat.lt_trichotomy stop other with hl | he | hl
  · exact absurd h.zero (ho.before stop h.le hl)
  · exact he
  · exact absurd ho.zero (h.before other ho.le hl)

theorem eq_window (h : FirstZero bytes position stop) {run : List UInt8} (hz : 0 ∉ run)
    (hs : Stands bytes position (run ++ [0])) :
    run = window bytes position (stop - position) ∧ stop = position + run.length := by
  obtain rfl := h.unique (.of_run hz hs)
  obtain ⟨-, hw⟩ := stands_iff_window.mp (stands_append.mp hs).1
  rw [Nat.add_sub_cancel_left, hw]
  exact ⟨rfl, rfl⟩

end FirstZero

/-- What reading comes to in front of a zero: the text of well-formed bytes, which has no
zero itself and goes back to the same bytes, and a fault otherwise. -/
structure Ended (bytes : ByteArray) (position stop : Nat) : Prop where
  readable : (∃ found, Reader.terminated.run bytes position = .ok found) ↔
    Utf8.WellFormed (window bytes position (stop - position))
  spelled : ∀ text after, Reader.terminated.run bytes position = .ok (text, after) ↔
    Utf8.Codes (window bytes position (stop - position)) (text.toList.map Char.toNat) ∧
      after = stop + 1
  encoded : ∀ text after, Reader.terminated.run bytes position = .ok (text, after) →
    text.toByteArray.data.toList = window bytes position (stop - position) ∧
      '\x00' ∉ text.toList
  refused : ∀ cause, Reader.terminated.run bytes position = .error cause ↔
    cause = .format .invalidText ∧ ¬Utf8.WellFormed (window bytes position (stop - position))

namespace Reader

variable {text : String} {after : Nat}

theorem run_terminated_of_firstZero (h : FirstZero bytes position stop) :
    terminated.run bytes position = .ok (text, after) ↔
      text.toByteArray.data.toList = window bytes position (stop - position) ∧
        after = stop + 1 := by
  have hl : text.toByteArray.data.toList.length = text.toByteArray.size := rfl
  rw [run_terminated_ok]
  constructor
  · rintro ⟨⟨hz, hs⟩, rfl⟩
    obtain ⟨hw, rfl⟩ := h.eq_window hz hs
    exact ⟨hw, by rw [hl]⟩
  · rintro ⟨ht, rfl⟩
    obtain ⟨run, hz, hs, rfl⟩ := h.exists_run
    obtain ⟨hw, -⟩ := h.eq_window hz hs
    obtain rfl := ht.trans hw.symm
    exact ⟨⟨hz, hs⟩, by rw [hl]⟩

theorem run_terminated_error_of_firstZero (h : FirstZero bytes position stop) {cause : ReadError} :
    terminated.run bytes position = .error cause ↔
      cause = .format .invalidText ∧
        ¬Utf8.WellFormed (window bytes position (stop - position)) := by
  rw [← value_eq_error, value_terminated_error, Utf8.wellFormed_iff, not_exists]
  constructor
  · rintro (hn | ⟨hz, hs, ht⟩)
    · exact absurd h.zero (hn stop h.le)
    · obtain ⟨rfl, -⟩ := h.eq_window hz hs
      exact ⟨rfl, ht⟩
  · rintro ⟨rfl, ht⟩
    obtain ⟨run, hz, hs, -⟩ := h.exists_run
    obtain ⟨rfl, -⟩ := h.eq_window hz hs
    exact .invalid hz hs ht

theorem ended_of_firstZero (h : FirstZero bytes position stop) : Ended bytes position stop where
  readable := by
    simp only [Prod.exists, run_terminated_of_firstZero h, exists_and_left, exists_eq, and_true,
      Utf8.wellFormed_iff]
  spelled text after := by rw [run_terminated_of_firstZero h, Utf8.codes_iff]
  encoded text after ht := by
    refine ⟨((run_terminated_of_firstZero h).mp ht).1, ?_⟩
    rw [← Utf8.zero_mem_toByteArray]
    exact (run_terminated_ok.mp ht).1.1
  refused cause := run_terminated_error_of_firstZero h

/-- Text ends at the first zero, of which the text of the bytes in front of it is decided. If
there is no zero, the data ends before the text does, even where its bytes are malformed. And
a text without a zero is read where it is written with one behind it. -/
theorem terminated_exact (bytes : ByteArray) (position : Nat) :
    (∀ stop, FirstZero bytes position stop → Ended bytes position stop) ∧
    ((∀ stop, ¬FirstZero bytes position stop) →
      terminated.run bytes position = .error (.truncated (max position bytes.size) 1)) ∧
    ∀ text : String, '\x00' ∉ text.toList →
      Stands bytes position (text.toByteArray.data.toList ++ [0]) →
        terminated.run bytes position = .ok (text, position + text.toByteArray.size + 1) := by
  refine ⟨fun stop h => ended_of_firstZero h, fun hn => ?_, fun text hz hs => ?_⟩
  · rw [← value_eq_error, value_terminated_error]
    refine .endless fun place hp hz => ?_
    obtain ⟨stop, hs⟩ := FirstZero.exists_of_zero hp hz
    exact hn stop hs
  · exact run_terminated_ok.mpr ⟨⟨mt Utf8.zero_mem_toByteArray.mp hz, hs⟩, rfl⟩

def overlong : ByteArray := ⟨#[0xE2, 0x82, 0xAC, 0x00, 0xC0, 0x80, 0x00, 0xC0, 0x80]⟩

/-- The text is read up to the zero behind it. The sequence is too long for its number, which
does not count where no zero is behind it. -/
theorem terminated_exact_overlong :
    terminated.run overlong 0 = .ok ("€", 4) ∧
    terminated.run overlong 4 = .error (.format .invalidText) ∧
    terminated.run overlong 7 = .error (.truncated 9 1) := by
  have hs : Stands overlong 0 ("€".toByteArray.data.toList ++ [0]) := ⟨rfl, rfl, rfl, rfl, trivial⟩
  have hz : FirstZero overlong 4 6 :=
    @FirstZero.of_run _ 4 [0xC0, 0x80] (by decide) ⟨rfl, rfl, rfl, trivial⟩
  have hn : ∀ stop, ¬FirstZero overlong 7 stop := by
    rintro stop ⟨hp, he, -⟩
    obtain ⟨hl, -⟩ := getElem?_eq_some_iff.mp he
    have hb : ∀ place < 9, 7 ≤ place → overlong[place]? ≠ some 0 := by decide
    exact hb stop hl hp he
  have hw : ¬Utf8.WellFormed [0xC0, 0x80] := by
    rintro ⟨codes, hc⟩
    generalize hd : ([0xC0, 0x80] : List UInt8) = data at hc
    cases hc with
    | nil => contradiction
    | cons hs _ =>
      obtain ⟨hf, hl, -, -⟩ := hs
      cases hf with
      | one ha =>
        cases hd
        contradiction
      | two _ _ _ hn =>
        cases hd
        rw [hn] at hl
        contradiction
      | three | four => cases hd
  exact ⟨(terminated_exact overlong 0).2.2 "€" (by decide) hs,
    (((terminated_exact overlong 4).1 6 hz).refused _).mpr ⟨rfl, hw⟩,
    (terminated_exact overlong 7).2.1 hn⟩

end Reader

end PeCoff
