import PeCoff.Headers.Addressing
import PeCoff.Proofs.Bytes.Causes
import PeCoff.Proofs.Bytes.Decoding
import PeCoff.Proofs.Bytes.Failure

/-!
# Text up to a zero

NUL-terminated text is read exactly where its bytes stand with a zero behind
them, none of them being zero. Behind an address the text is there if a section
holds the address, and is never asked for otherwise.
-/

namespace PeCoff

variable {bytes : ByteArray} {position after : Nat} {text : String}

/-- The bytes of the text stand at the position, none of them zero, and then a zero. -/
def TextAt (bytes : ByteArray) (position : Nat) (text : String) : Prop :=
  0 ∉ text.toByteArray.data.toList ∧ Stands bytes position (text.toByteArray.data.toList ++ [0])

inductive TextFault (bytes : ByteArray) (position : Nat) : ReadError → Prop
  | endless : (∀ place, position ≤ place → bytes[place]? ≠ some 0) →
      TextFault bytes position (.truncated (max position bytes.size) 1)
  | invalid {run : List UInt8} : 0 ∉ run → Stands bytes position (run ++ [0]) →
      (∀ text : String, text.toByteArray.data.toList ≠ run) →
      TextFault bytes position (.format .invalidText)

namespace Reader

theorem run_u8_ok {byte : UInt8} :
    u8.run bytes position = .ok (byte, after) ↔
      bytes[position]? = some byte ∧ after = position + 1 := by
  have hb : LittleEndian.ofU8 byte = [byte] := by
    simp [LittleEndian.ofU8, LittleEndian.bytes]
  rw [decodes_u8 bytes position byte after, hb, true_and]
  simp only [Stands, and_true, List.length_singleton]

theorem go_untilZero_ok {done data : ByteArray} :
    untilZero.go bytes done position = .ok (data, after) ↔
      ∃ run : List UInt8, 0 ∉ run ∧ Stands bytes position (run ++ [0]) ∧
        data.data.toList = done.data.toList ++ run ∧ after = position + run.length + 1 := by
  fun_induction untilZero.go bytes done position with
  | case1 done position cause hu =>
    simp only [reduceCtorEq, false_iff, not_exists]
    -- Whatever the run, a first byte stands there, so that it can be read.
    have hn (byte : UInt8) : bytes[position]? ≠ some byte := by
      intro hb
      rw [run_u8_ok.mpr ⟨hb, rfl⟩] at hu
      contradiction
    rintro (_ | ⟨byte, run⟩) ⟨-, hs, -⟩
    · exact hn 0 hs.1
    · exact hn byte hs.1
  | case2 done position byte hu =>
    obtain ⟨hb, rfl⟩ := run_u8_ok.mp hu
    rw [Except.ok.injEq, Prod.mk.injEq]
    constructor
    · rintro ⟨rfl, rfl⟩
      exact ⟨[], List.not_mem_nil, ⟨hb, trivial⟩, (List.append_nil _).symm, rfl⟩
    · rintro ⟨_ | ⟨first, run⟩, hz, hs, hd, rfl⟩
      · rw [List.append_nil, Array.toList_inj] at hd
        exact ⟨(ByteArray.ext hd).symm, rfl⟩
      · obtain rfl := Option.some.inj (hb.symm.trans hs.1)
        exact absurd List.mem_cons_self hz
  | case3 done position byte next hu hz ih =>
    obtain ⟨hb, rfl⟩ := run_u8_ok.mp hu
    have hp : (done.push byte).data.toList = done.data.toList ++ [byte] := Array.toList_push
    simp only [ih, hp, List.append_assoc, List.singleton_append]
    constructor
    · rintro ⟨run, hn, hs, hd, rfl⟩
      refine ⟨byte :: run, ?_, ⟨hb, hs⟩, hd, by rw [List.length_cons]; omega⟩
      exact List.not_mem_cons_of_ne_of_not_mem (Ne.symm hz) hn
    · rintro ⟨_ | ⟨first, run⟩, hn, hs, hd, rfl⟩
      · exact absurd (Option.some.inj (hb.symm.trans hs.1)) hz
      · obtain rfl := Option.some.inj (hb.symm.trans hs.1)
        exact ⟨run, List.not_mem_of_not_mem_cons hn, hs.2, hd, by rw [List.length_cons]; omega⟩

theorem run_untilZero_ok {data : ByteArray} :
    untilZero.run bytes position = .ok (data, after) ↔
      0 ∉ data.data.toList ∧ Stands bytes position (data.data.toList ++ [0]) ∧
        after = position + data.size + 1 := by
  refine go_untilZero_ok.trans ⟨?_, ?_⟩
  · rintro ⟨run, hz, hs, hd, rfl⟩
    rw [show ByteArray.empty.data.toList = [] from rfl, List.nil_append] at hd
    subst hd
    exact ⟨hz, hs, by simp⟩
  · rintro ⟨hz, hs, rfl⟩
    exact ⟨data.data.toList, hz, hs, rfl, by simp⟩

theorem run_terminated_ok :
    terminated.run bytes position = .ok (text, after) ↔
      TextAt bytes position text ∧ after = position + text.toByteArray.size + 1 := by
  simp only [terminated, run_bind_ok, run_untilZero_ok, TextAt]
  constructor
  · rintro ⟨data, _, ⟨hz, hs, rfl⟩, hr⟩
    split at hr
    next found hf =>
      obtain ⟨rfl, rfl⟩ := run_pure_ok.mp hr
      rw [String.fromUTF8?] at hf
      split at hf
      next hv =>
        cases hf
        exact ⟨⟨hz, hs⟩, rfl⟩
      next => contradiction
    next => contradiction
  · rintro ⟨⟨hz, hs⟩, rfl⟩
    refine ⟨text.toByteArray, _, ⟨hz, hs, rfl⟩, ?_⟩
    rw [String.fromUTF8?, dif_pos text.isValidUTF8]
    rfl

theorem value_terminated_ok :
    terminated.value bytes position = .ok text ↔ TextAt bytes position text := by
  simp only [value_eq_ok, run_terminated_ok, exists_and_left, exists_eq, and_true]

theorem go_untilZero_error {done : ByteArray} {cause : ReadError} :
    untilZero.go bytes done position = .error cause ↔
      (∀ place, position ≤ place → bytes[place]? ≠ some 0) ∧
        cause = .truncated (max position bytes.size) 1 := by
  fun_induction untilZero.go bytes done position with
  | case1 done position other hu =>
    obtain ⟨hs, rfl⟩ := run_u8_error hu
    rw [Nat.max_eq_left hs, Except.error.injEq, eq_comm, iff_and_self]
    intro _ place hp
    rw [getElem?_neg bytes place (by omega)]
    exact (Option.some_ne_none 0).symm
  | case2 done position byte hu =>
    obtain ⟨hb, rfl⟩ := run_u8_ok.mp hu
    simp only [reduceCtorEq, false_iff]
    exact fun hn => hn.1 position (Nat.le_refl _) hb
  | case3 done position byte next hu hz ih =>
    obtain ⟨hb, rfl⟩ := run_u8_ok.mp hu
    obtain ⟨hs, -⟩ := position_lt_of_u8 hu
    rw [ih, Nat.max_eq_right (Nat.le_of_lt hs), Nat.max_eq_right hs]
    refine and_congr_left fun _ => ⟨fun h place hp => ?_, fun h place hp => h place (by omega)⟩
    rcases Nat.eq_or_lt_of_le hp with rfl | hp
    · rw [hb, ne_eq, Option.some.injEq]
      exact hz
    · exact h place hp

theorem value_terminated_error {cause : ReadError} :
    terminated.value bytes position = .error cause ↔ TextFault bytes position cause := by
  have hz : untilZero.run bytes position = .error cause ↔ _ := go_untilZero_error
  simp only [value_eq_error, terminated, run_bind_error, hz, run_untilZero_ok]
  constructor
  · rintro (⟨hn, rfl⟩ | ⟨data, _, ⟨hn, hs, -⟩, hr⟩)
    · exact .endless hn
    · split at hr
      next => contradiction
      next hf =>
        cases hr
        refine .invalid hn hs fun text ht => ?_
        obtain rfl : text.toByteArray = data := ByteArray.ext (Array.toList_inj.mp ht)
        rw [String.fromUTF8?, dif_pos text.isValidUTF8] at hf
        contradiction
  · rintro (hn | ⟨hn, hs, ht⟩)
    · exact .inl ⟨hn, rfl⟩
    · rename_i run
      refine .inr ⟨⟨run.toArray⟩, _, ⟨hn, hs, rfl⟩, ?_⟩
      rw [String.fromUTF8?, dif_neg fun hv => ht ⟨_, hv⟩ rfl]
      rfl

end Reader

-- ---------------------------------------------------------------------------
-- Behind an address
-- ---------------------------------------------------------------------------

namespace Headers

open Reader

variable {headers : Headers} {rva : UInt32}

inductive MappedText (headers : Headers) (bytes : ByteArray) (rva : UInt32) :
    Option String → Prop
  | unmapped : headers.offset? rva = none → MappedText headers bytes rva none
  | mapped {offset : Nat} {text : String} : headers.offset? rva = some offset →
      TextAt bytes offset text → MappedText headers bytes rva (some text)

theorem gives_textAt (headers : Headers) (bytes : ByteArray) (rva : UInt32) :
    (headers.textAt rva).Gives bytes (headers.MappedText bytes rva) := by
  intro position found
  unfold textAt
  split
  next ho =>
    rw [value_pure, Except.ok.injEq]
    constructor
    · rintro rfl
      exact .unmapped ho
    · rintro (_ | ⟨hs, -⟩)
      · rfl
      · rw [ho] at hs
        contradiction
  next offset ho =>
    have ht : (seek offset >>= fun _ => terminated).Gives bytes (TextAt bytes offset) :=
      .seek_bind fun _ => value_terminated_ok
    refine ((ht.bind fun text => .pure (some text)) position found).trans ?_
    constructor
    · rintro ⟨text, ht, rfl⟩
      exact .mapped ho ht
    · rintro (hn | ⟨hs, ht⟩)
      · rw [ho] at hn
        contradiction
      · obtain rfl := Option.some.inj (ho.symm.trans hs)
        exact ⟨_, ht, rfl⟩

theorem value_textAt_error {cause : ReadError} :
    (headers.textAt rva).value bytes position = .error cause ↔
      ∃ offset, headers.offset? rva = some offset ∧ TextFault bytes offset cause := by
  unfold textAt
  split
  next ho => simp [ho]
  next offset ho =>
    have ht : (seek offset >>= fun _ => terminated >>= fun text =>
        pure (some text)).value bytes position = .error cause ↔ TextFault bytes offset cause := by
      show (terminated >>= fun text => pure (some text)).value bytes offset = .error cause ↔ _
      rw [value_eq_error, run_bind_error, ← value_eq_error, value_terminated_error]
      simp
    refine ht.trans ?_
    simp [ho]

theorem anchored_textAt (headers : Headers) (rva : UInt32) : (headers.textAt rva).Anchored := by
  unfold textAt
  split
  · exact .pure none
  · exact .seek_bind _ _

theorem blames_textAt {causes : FormatError → Prop} (h : causes .invalidText) (headers : Headers)
    (rva : UInt32) : (headers.textAt rva).Blames causes := by
  unfold textAt
  split
  · exact .pure none
  · exact .bind (.seek _) fun _ => .bind (.terminated h) fun _ => .pure _

end Headers

end PeCoff
