/-!
# UTF-8 with replacement

Decoding that never fails: where the bytes are no character, one U+FFFD stands
for each maximal subpart, the longest run that starts a well-formed sequence,
or for a single byte that starts none. Well-formed bytes decode to their text.
-/

namespace PeCoff.Utf8

/-- Whether a byte may follow a given first byte of a sequence. Overlong forms,
surrogates and numbers above U+10FFFF are ruled out at the second byte. -/
def mayFollow (first second : UInt8) : Bool :=
  if first = 0xE0 then 0xA0 ≤ second && second ≤ 0xBF
  else if first = 0xED then 0x80 ≤ second && second ≤ 0x9F
  else if first = 0xF0 then 0x90 ≤ second && second ≤ 0xBF
  else if first = 0xF4 then 0x80 ≤ second && second ≤ 0x8F
  else 0xC2 ≤ first && first ≤ 0xF3 && 0x80 ≤ second && second ≤ 0xBF

def isContinuation (byte : UInt8) : Bool := 0x80 ≤ byte && byte ≤ 0xBF

/-- The length of the maximal subpart at a position where no character can be
decoded. -/
def subpart (bytes : ByteArray) (i : Nat) : Nat :=
  match bytes[i]?, bytes[i + 1]?, bytes[i + 2]? with
  | some first, some second, third =>
    if 0xE0 ≤ first && mayFollow first second then
      if 0xF0 ≤ first && third.any isContinuation then 3 else 2
    else 1
  | _, _, _ => 1

theorem subpart_pos (bytes : ByteArray) (i : Nat) : 0 < subpart bytes i := by
  unfold subpart
  split
  · split
    · split <;> decide
    · decide
  · decide

/-- The text of the bytes, with U+FFFD for each maximal subpart that is no
character. -/
def replacing (bytes : ByteArray) : String :=
  go "" 0
where
  go (done : String) (i : Nat) : String :=
    if i < bytes.size then
      match bytes.utf8DecodeChar? i with
      | some c => go (done.push c) (i + c.utf8Size)
      | none => go (done.push '\uFFFD') (i + subpart bytes i)
    else done
  termination_by bytes.size - i
  decreasing_by
    · have := c.utf8Size_pos
      omega
    · have := subpart_pos bytes i
      omega

end PeCoff.Utf8
