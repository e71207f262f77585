/-!
# UTF-16

Text as 16-bit units. Decoding is strict: a high surrogate is directly followed
by a low one, and no low surrogate stands elsewhere. NUL units are text like
any other.
-/

namespace PeCoff.Utf16

def isHigh (unit : UInt16) : Bool := 0xD800 ≤ unit && unit < 0xDC00

def isLow (unit : UInt16) : Bool := 0xDC00 ≤ unit && unit < 0xE000

def single (unit : UInt16) : Char := Char.ofNat unit.toNat

def paired (high low : UInt16) : Char :=
  Char.ofNat (0x10000 + (high.toNat - 0xD800) * 0x400 + (low.toNat - 0xDC00))

/-- The text of the units, if they are well formed. -/
def decode? (units : List UInt16) : Option String :=
  go "" units
where
  go (done : String) : List UInt16 → Option String
    | [] => some done
    | unit :: rest =>
      if isHigh unit then
        match rest with
        | [] => none
        | next :: rest =>
          if isLow next then go (done.push (paired unit next)) rest else none
      else if isLow unit then none
      else go (done.push (single unit)) rest

def unitsOf (c : Char) : List UInt16 :=
  if c.toNat < 0x10000 then [UInt16.ofNat c.toNat]
  else
    let above := c.toNat - 0x10000
    [UInt16.ofNat (0xD800 + above / 0x400), UInt16.ofNat (0xDC00 + above % 0x400)]

def encode (text : String) : List UInt16 :=
  text.toList.flatMap unitsOf

end PeCoff.Utf16
