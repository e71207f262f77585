/-!
# Addresses typed by hand

A 32-bit number in decimal, or in hexadecimal after `0x`. One plus sign may
stand in front of the digits; a minus sign is no sign but a wrong character. Of
two faults the one further left is reported.
-/

namespace PeCoff.RvaText

inductive Error where
  | empty
  | invalidDigit
  | tooLarge
  deriving DecidableEq

def Error.message : Error → String
  | .empty => "cannot parse integer from empty string"
  | .invalidDigit => "invalid digit found in string"
  | .tooLarge => "number too large to fit in target type"

def digit? (radix : Nat) (c : Char) : Option Nat :=
  let value :=
    if '0' ≤ c && c ≤ '9' then c.toNat - '0'.toNat
    else if 'a' ≤ c && c ≤ 'z' then c.toNat - 'a'.toNat + 10
    else if 'A' ≤ c && c ≤ 'Z' then c.toNat - 'A'.toNat + 10
    else radix
  if value < radix then some value else none

/-- The number that goes on from `value` with the given digits. -/
def digits (radix value : Nat) : List Char → Except Error Nat
  | [] => .ok value
  | c :: rest =>
    match digit? radix c with
    | none => .error .invalidDigit
    | some digit =>
      let next := value * radix + digit
      if next < UInt32.size then digits radix next rest else .error .tooLarge

def number (radix : Nat) : List Char → Except Error Nat
  | [] => .error .empty
  | ['+'] => .error .invalidDigit
  | '+' :: rest => digits radix 0 rest
  | text => digits radix 0 text

def parse (text : String) : Except Error UInt32 :=
  (match text.toList with
    | '0' :: 'x' :: rest => number 16 rest
    | '0' :: 'X' :: rest => number 16 rest
    | plain => number 10 plain).map UInt32.ofNat

end PeCoff.RvaText
