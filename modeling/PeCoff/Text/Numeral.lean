/-!
# Numerals and columns

Hexadecimal text of at least a given number of digits, and the padding of
columns. Widths count characters, so a column of wide or multi-byte text is as
long as its character count says.
-/

namespace PeCoff.Numeral

def hexLower (width n : Nat) : String :=
  String.ofList ((Nat.toDigits 16 n).leftpad width '0')

def hexUpper (width n : Nat) : String :=
  String.ofList (((Nat.toDigits 16 n).map Char.toUpper).leftpad width '0')

/-- An address or offset: `0x` and at least `width` upper-case digits. -/
def address (width n : Nat) : String :=
  "0x" ++ hexUpper width n

def alignRight (width : Nat) (text : String) : String :=
  String.ofList (text.toList.leftpad width ' ')

def alignLeft (width : Nat) (text : String) : String :=
  String.ofList (text.toList.rightpad width ' ')

def blanks (n : Nat) : String :=
  String.ofList (List.replicate n ' ')

end PeCoff.Numeral
