import PeCoff.Text.Numeral

/-!
# Named flags

A flag set is a number whose bits may have names. Its text lists the names of
the bits that are set, in the order of the table, and then all other bits as
one number, so no bit is lost.
-/

namespace PeCoff

/-- Names of single bits, each with the bit's position. -/
structure FlagTable where
  title : String
  flags : List (String × Nat)

namespace FlagTable

def names (table : FlagTable) (bits : Nat) : List String :=
  (table.flags.filter fun flag => bits.testBit flag.2).map Prod.fst

def known (table : FlagTable) : Nat :=
  table.flags.foldl (fun mask flag => mask ||| 1 <<< flag.2) 0

def unknown (table : FlagTable) (bits : Nat) : Nat :=
  bits ^^^ (bits &&& table.known)

def text (table : FlagTable) (bits : Nat) : String :=
  let rest := table.unknown bits
  " | ".intercalate
    (table.names bits ++ if rest = 0 then [] else ["0x" ++ Numeral.hexLower 1 rest])

def shown (table : FlagTable) (bits : Nat) : String :=
  if bits = 0 then "0x0" else table.text bits

def label (table : FlagTable) (bits : Nat) : String :=
  table.title ++ "(" ++ table.shown bits ++ ")"

end FlagTable

end PeCoff
