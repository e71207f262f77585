import PeCoff.Text.Numeral
import PeCoff.Text.Unprintable

/-!
# Quoted text

Text between double quotes on one line. A quote or a backslash gets a backslash
before it, NUL, tab, return and newline are written by letter, and every other
character without a glyph of its own by number.
-/

namespace PeCoff.Quoted

def escape (c : Char) : String :=
  if c = '\x00' then "\\0"
  else if c = '\t' then "\\t"
  else if c = '\r' then "\\r"
  else if c = '\n' then "\\n"
  else if c = '"' then "\\\""
  else if c = '\\' then "\\\\"
  else if Unprintable.holds c then "\\u\x7b" ++ Numeral.hexLower 1 c.toNat ++ "\x7d"
  else c.toString

def quote (text : String) : String :=
  text.toList.foldl (fun done c => done ++ escape c) "\"" ++ "\""

end PeCoff.Quoted
