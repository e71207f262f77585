import PeCoff.Text.Numeral

/-!
# JSON

Values whose objects keep the order of their fields, and their text over
several lines with two blanks per level. Only quotes, backslashes and control
characters are escaped, so text stays readable in every script.
-/

namespace PeCoff

inductive Json where
  | null
  | bool (value : Bool)
  | number (value : Int)
  | text (value : String)
  | array (items : List Json)
  | object (fields : List (String × Json))

namespace Json

def escape (c : Char) : String :=
  if c = '"' then "\\\""
  else if c = '\\' then "\\\\"
  else if c = '\x08' then "\\b"
  else if c = '\t' then "\\t"
  else if c = '\n' then "\\n"
  else if c = '\x0c' then "\\f"
  else if c = '\r' then "\\r"
  else if c.toNat < 0x20 then "\\u" ++ Numeral.hexLower 4 c.toNat
  else c.toString

def quote (text : String) : String :=
  text.toList.foldl (fun done c => done ++ escape c) "\"" ++ "\""

def block (depth : Nat) (opening closing : String) (items : List String) : String :=
  if items.isEmpty then opening ++ closing
  else
    opening ++ "\n" ++
      ",\n".intercalate (items.map fun item => Numeral.blanks (2 * (depth + 1)) ++ item) ++
      "\n" ++ Numeral.blanks (2 * depth) ++ closing

/-- The text of a value that stands `depth` levels deep. -/
def pretty (depth : Nat) : Json → String
  | .null => "null"
  | .bool value => toString value
  | .number value => toString value
  | .text value => quote value
  | .array items =>
    block depth "[" "]" (items.attach.map fun ⟨item, _⟩ => item.pretty (depth + 1))
  | .object fields =>
    block depth "\x7b" "\x7d" (fields.attach.map fun ⟨(name, value), _⟩ =>
      quote name ++ ": " ++ value.pretty (depth + 1))
termination_by value => sizeOf value
decreasing_by
  · have := List.sizeOf_lt_of_mem ‹_›
    simp only [array.sizeOf_spec]
    omega
  · have := List.sizeOf_lt_of_mem ‹_›
    simp only [object.sizeOf_spec, Prod.mk.sizeOf_spec] at *
    omega

end Json

end PeCoff
