/-!
# Named codes

A code keeps its number whether or not the number has a name. Names are data:
a table from number to name, so every number of the code's width is a value and
comparing codes is comparing numbers.
-/

namespace PeCoff

abbrev CodeTable := List (Nat × String)

namespace CodeTable

def name? (table : CodeTable) (code : Nat) : Option String :=
  table.lookup code

def label (table : CodeTable) (code : Nat) : String :=
  match table.name? code with
  | some name => name
  | none => "Other(" ++ toString code ++ ")"

end CodeTable

end PeCoff
