import PeCoff.CodeTable
import PeCoff.FlagTable
import PeCoff.Json
import PeCoff.Text.Quoted

/-!
# Outlines

An outline is a value as it is shown: records with their fields in order, codes
and flags with their tables. It has two texts, JSON and a dump with one field
per line. JSON does not tell a present value from the value itself; the dump
does.
-/

namespace PeCoff

inductive Outline where
  | number (value : Int)
  | bool (value : Bool)
  | text (value : String)
  | code (table : CodeTable) (value : Nat)
  | flags (table : FlagTable) (bits : Nat)
  | absent
  | present (value : Outline)
  | sequence (items : List Outline)
  | record (title : String) (fields : List (String × Outline))
  | alternative (name : String) (value : Outline)

namespace Outline

def nat (value : Nat) : Outline := .number value
def u8 (value : UInt8) : Outline := .number value.toNat
def u16 (value : UInt16) : Outline := .number value.toNat
def u32 (value : UInt32) : Outline := .number value.toNat
def u64 (value : UInt64) : Outline := .number value.toNat
def bytes (value : Vector UInt8 n) : Outline := .sequence (value.toList.map u8)

def ofOption (outline : α → Outline) : Option α → Outline
  | none => .absent
  | some value => .present (outline value)

def ofList (outline : α → Outline) (items : List α) : Outline :=
  .sequence (items.map outline)

def toJson : Outline → Json
  | .number value => .number value
  | .bool value => .bool value
  | .text value => .text value
  | .code table value =>
    match table.name? value with
    | some name => .text name
    | none => .object [("Other", .number value)]
  | .flags table bits => .text (table.text bits)
  | .absent => .null
  | .present value => value.toJson
  | .sequence items => .array (items.attach.map fun ⟨item, _⟩ => item.toJson)
  | .record _ fields => .object (fields.attach.map fun ⟨(name, value), _⟩ => (name, value.toJson))
  | .alternative name value => .object [(name, value.toJson)]
termination_by outline => sizeOf outline
decreasing_by
  · simp
  · have := List.sizeOf_lt_of_mem ‹_›
    simp only [sequence.sizeOf_spec]
    omega
  · have := List.sizeOf_lt_of_mem ‹_›
    simp only [record.sizeOf_spec, Prod.mk.sizeOf_spec] at *
    omega
  · simp only [alternative.sizeOf_spec]
    omega

/-- Lines of their own, each ending in a comma, between two brackets. -/
def dumpBlock (depth : Nat) (opening closing : String) (lines : List String) : String :=
  opening ++ "\n" ++
    String.join (lines.map fun line => Numeral.blanks (4 * (depth + 1)) ++ line ++ ",\n") ++
    Numeral.blanks (4 * depth) ++ closing

def dump (depth : Nat) : Outline → String
  | .number value => toString value
  | .bool value => toString value
  | .text value => Quoted.quote value
  | .code table value =>
    match table.name? value with
    | some name => name
    | none => dumpBlock depth "Other(" ")" [toString value]
  | .flags table bits => dumpBlock depth (table.title ++ "(") ")" [table.shown bits]
  | .absent => "None"
  | .present value => dumpBlock depth "Some(" ")" [value.dump (depth + 1)]
  | .sequence [] => "[]"
  | .sequence items =>
    dumpBlock depth "[" "]" (items.attach.map fun ⟨item, _⟩ => item.dump (depth + 1))
  | .record title fields =>
    dumpBlock depth (title ++ " \x7b") "\x7d" (fields.attach.map fun ⟨(name, value), _⟩ =>
      name ++ ": " ++ value.dump (depth + 1))
  | .alternative name value => dumpBlock depth (name ++ "(") ")" [value.dump (depth + 1)]
termination_by outline => sizeOf outline
decreasing_by
  · simp
  · have := List.sizeOf_lt_of_mem ‹_›
    simp only [sequence.sizeOf_spec]
    omega
  · have := List.sizeOf_lt_of_mem ‹_›
    simp only [record.sizeOf_spec, Prod.mk.sizeOf_spec] at *
    omega
  · simp only [alternative.sizeOf_spec]
    omega

end Outline

end PeCoff
