import PeCoff.Headers.Addressing

/-!
# The resource tree

Levels of named or numbered entries. Two independent bits say whether an entry
is named or numbered and whether it leads to a further level or to data. All
offsets within the tree count from its root, wherever they are stored; the data
itself lies at an address.
-/

namespace PeCoff.Resource

/-- Set in the first field of a named entry and in the second field of one that
leads to a level. -/
def highBit : UInt32 := 0x80000000

def offsetMask : UInt32 := 0x7FFFFFFF

inductive Key where
  | name (offset : UInt32)
  | id (number : UInt16)
  deriving DecidableEq

/-- In a number only the low half counts. -/
def Key.ofField (field : UInt32) : Key :=
  if field &&& highBit = 0 then .id field.toUInt16 else .name (field &&& offsetMask)

inductive Link where
  | directory (offset : UInt32)
  | data (offset : UInt32)
  deriving DecidableEq

def Link.ofField (field : UInt32) : Link :=
  if field &&& highBit = 0 then .data field else .directory (field &&& offsetMask)

/-- The name of an entry, with its stored length in units. -/
structure Label where
  length : UInt16
  text : String
  deriving DecidableEq

open Reader in
def Label.read : Reader Label := do
  let length ← u16
  let text ← utf16 length.toNat
  pure { length, text }

structure DataEntry where
  rva : UInt32
  size : UInt32
  codePage : UInt32
  reserved : UInt32
  /-- The position of the data, if a section contains its address. -/
  offset : Option Nat
  deriving DecidableEq

namespace DataEntry

open Reader

def read (headers : Headers) : Reader DataEntry := do
  let rva ← u32
  let size ← u32
  let codePage ← u32
  let reserved ← u32
  pure { rva, size, codePage, reserved, offset := headers.offset? rva }

def readData (entry : DataEntry) : Reader (Option ByteArray) :=
  match entry.offset with
  | none => pure none
  | some offset => do
    seek offset
    pure (some (← bytes entry.size.toNat))

end DataEntry

/-- What an entry leads to, with levels of type `σ`. -/
inductive Child (σ : Type) where
  | directory (level : σ)
  | data (entry : DataEntry)

structure Entry (σ : Type) where
  key : Key
  link : Link
  label : Option Label
  child : Child σ

structure LevelHeader where
  characteristics : UInt32
  timeDateStamp : UInt32
  majorVersion : UInt16
  minorVersion : UInt16
  numberOfNamedEntries : UInt16
  numberOfIdEntries : UInt16
  deriving DecidableEq

namespace LevelHeader

def empty : LevelHeader := ⟨0, 0, 0, 0, 0, 0⟩

def entryCount (header : LevelHeader) : Nat :=
  header.numberOfNamedEntries.toNat + header.numberOfIdEntries.toNat

open Reader in
def read : Reader LevelHeader := do
  let characteristics ← u32
  let timeDateStamp ← u32
  let majorVersion ← u16
  let minorVersion ← u16
  let numberOfNamedEntries ← u16
  let numberOfIdEntries ← u16
  pure {
    characteristics, timeDateStamp, majorVersion, minorVersion, numberOfNamedEntries
    numberOfIdEntries }

end LevelHeader

structure Level where
  header : LevelHeader
  entries : List (Entry Level)

def Child.level? : Child σ → Option σ
  | .directory level => some level
  | .data _ => none

def Child.data? : Child σ → Option DataEntry
  | .directory _ => none
  | .data entry => some entry

namespace Entry

def id? (entry : Entry σ) : Option UInt16 :=
  match entry.key with
  | .id number => some number
  | .name _ => none

def name? (entry : Entry σ) : Option String := entry.label.map Label.text

end Entry

namespace Level

def empty : Level := ⟨.empty, []⟩

def findId? (level : Level) (id : UInt16) : Option (Entry Level) :=
  level.entries.find? (·.id? == some id)

def findName? (level : Level) (name : String) : Option (Entry Level) :=
  level.entries.find? (·.name? == some name)

end Level

inductive Selector where
  | id (number : UInt16)
  | name (text : String)

def Level.select? (level : Level) : Selector → Option (Entry Level)
  | .id number => level.findId? number
  | .name text => level.findName? text

/-- The entry at the end of a path. A path that goes on below data, or is empty,
leads nowhere. -/
def Level.walk? (level : Level) : List Selector → Option (Entry Level)
  | [] => none
  | [last] => level.select? last
  | first :: rest =>
    match level.select? first with
    | none => none
    | some entry =>
      match entry.child with
      | .directory below => below.walk? rest
      | .data _ => none

end PeCoff.Resource
