import PeCoff.Resource.Level
import PeCoff.Version

/-!
# Reading the resource tree

The tree is read to a bounded depth and with a bounded number of entries over
all levels, a level that several entries lead to counting once for each. A tree
that cannot be read whole is read as empty and fails nothing else.
-/

namespace PeCoff.Resource

/-- How many levels a path may have. -/
def maxDepth : Nat := 8

/-- How many entries a tree may have in all. -/
def maxEntries : Nat := 65536

open Reader

structure RawEntry where
  key : Key
  link : Link
  deriving DecidableEq

def RawEntry.read : Reader RawEntry := do
  let first ← u32
  let second ← u32
  pure { key := .ofField first, link := .ofField second }

def readLabel (root : Nat) : Key → Reader (Option Label)
  | .id _ => pure none
  | .name offset => do
    seek (root + offset.toNat)
    pure (some (← Label.read))

namespace Level

/-- What a stored entry leads to and the entries still allowed behind it,
`below` reading a level. -/
def readChild (headers : Headers) (root : Nat) (below : UInt32 → Nat → Reader (Level × Nat))
    (budget : Nat) : Link → Reader (Child Level × Nat)
  | .directory offset => do
    let (level, budget) ← below offset budget
    pure (.directory level, budget)
  | .data offset => do
    seek (root + offset.toNat)
    pure (.data (← DataEntry.read headers), budget)

def readEntry (headers : Headers) (root : Nat) (below : UInt32 → Nat → Reader (Level × Nat))
    (done : List (Entry Level) × Nat) (raw : RawEntry) : Reader (List (Entry Level) × Nat) := do
  let label ← readLabel root raw.key
  let (child, budget) ← readChild headers root below done.2 raw.link
  pure ({ key := raw.key, link := raw.link, label, child } :: done.1, budget)

/-- Reads a level and everything below it, `depth` levels at most, and gives the
number of entries still allowed. -/
def read (headers : Headers) (root : Nat) :
    (depth : Nat) → (offset : UInt32) → (budget : Nat) → Reader (Level × Nat)
  | 0, _, _ => fail (.resourceTreeDepth maxDepth)
  | depth + 1, offset, budget => do
    seek (root + offset.toNat)
    let header ← LevelHeader.read
    require (header.entryCount ≤ budget) (.resourceEntryCount maxEntries)
    let raw ← times header.entryCount RawEntry.read
    let (entries, budget) ←
      fold (readEntry headers root (read headers root depth)) ([], budget - header.entryCount) raw
    pure ({ header, entries := entries.reverse }, budget)

end Level

/-- The version resource: type 16, name 1, the first language whatever it is. -/
def versionLeaf? (root : Level) : Option DataEntry := do
  let type ← root.findId? 16
  let names ← type.child.level?
  let name ← names.findId? 1
  let languages ← name.child.level?
  let language ← languages.entries.head?
  language.child.data?

def readVersion (root : Level) : Reader (Option Version.Record) :=
  match (versionLeaf? root).bind DataEntry.offset with
  | none => pure none
  | some offset => do
    match ← attempt (do seek offset; Version.Record.read) with
    | some record => pure record
    | none => pure none

/-- The resources of an image. The root is empty if there is no tree or none
that can be read. -/
structure Table where
  rootOffset : Option Nat
  root : Level
  version : Option Version.Record

namespace Table

def empty : Table := ⟨none, .empty, none⟩

def read (headers : Headers) : Reader Table := do
  match ← attempt (headers.locateDirectory .resourceTable) with
  | some (some root) =>
    match ← attempt (Level.read headers root maxDepth 0 maxEntries) with
    | some (level, _) => do
      let version ← readVersion level
      pure { rootOffset := some root, root := level, version }
    | none => pure { empty with rootOffset := some root }
  | _ => pure empty

end Table

end PeCoff.Resource
