import PeCoff.Proofs.Directories
import PeCoff.Proofs.Resource.Unfolding

/-!
# Images on a copy

The parts of an image behind its headers, read of a byte source and of its copy.
Directories that fail do so alike. A resource tree that is read stays whole and
moves, and the version record that it leads to stays what it was.
-/

namespace PeCoff

open Reader

def Resource.Table.relocate (shift : Nat) (table : Table) : Table where
  rootOffset := table.rootOffset.map (· + shift)
  root := table.root.relocate shift
  version := table.version

namespace Copy.Places

variable {c : Copy} {headers headers' : Headers} (hp : c.Places headers headers')
include hp

theorem follows_directories (hd : c.DebugPlaced headers headers') {start : Nat}
    (hs : c.cut ≤ start) :
    c.Follows FieldSize (fun image => { image with headers := headers' })
      (Image.directories headers c.original start)
      (Image.directories headers' c.copy (start + c.shift)) := by
  unfold Image.directories
  refine (hp.tracks_managed.value hs).bind fun managed _ => ?_
  refine (hp.tracks_exports.value hs).bind fun exports _ => ?_
  refine (hp.tracks_imports.value hs).bind fun imports _ => ?_
  refine ((hp.tracks_debug hd).value hs).bind fun debug _ => ?_
  rfl

-- ---------------------------------------------------------------------------
-- Version records
-- ---------------------------------------------------------------------------

theorem le_versionLeaf {root offset : Nat} {level : UInt32} {tree : Resource.Level}
    (hu : Resource.Unfolds headers c.original root level tree)
    (hv : (Resource.versionLeaf? tree).bind Resource.DataEntry.offset = some offset) :
    c.cut ≤ offset := by
  obtain ⟨leaf, hl, ho⟩ := Option.bind_eq_some_iff.mp hv
  rw [hu.offset_versionLeaf hl] at ho
  exact hp.le_offset? ho

theorem follows_version {root offset : Nat} {level : UInt32} {tree : Resource.Level}
    (hu : Resource.Unfolds headers c.original root level tree)
    (hv : (Resource.versionLeaf? tree).bind Resource.DataEntry.offset = some offset) :
    c.Follows (fun _ => True) id (Version.Record.read.value c.original offset)
      (Version.Record.read.value c.copy (offset + c.shift)) :=
  (tracks_of_forward Version.Record.forward_read).value (hp.le_versionLeaf hu hv)

theorem versionOf_of_some {root : Nat} {level : UInt32} {tree : Resource.Level}
    {record : Version.Record} (hu : Resource.Unfolds headers c.original root level tree)
    (hv : Resource.versionOf tree c.original = some record) :
    Resource.versionOf (tree.relocate c.shift) c.copy = some record := by
  unfold Resource.versionOf at hv ⊢
  rw [Resource.versionOffset_relocate]
  split at hv
  next => contradiction
  next offset ho =>
    have hf := hp.follows_version hu ho
    simp only [ho, Option.map_some]
    cases hr : Version.Record.read.value c.original offset with
    | error cause =>
      rw [hr] at hv
      contradiction
    | ok found =>
      rw [hr] at hv
      rw [hf.ok hr]
      exact hv

theorem versionOf_relocate (hs : c.copy.size = c.original.size + c.shift) {root : Nat}
    {level : UInt32} {tree : Resource.Level}
    (hu : Resource.Unfolds headers c.original root level tree) :
    Resource.versionOf (tree.relocate c.shift) c.copy = Resource.versionOf tree c.original := by
  unfold Resource.versionOf
  rw [Resource.versionOffset_relocate]
  cases ho : (Resource.versionLeaf? tree).bind Resource.DataEntry.offset with
  | none => rfl
  | some offset =>
    simp only [Option.map_some, (hp.follows_version hu ho).eq_relocate hs]
    cases Version.Record.read.value c.original offset <;> rfl

-- ---------------------------------------------------------------------------
-- Resource tables
-- ---------------------------------------------------------------------------

theorem rootOffset? : Resource.Table.rootOffset? headers' =
    (Resource.Table.rootOffset? headers).map (· + c.shift) := by
  unfold Resource.Table.rootOffset?
  rw [hp.directory, hp.directoryOffset?]
  rcases headers.directoryOffset? (headers.directory .resourceTable) false with cause | _ | root <;>
    rfl

theorem le_rootOffset? {root : Nat} (hr : Resource.Table.rootOffset? headers = some root) :
    c.cut ≤ root := by
  unfold Resource.Table.rootOffset? at hr
  cases hd : headers.directoryOffset? (headers.directory .resourceTable) false with
  | error cause =>
    rw [hd] at hr
    contradiction
  | ok found =>
    rw [hd] at hr
    exact hp.le_directoryOffset? (hd.trans (congrArg Except.ok hr))

theorem follows_tree {root : Nat} (hr : Resource.Table.rootOffset? headers = some root) :
    c.Follows (fun _ => True) (fun found => (found.1.relocate c.shift, found.2))
      ((Resource.Level.read headers root Resource.maxDepth 0 Resource.maxEntries).value
        c.original root)
      ((Resource.Level.read headers' (root + c.shift) Resource.maxDepth 0
        Resource.maxEntries).value c.copy (root + c.shift)) :=
  (hp.tracks_level (hp.le_rootOffset? hr) _ _ _).value (hp.le_rootOffset? hr)

theorem rootOffset?_of_some {root : Nat} (hr : Resource.Table.rootOffset? headers = some root) :
    Resource.Table.rootOffset? headers' = some (root + c.shift) := by
  rw [hp.rootOffset?, hr]
  rfl

theorem ofBytes_of_read {root left : Nat} {tree : Resource.Level}
    (hr : Resource.Table.rootOffset? headers = some root)
    (ht : (Resource.Level.read headers root Resource.maxDepth 0 Resource.maxEntries).value
      c.original root = .ok (tree, left)) :
    Resource.Table.ofBytes headers' c.copy =
      { rootOffset := some (root + c.shift)
        root := tree.relocate c.shift
        version := Resource.versionOf (tree.relocate c.shift) c.copy } :=
  Resource.Table.ofBytes_of_read (hp.rootOffset?_of_some hr) ((hp.follows_tree hr).ok ht)

theorem ofBytes_relocate (hs : c.copy.size = c.original.size + c.shift) :
    Resource.Table.ofBytes headers' c.copy =
      (Resource.Table.ofBytes headers c.original).relocate c.shift := by
  cases hr : Resource.Table.rootOffset? headers with
  | none =>
    have hr' : Resource.Table.rootOffset? headers' = none := by rw [hp.rootOffset?, hr]; rfl
    rw [Resource.Table.ofBytes_of_none hr, Resource.Table.ofBytes_of_none hr']
    rfl
  | some root =>
    cases ht : (Resource.Level.read headers root Resource.maxDepth 0 Resource.maxEntries).value
      c.original root with
    | error cause =>
      have ht' := (hp.follows_tree hr).eq_relocate hs
      rw [ht] at ht'
      rw [Resource.Table.ofBytes_of_error hr ht,
        Resource.Table.ofBytes_of_error (hp.rootOffset?_of_some hr) ht']
      rfl
    | ok found =>
      obtain ⟨tree, left⟩ := found
      have hu := ((Resource.gives_level _ _ _ _ _).mp ht).1
      rw [Resource.Table.ofBytes_of_read hr ht, hp.ofBytes_of_read hr ht,
        hp.versionOf_relocate hs hu]
      rfl

end Copy.Places

end PeCoff
