import PeCoff.Image
import PeCoff.Proofs.Bytes.Anchored

/-!
# The parts of an image

Every directory is read from a place that the headers give, so each can be read
alone. An image is its headers, its directories and its resources, and since
resources never fail, only the others decide whether there is an image.
-/

namespace PeCoff

open Reader

-- ---------------------------------------------------------------------------
-- Outcomes
-- ---------------------------------------------------------------------------

-- Outcomes are rewritten with these and not compared by computing: comparing two
-- mapped outcomes starts with the functions, and those read whole resource trees.

theorem bind_ok {outcome : Except ε α} {next : α → Except ε β} {value : β} :
    outcome >>= next = .ok value ↔ ∃ given, outcome = .ok given ∧ next given = .ok value := by
  cases outcome <;> simp [bind, Except.bind]

theorem toOption_eq_some {outcome : Except ε α} {value : α} :
    outcome.toOption = some value ↔ outcome = .ok value := by
  cases outcome <;> simp [Except.toOption]

@[simp] theorem ok_bind (value : α) (next : α → Except ε β) :
    Except.ok value >>= next = next value := rfl

@[simp] theorem error_bind (cause : ε) (next : α → Except ε β) :
    Except.error cause >>= next = .error cause := rfl

@[simp] theorem map_error (cause : ε) (f : α → β) :
    (Except.error cause : Except ε α).map f = .error cause := rfl

@[simp] theorem map_ok (value : α) (f : α → β) :
    (Except.ok value : Except ε α).map f = .ok (f value) := rfl

theorem exists_ok_of_any {outcome : Except ε α} {test : α → Bool}
    (h : outcome.toOption.any test = true) : ∃ value, outcome = .ok value ∧ test value = true := by
  cases outcome with
  | error cause => contradiction
  | ok value => exact ⟨value, rfl, h⟩

theorem bind_pure_eq_map (outcome : Except ε α) (f : α → β) :
    (outcome >>= fun value => pure (f value)) = outcome.map f := by
  cases outcome <;> rfl

-- ---------------------------------------------------------------------------
-- Directories find their own place
-- ---------------------------------------------------------------------------

theorem ManagedHeader.anchored_find (headers : Headers) : (find headers).Anchored := by
  refine .bind (.lift _) fun found => ?_
  cases found with
  | none => exact .pure none
  | some start => exact .bind (.require _ _) fun _ => .seek_bind _ _

theorem ExportTable.anchored_read (headers : Headers) : (read headers).Anchored := by
  refine .bind (.lift _) fun found => ?_
  cases found with
  | none => exact .pure none
  | some start => exact .seek_bind _ _

theorem ImportedModule.anchored_readAll (headers : Headers) : (readAll headers).Anchored := by
  refine .bind (.lift _) fun found => ?_
  cases found with
  | none => exact .pure []
  | some start => exact .collect (fun index => .seek_bind _ _) _

theorem DebugRecord.anchored_readAll (headers : Headers) : (readAll headers).Anchored := by
  refine .bind (.lift _) fun found => ?_
  cases found with
  | none => exact .pure []
  | some start => exact .bind (.require _ _) fun _ => .seek_bind _ _

namespace Resource

theorem Level.anchored_read (headers : Headers) (root depth : Nat) (offset : UInt32)
    (budget : Nat) : (Level.read headers root depth offset budget).Anchored := by
  cases depth with
  | zero => exact .fail _
  | succ depth => exact .seek_bind _ _

-- ---------------------------------------------------------------------------
-- Resources never fail
-- ---------------------------------------------------------------------------

/-- The version record that a tree leads to, if the bytes hold one there. -/
def versionOf (root : Level) (bytes : ByteArray) : Option Version.Record :=
  match (versionLeaf? root).bind DataEntry.offset with
  | none => none
  | some offset => (Version.Record.read.value bytes offset).toOption.join

theorem value_readVersion (root : Level) (bytes : ByteArray) (position : Nat) :
    (readVersion root).value bytes position = .ok (versionOf root bytes) := by
  unfold readVersion versionOf
  cases (versionLeaf? root).bind DataEntry.offset with
  | none => rfl
  | some offset =>
    refine (Anchored.value_attempt_bind (fun found => ?_) bytes position position).trans ?_
    · cases found with
      | none => exact .pure none
      | some record => exact .pure record
    · show _ = Except.ok ((seek offset >>= fun _ => Version.Record.read).value bytes
        position).toOption.join
      cases ((seek offset >>= fun _ => Version.Record.read).value bytes position).toOption <;> rfl

def Table.ofTree (bytes : ByteArray) (root : Nat) : Option (Level × Nat) → Table
  | some (level, _) =>
    { rootOffset := some root, root := level, version := versionOf level bytes }
  | none => { empty with rootOffset := some root }

/-- Where the tree is. A directory that is refused is as good as none. -/
def Table.rootOffset? (headers : Headers) : Option Nat :=
  (headers.directoryOffset? (headers.directory .resourceTable) false).toOption.join

def Table.ofBytes (headers : Headers) (bytes : ByteArray) : Table :=
  match rootOffset? headers with
  | some root =>
    ofTree bytes root ((Level.read headers root maxDepth 0 maxEntries).value bytes root).toOption
  | none => empty

@[simp] theorem Table.rootOffset_ofTree (bytes : ByteArray) (root : Nat)
    (found : Option (Level × Nat)) :
    (ofTree bytes root found).rootOffset = some root := by
  rcases found with _ | ⟨level, left⟩ <;> rfl

@[simp] theorem Table.rootOffset_ofBytes (headers : Headers) (bytes : ByteArray) :
    (ofBytes headers bytes).rootOffset = rootOffset? headers := by
  unfold ofBytes
  cases rootOffset? headers with
  | none => rfl
  | some root => exact rootOffset_ofTree _ _ _

theorem Table.ofBytes_of_none {headers : Headers} (hr : rootOffset? headers = none)
    (bytes : ByteArray) : ofBytes headers bytes = empty := by
  unfold ofBytes
  rw [hr]

theorem Table.ofBytes_of_error {headers : Headers} {bytes : ByteArray} {root : Nat}
    {cause : ReadError} (hr : rootOffset? headers = some root)
    (ht : (Level.read headers root maxDepth 0 maxEntries).value bytes root = .error cause) :
    ofBytes headers bytes = { empty with rootOffset := some root } := by
  unfold ofBytes
  rw [hr]
  simp only [ht]
  rfl

theorem Table.ofBytes_of_read {headers : Headers} {bytes : ByteArray} {root left : Nat}
    {tree : Level} (hr : rootOffset? headers = some root)
    (ht : (Level.read headers root maxDepth 0 maxEntries).value bytes root = .ok (tree, left)) :
    ofBytes headers bytes =
      { rootOffset := some root, root := tree, version := versionOf tree bytes } := by
  unfold ofBytes
  rw [hr]
  simp only [ht]
  rfl

theorem Table.exists_of_version {headers : Headers} {bytes : ByteArray} {record : Version.Record}
    (hv : (ofBytes headers bytes).version = some record) :
    ∃ root tree left, rootOffset? headers = some root ∧
      (Level.read headers root maxDepth 0 maxEntries).value bytes root = .ok (tree, left) ∧
      versionOf tree bytes = some record := by
  unfold ofBytes at hv
  split at hv
  next root hr =>
    cases ht : (Level.read headers root maxDepth 0 maxEntries).value bytes root with
    | error cause =>
      rw [ht] at hv
      contradiction
    | ok found =>
      obtain ⟨tree, left⟩ := found
      rw [ht] at hv
      exact ⟨root, tree, left, hr, ht, hv⟩
  next => contradiction

def Table.finish (root : Nat) : Option (Level × Nat) → Reader Table
  | some (level, _) => do
    let version ← readVersion level
    pure { rootOffset := some root, root := level, version }
  | none => pure { empty with rootOffset := some root }

theorem Table.value_finish (root : Nat) (found : Option (Level × Nat)) (bytes : ByteArray)
    (position : Nat) :
    (finish root found).value bytes position = .ok (ofTree bytes root found) := by
  rcases found with _ | ⟨level, left⟩
  · rfl
  · refine (Anchored.value_bind (fun version => .pure _) bytes position position).trans ?_
    rw [value_readVersion]
    rfl

theorem Table.anchored_finish (root : Nat) (found : Option (Level × Nat)) :
    (finish root found).Anchored := by
  intro bytes position start
  rw [value_finish, value_finish]

theorem Table.value_read (headers : Headers) (bytes : ByteArray) (position : Nat) :
    (read headers).value bytes position = .ok (ofBytes headers bytes) := by
  have ht (root : Nat) :
      (attempt (Level.read headers root maxDepth 0 maxEntries) >>= finish root).Anchored :=
    .bind (.attempt (Level.anchored_read _ _ _ _ _)) (anchored_finish root)
  refine (Anchored.value_attempt_bind (fun found => ?_) bytes position position).trans ?_
  · rcases found with _ | _ | root
    · exact .pure _
    · exact .pure _
    · exact ht root
  · unfold ofBytes rootOffset? Headers.locateDirectory
    rcases headers.directoryOffset? (headers.directory .resourceTable) false with cause | _ | root
    · rfl
    · rfl
    · show (attempt (Level.read headers root maxDepth 0 maxEntries) >>= finish root).value
        bytes position = _
      rw [ht root bytes position root, Anchored.value_attempt_bind (anchored_finish root) bytes
        root root, value_finish]
      rfl

end Resource

-- ---------------------------------------------------------------------------
-- Images
-- ---------------------------------------------------------------------------

namespace Image

/-- The headers and directories, every directory being read from `start`. The
resources are left empty. -/
def directories (headers : Headers) (bytes : ByteArray) (start : Nat) :
    Except ReadError Image := do
  let managed ← (ManagedHeader.find headers).value bytes start
  let exports ← (ExportTable.read headers).value bytes start
  let imports ← (ImportedModule.readAll headers).value bytes start
  let debug ← (DebugRecord.readAll headers).value bytes start
  pure { headers, exports, imports, debug, resources := .empty, managed }

theorem value_directories (headers : Headers) (bytes : ByteArray) (position start : Nat) :
    (do
      let managed ← ManagedHeader.find headers
      let exports ← ExportTable.read headers
      let imports ← ImportedModule.readAll headers
      let debug ← DebugRecord.readAll headers
      let resources ← Resource.Table.read headers
      pure { headers, exports, imports, debug, resources, managed } : Reader Image).value
        bytes position = (do
      let image ← directories headers bytes start
      pure { image with resources := Resource.Table.ofBytes headers bytes }) := by
  have hr : (Resource.Table.read headers).Anchored := by
    intro bytes position start
    rw [Resource.Table.value_read, Resource.Table.value_read]
  have hd := DebugRecord.anchored_readAll headers
  have hi := ImportedModule.anchored_readAll headers
  have he := ExportTable.anchored_read headers
  have hm := ManagedHeader.anchored_find headers
  rw [Anchored.value_bind (fun managed => .bind he fun exports => .bind hi fun imports =>
    .bind hd fun debug => .bind hr fun resources => .pure _) bytes position start,
    hm bytes position start]
  simp only [directories, bind_assoc, pure_bind]
  congr 1
  funext managed
  rw [Anchored.value_bind (fun exports => .bind hi fun imports => .bind hd fun debug =>
    .bind hr fun resources => .pure _) bytes start start]
  congr 1
  funext exports
  rw [Anchored.value_bind (fun imports => .bind hd fun debug => .bind hr fun resources =>
    .pure _) bytes start start]
  congr 1
  funext imports
  rw [Anchored.value_bind (fun debug => .bind hr fun resources => .pure _) bytes start start]
  congr 1
  funext debug
  rw [Anchored.value_bind (fun resources => .pure _) bytes start start,
    Resource.Table.value_read]
  rfl

theorem headers_of_directories {headers : Headers} {bytes : ByteArray} {start : Nat} {image : Image}
    (h : directories headers bytes start = .ok image) : image.headers = headers := by
  simp only [directories, bind_ok] at h
  obtain ⟨managed, _, exports, _, imports, _, debug, _, hi⟩ := h
  cases hi
  rfl

theorem read_eq (bytes : ByteArray) (loaded : Bool) (start : Nat) :
    read bytes loaded = (do
      let headers ← (Headers.read loaded).value bytes 0
      let image ← directories headers bytes start
      pure { image with resources := Resource.Table.ofBytes headers bytes }) := by
  unfold read reader Reader.value
  simp only [run_bind]
  cases (Headers.read loaded).run bytes 0 with
  | error cause => rfl
  | ok result => exact value_directories result.1 bytes result.2 start

theorem read_of_headers {bytes : ByteArray} {loaded : Bool} {headers : Headers}
    (h : (Headers.read loaded).value bytes 0 = .ok headers) (start : Nat) :
    read bytes loaded = (directories headers bytes start).map fun image =>
      { image with resources := Resource.Table.ofBytes headers bytes } := by
  rw [read_eq bytes loaded start, h, ok_bind, bind_pure_eq_map]

/-- Everything that can fail: headers and directories, with empty resources. -/
def readFixed (bytes : ByteArray) (loaded : Bool) : Except ReadError Image := do
  let headers ← (Headers.read loaded).value bytes 0
  directories headers bytes 0

theorem read_eq_map (bytes : ByteArray) (loaded : Bool) :
    read bytes loaded = (readFixed bytes loaded).map fun image =>
      { image with resources := Resource.Table.ofBytes image.headers bytes } := by
  unfold readFixed
  cases hh : (Headers.read loaded).value bytes 0 with
  | error cause =>
    rw [read_eq bytes loaded 0, hh, error_bind, error_bind, map_error]
  | ok headers =>
    rw [read_of_headers hh 0, ok_bind]
    cases hd : directories headers bytes 0 with
    | error cause => rw [map_error, map_error]
    | ok image =>
      have hi := headers_of_directories hd
      subst hi
      rw [map_ok, map_ok]

end Image

end PeCoff
