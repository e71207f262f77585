import PeCoff.Proofs.Gate
import PeCoff.Proofs.Resource.Defects

/-!
# Resources that are not there

Whatever is wrong with its resources, an image that is well otherwise is read.
`read_degrades`: its resources are none, the whole tree, or a place with an empty
tree, one for each of three conditions on headers and bytes, and everything else
is what it is in an image without a resource directory.
-/

namespace PeCoff

open Reader

-- ---------------------------------------------------------------------------
-- Where the tree starts
-- ---------------------------------------------------------------------------

namespace Resource

def StartsAt (headers : Headers) (root : Nat) : Prop :=
  let directory := headers.directory .resourceTable
  directory.size ≠ 0 ∧ ∃ container, headers.section? directory.rva = some container ∧
    directory.rva.toNat + directory.size.toNat ≤
      container.virtualAddress.toNat + container.virtualSize.toNat ∧
    root = headers.offsetWithin container directory.rva

inductive Missing (headers : Headers) : Prop
  | absent : (headers.directory .resourceTable).size = 0 → Missing headers
  | unmapped : (∀ container ∈ headers.sections,
      ¬container.contains (headers.directory .resourceTable).rva) → Missing headers
  | crossing {container : SectionHeader} :
      headers.section? (headers.directory .resourceTable).rva = some container →
      container.virtualAddress.toNat + container.virtualSize.toNat <
        (headers.directory .resourceTable).rva.toNat +
          (headers.directory .resourceTable).size.toNat → Missing headers

theorem startsAt_iff_admits {headers : Headers} {root : Nat} :
    StartsAt headers root ↔ headers.Admits .resourceTable root := by
  simp only [StartsAt, Headers.Admits, Headers.section?_eq_some]

/-- The tree is missing where the gate refuses its directory. -/
theorem missing_iff_refused {headers : Headers} :
    Missing headers ↔ headers.Closed .resourceTable ∨ headers.Crosses .resourceTable := by
  constructor
  · intro h
    cases h with
    | absent hz => exact .inl (.empty hz)
    | unmapped hn =>
      refine .inl (.unmapped fun container hm hc => hn container hm ?_)
      exact SectionHeader.contains_iff_covers.mpr hc
    | crossing hs hc => exact .inr ⟨_, Headers.section?_eq_some.mp hs, hc⟩
  · rintro ((hb | hz | hn) | ⟨container, hf, hc⟩)
    · exact .absent (Headers.size_eq_zero_of_beyond hb)
    · exact .absent hz
    · refine .unmapped fun container hm hc => hn container hm ?_
      exact SectionHeader.contains_iff_covers.mp hc
    · exact .crossing (Headers.section?_eq_some.mpr hf) hc

theorem Missing.rootOffset? {headers : Headers} (h : Missing headers) :
    Table.rootOffset? headers = none :=
  Table.rootOffset?_of_refused (missing_iff_refused.mp h)

theorem rootOffset?_eq_some {headers : Headers} {root : Nat} :
    Table.rootOffset? headers = some root ↔ StartsAt headers root := by
  rw [Table.rootOffset?_eq_some_iff, startsAt_iff_admits]

theorem missing_or_startsAt (headers : Headers) :
    Missing headers ∨ ∃ root, StartsAt headers root := by
  simp only [missing_iff_refused, startsAt_iff_admits, or_assoc]
  exact headers.closed_or_crosses_or_admits .resourceTable

-- ---------------------------------------------------------------------------
-- What is read of the tree
-- ---------------------------------------------------------------------------

/-- What the resources are for given headers and bytes. There is no tree in part. -/
inductive Outcome (headers : Headers) (bytes : ByteArray) : Table → Prop
  | missing : Missing headers → Outcome headers bytes .empty
  | whole {root : Nat} {tree : Level} : StartsAt headers root → ¬Defect headers bytes root →
      Unfolds headers bytes root 0 tree →
      Outcome headers bytes
        { rootOffset := some root, root := tree, version := versionOf tree bytes }
  | broken {root : Nat} : StartsAt headers root → Defect headers bytes root →
      Outcome headers bytes { rootOffset := some root, root := .empty, version := none }

theorem Missing.ofBytes {headers : Headers} (h : Missing headers) (bytes : ByteArray) :
    Table.ofBytes headers bytes = .empty :=
  Table.ofBytes_of_none h.rootOffset? bytes

theorem StartsAt.ofBytes_of_defect {headers : Headers} {bytes : ByteArray} {root : Nat}
    (h : StartsAt headers root) (hd : Defect headers bytes root) :
    Table.ofBytes headers bytes =
      { rootOffset := some root, root := .empty, version := none } := by
  cases ht : (Level.read headers root maxDepth 0 maxEntries).value bytes root with
  | error cause => exact Table.ofBytes_of_error (rootOffset?_eq_some.mpr h) ht
  | ok found =>
    obtain ⟨hu, hl, he, -⟩ := (gives_level maxDepth 0 maxEntries root found).mp ht
    exact absurd hd (unfolds_iff_not_defect.mp ⟨found.1, hu, hl, he⟩)

theorem outcome_ofBytes (headers : Headers) (bytes : ByteArray) :
    Outcome headers bytes (Table.ofBytes headers bytes) := by
  rcases missing_or_startsAt headers with hm | ⟨root, hs⟩
  · rw [hm.ofBytes]
    exact .missing hm
  · by_cases hd : Defect headers bytes root
    · rw [hs.ofBytes_of_defect hd]
      exact .broken hs hd
    · obtain ⟨tree, hu, hl, he⟩ := unfolds_iff_not_defect.mpr hd
      rw [Table.ofBytes_of_read (rootOffset?_eq_some.mpr hs) (hu.value_read hl he root)]
      exact .whole hs hd hu

end Resource

-- ---------------------------------------------------------------------------
-- Headers without a resource directory
-- ---------------------------------------------------------------------------

def Headers.withoutResources (headers : Headers) : Headers :=
  { headers with
    optional := headers.optional.map fun optional => {
      optional with
      dataDirectories := optional.dataDirectories.set DirectorySlot.resourceTable.index .absent } }

namespace Headers

variable (headers : Headers)

theorem imageBase_withoutResources : headers.withoutResources.imageBase = headers.imageBase := by
  unfold imageBase withoutResources
  cases headers.optional <;> rfl

theorem directory_withoutResources {slot : DirectorySlot}
    (hs : slot.index ≠ DirectorySlot.resourceTable.index) :
    headers.withoutResources.directory slot = headers.directory slot := by
  unfold directory withoutResources OptionalHeader.directory
  cases headers.optional with
  | none => rfl
  | some optional => simp only [Option.map_some, List.getElem?_set_ne (Ne.symm hs)]

theorem resourceTable_withoutResources :
    headers.withoutResources.directory .resourceTable = .absent := by
  unfold directory withoutResources OptionalHeader.directory
  cases headers.optional with
  | none => rfl
  | some optional =>
    simp only [Option.map_some, List.getElem?_set_self']
    cases optional.dataDirectories[DirectorySlot.resourceTable.index]? <;> rfl

theorem locateDirectory_withoutResources {slot : DirectorySlot}
    (hs : slot.index ≠ DirectorySlot.resourceTable.index) :
    headers.withoutResources.locateDirectory slot = headers.locateDirectory slot := by
  unfold locateDirectory
  rw [headers.directory_withoutResources hs]
  rfl

end Headers

/-- The other parts of the image are what they are if its resource directory is
absent, and then there are no resources. -/
structure Image.Confined (bytes : ByteArray) (image : Image) : Prop where
  managed : (ManagedHeader.find image.headers.withoutResources).value bytes 0 = .ok image.managed
  exports : (ExportTable.read image.headers.withoutResources).value bytes 0 = .ok image.exports
  imports : (ImportedModule.readAll image.headers.withoutResources).value bytes 0 =
    .ok image.imports
  debug : (DebugRecord.readAll image.headers.withoutResources).value bytes 0 = .ok image.debug
  resources : (Resource.Table.read image.headers.withoutResources).value bytes 0 = .ok .empty

section

variable (headers : Headers)

theorem ManagedHeader.find_withoutResources :
    find headers.withoutResources = find headers := by
  have hs : DirectorySlot.managedHeader.index ≠ DirectorySlot.resourceTable.index := by decide
  unfold find
  rw [headers.locateDirectory_withoutResources hs, headers.directory_withoutResources hs]

theorem ExportTable.readTarget_withoutResources (directory : DataDirectory) (function : UInt32) :
    readTarget headers.withoutResources directory function =
      readTarget headers directory function := by
  unfold readTarget
  rw [headers.imageBase_withoutResources]
  rfl

theorem ExportTable.read_withoutResources :
    read headers.withoutResources = read headers := by
  have hs : DirectorySlot.exportTable.index ≠ DirectorySlot.resourceTable.index := by decide
  have hr : readRow headers.withoutResources = readRow headers := by
    funext header functions row
    unfold readRow
    rw [headers.directory_withoutResources hs]
    simp only [readTarget_withoutResources]
    rfl
  unfold read
  rw [headers.locateDirectory_withoutResources hs, hr]
  rfl

theorem ImportedModule.readAll_withoutResources :
    readAll headers.withoutResources = readAll headers := by
  have hs : DirectorySlot.importTable.index ≠ DirectorySlot.resourceTable.index := by decide
  unfold readAll
  rw [headers.locateDirectory_withoutResources hs, headers.directory_withoutResources hs]
  rfl

theorem DebugRecord.readAll_withoutResources :
    readAll headers.withoutResources = readAll headers := by
  have hs : DirectorySlot.debug.index ≠ DirectorySlot.resourceTable.index := by decide
  unfold readAll
  rw [headers.locateDirectory_withoutResources hs, headers.directory_withoutResources hs]
  rfl

theorem Resource.Table.value_read_withoutResources (bytes : ByteArray) (position : Nat) :
    (read headers.withoutResources).value bytes position = .ok .empty := by
  have hm : Missing headers.withoutResources :=
    .absent (congrArg DataDirectory.size headers.resourceTable_withoutResources)
  rw [value_read, hm.ofBytes]

end

namespace Image

open Resource (StartsAt Missing Outcome Defect)

theorem ok_of_isOk {outcome : Except ε α} (h : outcome.isOk = true) :
    ∃ value, outcome = .ok value := by
  cases outcome with
  | error cause => contradiction
  | ok value => exact ⟨value, rfl⟩

/-- Nothing that is wrong with the resources is wrong with the rest. -/
theorem read_degrades {bytes : ByteArray} {loaded : Bool} {headers : Headers}
    {managed : Option ManagedHeader} {exports : Option ExportTable}
    {imports : List ImportedModule} {debug : List DebugRecord}
    (hh : (Headers.read loaded).value bytes 0 = .ok headers)
    (hm : (ManagedHeader.find headers).value bytes 0 = .ok managed)
    (he : (ExportTable.read headers).value bytes 0 = .ok exports)
    (hi : (ImportedModule.readAll headers).value bytes 0 = .ok imports)
    (hd : (DebugRecord.readAll headers).value bytes 0 = .ok debug) :
    ∃ resources,
      read bytes loaded = .ok { headers, exports, imports, debug, resources, managed } ∧
      Outcome headers bytes resources ∧
      (Missing headers → resources = .empty) ∧
      (∀ root, StartsAt headers root → Defect headers bytes root →
        resources = { rootOffset := some root, root := .empty, version := none }) ∧
      Confined bytes { headers, exports, imports, debug, resources, managed } := by
  refine ⟨Resource.Table.ofBytes headers bytes, ?_, Resource.outcome_ofBytes headers bytes,
    fun h => h.ofBytes bytes, fun root h hd => h.ofBytes_of_defect hd, ?_⟩
  · rw [read_of_headers hh 0, directories, hm, he, hi, hd]
    rfl
  · constructor
    · rw [ManagedHeader.find_withoutResources, hm]
    · rw [ExportTable.read_withoutResources, he]
    · rw [ImportedModule.readAll_withoutResources, hi]
    · rw [DebugRecord.readAll_withoutResources, hd]
    · exact Resource.Table.value_read_withoutResources headers bytes 0

/-- A file whose only section holds a resource tree, the one entry of its root
leading to the root again. Each field is given by its width and its value. -/
def loop : ByteArray :=
  ⟨(([
      (2, 0x5A4D), (58, 0), (4, 0x40),
      (4, 0x4550), (2, 0x14C), (2, 1), (12, 0), (2, 120), (2, 0),
      (2, 0x10B), (90, 0), (4, 3), (16, 0), (4, 0x1000), (4, 24),
      (8, 0), (4, 24), (4, 0x1000), (4, 24), (4, 248), (16, 0),
      (14, 0), (2, 1), (4, 1), (4, 0x80000000)] : List (Nat × Nat)).flatMap fun field =>
    LittleEndian.bytes field.1 field.2).toArray⟩

theorem below_loop : Resource.Below loop 248 0 0 :=
  ⟨1, 0, by decide +kernel, Nat.one_pos, by decide +kernel⟩

theorem read_degrades_loop :
    ∃ headers image, (Headers.read false).value loop 0 = .ok headers ∧
      StartsAt headers 248 ∧ Defect headers loop 248 ∧ read loop false = .ok image ∧
      image.resources = { rootOffset := some 248, root := .empty, version := none } := by
  have h : ((Headers.read false).value loop 0).toOption.any (fun headers =>
      ((ManagedHeader.find headers).value loop 0).isOk &&
      ((ExportTable.read headers).value loop 0).isOk &&
      ((ImportedModule.readAll headers).value loop 0).isOk &&
      ((DebugRecord.readAll headers).value loop 0).isOk &&
      Resource.Table.rootOffset? headers == some 248) = true := by decide +kernel
  obtain ⟨headers, hh, h⟩ := exists_ok_of_any h
  simp only [Bool.and_eq_true, beq_iff_eq] at h
  obtain ⟨⟨⟨⟨hm, he⟩, hi⟩, hd⟩, hr⟩ := h
  obtain ⟨managed, hm⟩ := ok_of_isOk hm
  obtain ⟨exports, he⟩ := ok_of_isOk he
  obtain ⟨imports, hi⟩ := ok_of_isOk hi
  obtain ⟨debug, hd⟩ := ok_of_isOk hd
  have hs := Resource.rootOffset?_eq_some.mp hr
  have hc : Defect headers loop 248 := .cycle .here (.step below_loop .here)
  obtain ⟨resources, hi, -, -, hb, -⟩ := read_degrades hh hm he hi hd
  exact ⟨headers, _, hh, hs, hc, hi, hb 248 hs hc⟩

end Image

end PeCoff
