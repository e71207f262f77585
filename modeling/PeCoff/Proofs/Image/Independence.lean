import PeCoff.Proofs.Image.Parts

/-!
# Each part alone

No reader of an image learns from the position where another one left off.
`read_independent`: every part can be read by itself and from anywhere, and the
image is what its parts are, the first of them that fails deciding the failure.
-/

namespace PeCoff

open Reader

theorem Headers.anchored_read (loaded : Bool) : (read loaded).Anchored :=
  fun _ _ _ => rfl

namespace Resource

theorem anchored_readVersion (root : Level) : (readVersion root).Anchored := by
  intro bytes position start
  rw [value_readVersion, value_readVersion]

theorem Table.anchored_read (headers : Headers) : (read headers).Anchored := by
  intro bytes position start
  rw [value_read, value_read]

end Resource

namespace Image

/-- The parts of an image, each read from a place of its own. The places have no
part in what is read, and resources are always there. -/
theorem read_independent :
    (∀ loaded, (Headers.read loaded).Anchored) ∧
    (∀ headers, (ManagedHeader.find headers).Anchored ∧ (ExportTable.read headers).Anchored ∧
      (ImportedModule.readAll headers).Anchored ∧ (DebugRecord.readAll headers).Anchored ∧
      (Resource.Table.read headers).Anchored) ∧
    (∀ tree, (Resource.readVersion tree).Anchored) ∧
    (∀ headers bytes, ∃ resources, ∀ position,
      (Resource.Table.read headers).value bytes position = .ok resources) ∧
    ∀ bytes loaded atHeaders atManaged atExports atImports atDebug atResources,
      read bytes loaded = (do
        let headers ← (Headers.read loaded).value bytes atHeaders
        let managed ← (ManagedHeader.find headers).value bytes atManaged
        let exports ← (ExportTable.read headers).value bytes atExports
        let imports ← (ImportedModule.readAll headers).value bytes atImports
        let debug ← (DebugRecord.readAll headers).value bytes atDebug
        let resources ← (Resource.Table.read headers).value bytes atResources
        pure { headers, exports, imports, debug, resources, managed }) := by
  have hm := ManagedHeader.anchored_find
  have he := ExportTable.anchored_read
  have hi := ImportedModule.anchored_readAll
  have hd := DebugRecord.anchored_readAll
  have hr := Resource.Table.anchored_read
  refine ⟨Headers.anchored_read, fun headers => ⟨hm headers, he headers, hi headers, hd headers,
    hr headers⟩, Resource.anchored_readVersion, fun headers bytes =>
    ⟨_, Resource.Table.value_read headers bytes⟩, ?_⟩
  intro bytes loaded atHeaders atManaged atExports atImports atDebug atResources
  rw [read_eq bytes loaded 0, Headers.anchored_read loaded bytes 0 atHeaders]
  congr 1
  funext headers
  rw [hm headers bytes atManaged 0, he headers bytes atExports 0, hi headers bytes atImports 0,
    hd headers bytes atDebug 0]
  simp only [Resource.Table.value_read, directories, bind_assoc, pure_bind, ok_bind]

end Image

end PeCoff
