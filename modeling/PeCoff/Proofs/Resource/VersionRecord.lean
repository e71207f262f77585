import PeCoff.Proofs.Gate
import PeCoff.Proofs.Version

/-!
# Which version record an image has

The record lies at the end of one path through the resource tree. At each level
the first entry that fits is taken, and if it leads nowhere no other one is tried.
`version_outcome`: an image whose tree can be read has the record that stands
where the path ends, and none in any other case, with the tree as it is.
-/

namespace PeCoff.Resource

open Reader

-- ---------------------------------------------------------------------------
-- The path
-- ---------------------------------------------------------------------------

def Level.FirstOf (level : Level) (id : UInt16) (entry : Entry Level) : Prop :=
  ∃ before behind, level.entries = before ++ entry :: behind ∧ entry.key = .id id ∧
    ∀ earlier ∈ before, earlier.key ≠ .id id

/-- The path to the version record's data: type 16, name 1 and the first language, whatever its
key is. -/
inductive VersionPath (root : Level) (leaf : DataEntry) : Prop
  | intro {type name language : Entry Level} {names languages : Level}
      {others : List (Entry Level)} : root.FirstOf 16 type → type.child = .directory names →
      names.FirstOf 1 name → name.child = .directory languages →
      languages.entries = language :: others → language.child = .data leaf →
      VersionPath root leaf

theorem Entry.id?_eq_some {entry : Entry σ} {id : UInt16} :
    entry.id? = some id ↔ entry.key = .id id := by
  unfold Entry.id?
  cases entry.key <;> simp

theorem Level.findId?_eq_some {level : Level} {id : UInt16} {entry : Entry Level} :
    level.findId? id = some entry ↔ level.FirstOf id entry := by
  simp only [findId?, List.find?_eq_some_iff_append, beq_iff_eq, Entry.id?_eq_some, FirstOf,
    Bool.not_eq_eq_eq_not, Bool.not_true, beq_eq_false_iff_ne, ne_eq]
  constructor
  · rintro ⟨hk, before, behind, hs, hb⟩
    exact ⟨before, behind, hs, hk, hb⟩
  · rintro ⟨before, behind, hs, hk, hb⟩
    exact ⟨hk, before, behind, hs, hb⟩

theorem Child.level?_eq_some {child : Child σ} {level : σ} :
    child.level? = some level ↔ child = .directory level := by
  cases child <;> simp [Child.level?]

theorem Child.data?_eq_some {child : Child σ} {leaf : DataEntry} :
    child.data? = some leaf ↔ child = .data leaf := by
  cases child <;> simp [Child.data?]

theorem versionLeaf?_eq_some {root : Level} {leaf : DataEntry} :
    versionLeaf? root = some leaf ↔ VersionPath root leaf := by
  simp only [versionLeaf?, Option.bind_eq_bind, Option.bind_eq_some_iff, Level.findId?_eq_some,
    Child.level?_eq_some, Child.data?_eq_some, List.head?_eq_some_iff]
  constructor
  · rintro ⟨type, ht, names, hc, name, hn, languages, hd, language, ⟨others, hl⟩, hv⟩
    exact .intro ht hc hn hd hl hv
  · rintro ⟨ht, hc, hn, hd, hl, hv⟩
    exact ⟨_, ht, _, hc, _, hn, _, hd, _, ⟨_, hl⟩, hv⟩

-- ---------------------------------------------------------------------------
-- The record
-- ---------------------------------------------------------------------------

variable {root : Level} {bytes : ByteArray}

theorem versionOf_eq_some {record : Version.Record} :
    versionOf root bytes = some record ↔
      ∃ leaf offset, VersionPath root leaf ∧ leaf.offset = some offset ∧
        record.At bytes offset := by
  have hb : versionOf root bytes = ((versionLeaf? root).bind DataEntry.offset).bind fun offset =>
      (Version.Record.read.value bytes offset).toOption.join := by
    unfold versionOf
    cases (versionLeaf? root).bind DataEntry.offset <;> rfl
  simp only [hb, Option.bind_eq_some_iff, versionLeaf?_eq_some, Option.join_eq_some_iff,
    toOption_eq_some, Version.Record.value_read_some]
  constructor
  · rintro ⟨offset, ⟨leaf, hp, ho⟩, hr⟩
    exact ⟨leaf, offset, hp, ho, hr⟩
  · rintro ⟨leaf, offset, hp, ho, hr⟩
    exact ⟨offset, ⟨leaf, hp, ho⟩, hr⟩

theorem isSome_versionOf :
    (versionOf root bytes).isSome ↔
      ∃ leaf offset, VersionPath root leaf ∧ leaf.offset = some offset ∧
        Version.Record.Present bytes offset := by
  simp only [Option.isSome_iff_exists, versionOf_eq_some, ← Version.Record.exists_at_iff]
  constructor
  · rintro ⟨record, leaf, offset, hp, ho, hr⟩
    exact ⟨leaf, offset, hp, ho, record, hr⟩
  · rintro ⟨leaf, offset, hp, ho, record, hr⟩
    exact ⟨record, leaf, offset, hp, ho, hr⟩

theorem resources_of_read {loaded : Bool} {image : Image}
    (h : Image.read bytes loaded = .ok image) :
    image.resources = Table.ofBytes image.headers bytes := by
  rw [Image.read_eq_map] at h
  cases hf : Image.readFixed bytes loaded with
  | error cause =>
    rw [hf] at h
    contradiction
  | ok fixed =>
    rw [hf, map_ok] at h
    cases h
    rfl

/-- Where a tree can be read, the resources are the tree with the version record that stands
where its path ends, if there is one. -/
theorem version_outcome {headers : Headers} {bytes : ByteArray} {start position left : Nat}
    {tree : Level} (hs : headers.Admits .resourceTable start)
    (ht : (Level.read headers start maxDepth 0 maxEntries).value bytes position =
      .ok (tree, left)) :
    ∃ version : Option Version.Record,
      (∀ position, (Table.read headers).value bytes position =
        .ok { rootOffset := some start, root := tree, version }) ∧
      (∀ loaded image, Image.read bytes loaded = .ok image → image.headers = headers →
        image.resources = { rootOffset := some start, root := tree, version }) ∧
      (∀ record, version = some record ↔
        ∃ leaf offset, VersionPath tree leaf ∧ leaf.offset = some offset ∧
          record.At bytes offset) ∧
      (version.isSome ↔
        ∃ leaf offset, VersionPath tree leaf ∧ leaf.offset = some offset ∧
          Version.Record.Present bytes offset) := by
  rw [Level.anchored_read _ _ _ _ _ bytes position start] at ht
  have hr := Table.ofBytes_of_read (Table.rootOffset?_eq_some_iff.mpr hs) ht
  refine ⟨versionOf tree bytes, fun position => ?_, ?_, fun record => versionOf_eq_some,
    isSome_versionOf⟩
  · rw [Table.value_read, hr]
  · rintro loaded image hi rfl
    rw [resources_of_read hi, hr]

def versioned : Headers :=
  .ofDirectories [.absent, .absent, ⟨0, 88⟩]
    [⟨.replicate 8 0, 180, 0, 180, 0, 0, 0, 0, 0, ⟨0⟩⟩]

/-- Three levels of one entry each, the data that they lead to, and a record of version 1.2.3.4.
Each field is given by its width and its value. -/
def versionedBytes : ByteArray :=
  ⟨(([
      (14, 0), (2, 1), (4, 16), (4, 0x80000018),
      (14, 0), (2, 1), (4, 1), (4, 0x80000030),
      (14, 0), (2, 1), (4, 0x409), (4, 72),
      (4, 88), (4, 92), (8, 0),
      (2, 92), (2, 52), (2, 0), (2, 0x56), (32, 0),
      (4, 0xFEEF04BD), (4, 0), (2, 2), (2, 1), (2, 4), (2, 3), (36, 0)] :
    List (Nat × Nat)).flatMap fun field => LittleEndian.bytes field.1 field.2).toArray⟩

def single (key : UInt16) (link : Link) (child : Child Level) : Level :=
  ⟨⟨0, 0, 0, 0, 0, 1⟩, [⟨.id key, link, none, child⟩]⟩

def versionedTree : Level :=
  single 16 (.directory 24) <| .directory <| single 1 (.directory 48) <| .directory <|
    single 0x409 (.data 72) <| .data ⟨88, 92, 0, 0, some 88⟩

def versionedRecord : Version.Record :=
  ⟨92, 52, 0, "V", ⟨0xFEEF04BD, 0, 2, 1, 4, 3, 0, 0, 0, 0, 0, ⟨0⟩, 0, 0, 0, 0, 0⟩⟩

set_option maxRecDepth 4000 in
theorem version_outcome_versioned :
    versioned.Admits .resourceTable 0 ∧
      (Level.read versioned 0 maxDepth 0 maxEntries).value versionedBytes 0 =
        .ok (versionedTree, 65533) ∧
      (Table.read versioned).value versionedBytes 0 = .ok
        { rootOffset := some 0, root := versionedTree, version := some versionedRecord } ∧
      versionedRecord.fixedInfo.fileVersion = ⟨1, 2, 3, 4⟩ := by
  have hs : versioned.Admits .resourceTable 0 := Headers.directoryOffset?_eq_some.mp rfl
  have ht : (Level.read versioned 0 maxDepth 0 maxEntries).value versionedBytes 0 =
      .ok (versionedTree, 65533) := rfl
  have hp : VersionPath versionedTree ⟨88, 92, 0, 0, some 88⟩ :=
    .intro ⟨[], [], rfl, rfl, nofun⟩ rfl ⟨[], [], rfl, rfl, nofun⟩ rfl rfl rfl
  have hr : versionedRecord.At versionedBytes 88 :=
    Version.Record.value_read_some.mp (toOption_eq_some.mp (by decide +kernel))
  obtain ⟨version, hv, -, ho, -⟩ := version_outcome hs ht
  obtain rfl := (ho versionedRecord).mpr ⟨_, 88, hp, rfl, hr⟩
  exact ⟨hs, ht, hv 0, rfl⟩

end PeCoff.Resource
