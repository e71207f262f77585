import PeCoff.Proofs.Image.Copy

/-!
# More bytes behind an image

An image and the same with more bytes behind it. `read_append`: what was read
stays, a broken rule stays broken, and only missing bytes leave anything open.
`read_truncated`: an answer of missing bytes tells exactly how many are missing
for it to change, and these are asked for in one of five lengths.

A resource tree that could not be read may become readable, since the answer
does not say why it was not.
-/

namespace PeCoff

open Reader

-- ---------------------------------------------------------------------------
-- The copy with more bytes
-- ---------------------------------------------------------------------------

namespace Copy

variable {bytes more : ByteArray} {sizes : Nat → Prop}

def append (bytes more : ByteArray) : Copy where
  original := bytes
  copy := bytes ++ more
  cut := 0
  shift := 0
  agree := by
    intro i _ hi
    rw [Nat.add_zero, getElem?_pos bytes i hi,
      getElem?_pos (bytes ++ more) i (by rw [ByteArray.size_append]; omega),
      ByteArray.getElem_append_left hi]

theorem places_append (bytes more : ByteArray) (headers : Headers) :
    (append bytes more).Places headers headers where
  optional := rfl
  sections := rfl
  offsetWithin _ _ _ _ := rfl
  behind _ _ _ _ := Nat.zero_le _

theorem debugPlaced_append (bytes more : ByteArray) (headers : Headers) :
    (append bytes more).DebugPlaced headers headers := by
  intro start entries after _ _ entry _ _
  by_cases hz : DebugRecord.dataOffset headers entry = 0
  · exact .inl ⟨hz, hz⟩
  · exact .inr ⟨hz, hz, Nat.zero_le _, rfl⟩

theorem tracks_seek_append (start : Nat) :
    (append bytes more).Tracks sizes id (seek start) (seek start) :=
  .seek (Nat.zero_le start)

theorem tracks_locate_append :
    (append bytes more).Tracks FieldSize id Headers.locate Headers.locate := by
  unfold Headers.locate
  refine .bind (tracks_seek_append 0) fun _ => ?_
  refine .bind (tracks_of_forward forward_u16) fun magic => ?_
  simp only [id]
  split
  · refine .bind (tracks_seek_append _) fun _ => ?_
    refine .bind (tracks_of_forward forward_u32) fun ntOffset => ?_
    refine .bind (tracks_seek_append _) fun _ => ?_
    refine .bind (tracks_of_forward forward_u32) fun signature => ?_
    exact .bind (.require _ _) fun _ => .pure id (some ntOffset)
  · refine .bind (tracks_of_forward (Headers.forward_refuseAnonymous magic)) fun _ => ?_
    exact .bind (tracks_seek_append _) fun _ => .pure id none

theorem tracks_headers_append (loaded : Bool) :
    (append bytes more).Tracks FieldSize id (Headers.read loaded) (Headers.read loaded) := by
  unfold Headers.read
  refine .bind tracks_locate_append fun ntOffset => ?_
  refine .bind (tracks_of_forward FileHeader.forward_read) fun file => ?_
  refine .bind (tracks_of_forward (Headers.forward_readOptional _ _)) fun optional => ?_
  refine .bind (tracks_seek_append _) fun _ => ?_
  refine .bind (tracks_of_forward (SectionHeader.forward_read.times _)) fun sections => ?_
  exact .pure id (Headers.mk loaded ntOffset file optional sections)

end Copy

namespace Image

theorem follows_readFixed (bytes more : ByteArray) (loaded : Bool) :
    (Copy.append bytes more).Follows FieldSize id (readFixed bytes loaded)
      (readFixed (bytes ++ more) loaded) := by
  unfold readFixed
  refine ((Copy.tracks_headers_append loaded).value (Nat.zero_le 0)).bind fun headers _ => ?_
  have hf := (Copy.places_append bytes more headers).follows_directories
    (Copy.debugPlaced_append bytes more headers) (Nat.zero_le 0)
  refine hf.congr fun image hi => ?_
  rw [← headers_of_directories hi]
  rfl

/-- What `longer`, read of more bytes, has in common with `image`. -/
structure Extends (bytes : ByteArray) (image longer : Image) : Prop where
  headers : longer.headers = image.headers
  exports : longer.exports = image.exports
  imports : longer.imports = image.imports
  debug : longer.debug = image.debug
  managed : longer.managed = image.managed
  rootOffset : longer.resources.rootOffset = image.resources.rootOffset
  /-- A tree that was read, not one that is empty for being unreadable. -/
  root : ∀ root position found, image.resources.rootOffset = some root →
    (Resource.Level.read image.headers root Resource.maxDepth 0 Resource.maxEntries).value
      bytes position = .ok found →
    longer.resources.root = image.resources.root
  version : ∀ record, image.resources.version = some record →
    longer.resources.version = some record

def withoutResources (image : Image) : Image := { image with resources := .empty }

end Image

namespace Resource

theorem Table.root_append {headers : Headers} {bytes : ByteArray} (more : ByteArray)
    {root position : Nat} {found : Level × Nat}
    (hr : (ofBytes headers bytes).rootOffset = some root)
    (ht : (Level.read headers root maxDepth 0 maxEntries).value bytes position = .ok found) :
    (ofBytes headers (bytes ++ more)).root = (ofBytes headers bytes).root := by
  obtain ⟨tree, left⟩ := found
  rw [rootOffset_ofBytes] at hr
  rw [Level.anchored_read _ _ _ _ _ bytes position root] at ht
  have hl := (Copy.places_append bytes more headers).ofBytes_of_read hr ht
  rw [ofBytes_of_read hr ht]
  exact (congrArg Table.root hl).trans tree.relocate_zero

theorem Table.version_append {headers : Headers} {bytes : ByteArray} (more : ByteArray)
    {record : Version.Record} (hv : (ofBytes headers bytes).version = some record) :
    (ofBytes headers (bytes ++ more)).version = some record := by
  obtain ⟨root, tree, left, hr, ht, hv⟩ := exists_of_version hv
  have hp := Copy.places_append bytes more headers
  have hu := ((gives_level _ _ _ _ _).mp ht).1
  exact (congrArg Table.version (hp.ofBytes_of_read hr ht)).trans (hp.versionOf_of_some hu hv)

end Resource

namespace Image

variable {bytes more : ByteArray} {loaded : Bool}

theorem extends_append {image : Image} (h : read bytes loaded = .ok image) :
    ∃ longer, read (bytes ++ more) loaded = .ok longer ∧ Extends bytes image longer := by
  rw [read_eq_map] at h ⊢
  have hf := follows_readFixed bytes more loaded
  cases hd : readFixed bytes loaded with
  | error cause =>
    rw [hd] at h
    contradiction
  | ok fixed =>
    rw [hd] at h
    cases h
    rw [hf.ok hd]
    refine ⟨_, rfl, rfl, rfl, rfl, rfl, rfl, ?_, ?_, ?_⟩
    · exact (Resource.Table.rootOffset_ofBytes _ _).trans
        (Resource.Table.rootOffset_ofBytes _ _).symm
    · intro root position found hr ht
      exact Resource.Table.root_append more hr ht
    · intro record hv
      exact Resource.Table.version_append more hv

theorem readFixed_eq_error {cause : ReadError} :
    readFixed bytes loaded = .error cause ↔ read bytes loaded = .error cause := by
  rw [read_eq_map]
  cases readFixed bytes loaded <;> simp [Except.map]

theorem format_append {cause : FormatError} (h : read bytes loaded = .error (.format cause)) :
    read (bytes ++ more) loaded = .error (.format cause) := by
  rw [← readFixed_eq_error] at h ⊢
  have hf := follows_readFixed bytes more loaded
  rw [h] at hf
  exact hf

theorem map_withoutResources :
    (read bytes loaded).map withoutResources = (readFixed bytes loaded).map withoutResources := by
  rw [read_eq_map]
  cases readFixed bytes loaded <;> rfl

/-- More bytes change nothing about an image that was not short of bytes, except
for resources that could not be read. -/
theorem read_append (bytes more : ByteArray) (loaded : Bool) :
    (∀ image, read bytes loaded = .ok image →
      ∃ longer, read (bytes ++ more) loaded = .ok longer ∧ Extends bytes image longer) ∧
    (∀ cause, read bytes loaded = .error (.format cause) →
      read (bytes ++ more) loaded = .error (.format cause)) ∧
    ((∃ position requested, read bytes loaded = .error (.truncated position requested)) ∨
      (read (bytes ++ more) loaded).map withoutResources =
        (read bytes loaded).map withoutResources) := by
  refine ⟨fun image h => extends_append h, fun cause h => format_append h, ?_⟩
  have hf := follows_readFixed bytes more loaded
  rw [map_withoutResources, map_withoutResources]
  rcases h : readFixed bytes loaded with (cause | ⟨position, requested⟩) | image
  · rw [h] at hf
    exact .inr (congrArg _ hf)
  · exact .inl ⟨position, requested, readFixed_eq_error.mp h⟩
  · rw [hf.ok h]
    exact .inr rfl

theorem truncated_append {position requested : Nat}
    (h : read bytes loaded = .error (.truncated position requested)) (more : ByteArray) :
    FieldSize requested ∧ bytes.size < position + requested ∧
      ((bytes ++ more).size < position + requested →
        read (bytes ++ more) loaded = .error (.truncated position requested)) := by
  have hf := follows_readFixed bytes more loaded
  rw [readFixed_eq_error.mpr h] at hf
  obtain ⟨hs, hb, hm⟩ := hf
  exact ⟨hs, hb, fun ho => readFixed_eq_error.mp (hm ho)⟩

/-- Missing bytes are missed as long as they are missing, and no longer. -/
theorem read_truncated {position requested : Nat}
    (h : read bytes loaded = .error (.truncated position requested)) :
    requested ∈ [1, 2, 4, 8, 16] ∧ bytes.size < position + requested ∧
      (∀ more, (bytes ++ more).size < position + requested →
        read (bytes ++ more) loaded = .error (.truncated position requested)) ∧
      ∀ other, position + requested ≤ other.size →
        read other loaded ≠ .error (.truncated position requested) := by
  obtain ⟨hs, hb, -⟩ := truncated_append h .empty
  refine ⟨hs, hb, fun more hm => (truncated_append h more).2.2 hm, fun other ho hr => ?_⟩
  obtain ⟨-, hb, -⟩ := truncated_append hr .empty
  exact Nat.not_lt.mpr ho hb

theorem read_truncated_stub :
    read ⟨#[0x4D, 0x5A]⟩ false = .error (.truncated 0x3C 4) ∧
      ∀ more, (⟨#[0x4D, 0x5A]⟩ ++ more : ByteArray).size < 0x3C + 4 →
        read (⟨#[0x4D, 0x5A]⟩ ++ more) false = .error (.truncated 0x3C 4) := by
  have h : read ⟨#[0x4D, 0x5A]⟩ false = .error (.truncated 0x3C 4) := rfl
  obtain ⟨-, -, hm, -⟩ := read_truncated h
  exact ⟨h, hm⟩

end Image

end PeCoff
