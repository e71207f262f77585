import PeCoff.Proofs.Bytes.Copy
import PeCoff.Proofs.Image.Parts
import PeCoff.Proofs.Records
import PeCoff.Proofs.Resource.Relocation

/-!
# Directories on a copy

Two sets of headers that differ in nothing but positions lead the directory
readers to corresponding places of a byte source and its copy. Each reader then
keeps step with itself, through its loops and down the resource tree, and what it
reads differs in positions alone.

Debug entries hold positions of their own, one for a file and one for a mapped
image. That these correspond is asked for separately.
-/

namespace PeCoff

open Reader

/-- Headers for a byte source and for its copy: the sections lie at
corresponding places behind the cut. -/
structure Copy.Places (c : Copy) (headers headers' : Headers) : Prop where
  optional : headers'.optional = headers.optional
  sections : headers'.sections = headers.sections
  offsetWithin : ∀ container ∈ headers.sections, ∀ rva, container.contains rva →
    headers'.offsetWithin container rva = headers.offsetWithin container rva + c.shift
  behind : ∀ container ∈ headers.sections, ∀ rva, container.contains rva →
    c.cut ≤ headers.offsetWithin container rva

/-- The data of a debug entry lies at corresponding places, or at none. -/
def Copy.CodeViewPlaced (c : Copy) (headers headers' : Headers) (entry : DebugEntry) : Prop :=
  (DebugRecord.dataOffset headers entry = 0 ∧ DebugRecord.dataOffset headers' entry = 0) ∨
  (DebugRecord.dataOffset headers entry ≠ 0 ∧ DebugRecord.dataOffset headers' entry ≠ 0 ∧
    c.cut ≤ (DebugRecord.dataOffset headers entry).toNat ∧
    (DebugRecord.dataOffset headers' entry).toNat =
      (DebugRecord.dataOffset headers entry).toNat + c.shift)

def Copy.DebugPlaced (c : Copy) (headers headers' : Headers) : Prop :=
  ∀ start entries after,
    headers.directoryOffset? (headers.directory .debug) false = .ok (some start) →
    (times ((headers.directory .debug).size / DebugEntry.length).toNat DebugEntry.read).run
      c.original start = .ok (entries, after) →
    ∀ entry ∈ entries, entry.kind = .codeView → c.CodeViewPlaced headers headers' entry

namespace Copy.Places

variable {c : Copy} {headers headers' : Headers} (hp : c.Places headers headers')
include hp

-- ---------------------------------------------------------------------------
-- Addressing
-- ---------------------------------------------------------------------------

theorem directory (slot : DirectorySlot) : headers'.directory slot = headers.directory slot := by
  unfold Headers.directory
  rw [hp.optional]

theorem imageBase : headers'.imageBase = headers.imageBase := by
  unfold Headers.imageBase
  rw [hp.optional]

theorem section? (rva : UInt32) : headers'.section? rva = headers.section? rva := by
  unfold Headers.section?
  rw [hp.sections]

theorem of_section? {rva : UInt32} {container : SectionHeader}
    (h : headers.section? rva = some container) :
    headers'.offsetWithin container rva = headers.offsetWithin container rva + c.shift ∧
      c.cut ≤ headers.offsetWithin container rva := by
  unfold Headers.section? at h
  have hm := List.mem_of_find?_eq_some h
  have hc := List.find?_some h
  exact ⟨hp.offsetWithin container hm rva hc, hp.behind container hm rva hc⟩

theorem offset? (rva : UInt32) :
    headers'.offset? rva = (headers.offset? rva).map (· + c.shift) := by
  unfold Headers.offset?
  rw [hp.section?]
  cases h : headers.section? rva with
  | none => rfl
  | some container => exact congrArg some (hp.of_section? h).1

theorem le_offset? {rva : UInt32} {offset : Nat} (h : headers.offset? rva = some offset) :
    c.cut ≤ offset := by
  unfold Headers.offset? at h
  split at h
  next container hs =>
    cases h
    exact (hp.of_section? hs).2
  next => contradiction

theorem directoryOffset? (directory : DataDirectory) (mayCross : Bool) :
    headers'.directoryOffset? directory mayCross =
      (headers.directoryOffset? directory mayCross).map (Option.map (· + c.shift)) := by
  unfold Headers.directoryOffset?
  rw [hp.section?]
  cases hs : headers.section? directory.rva with
  | none => split <;> rfl
  | some container =>
    simp only [(hp.of_section? hs).1]
    repeat' split
    all_goals rfl

theorem le_directoryOffset? {directory : DataDirectory} {mayCross : Bool} {offset : Nat}
    (h : headers.directoryOffset? directory mayCross = .ok (some offset)) : c.cut ≤ offset := by
  unfold Headers.directoryOffset? at h
  split at h
  · split at h
    · cases h
    next container hs =>
      simp only at h
      split at h
      · cases h
      · cases h
        exact (hp.of_section? hs).2
  · cases h

theorem tracks_directory {sizes : Nat → Prop} {f : α → β} {next : Option Nat → Reader α}
    {next' : Option Nat → Reader β} (slot : DirectorySlot)
    (hn : c.Tracks sizes f (next none) (next' none))
    (hs : ∀ start, c.cut ≤ start →
      headers.directoryOffset? (headers.directory slot) false = .ok (some start) →
      c.Tracks sizes f (next (some start)) (next' (some (start + c.shift)))) :
    c.Tracks sizes f (headers.locateDirectory slot >>= next)
      (headers'.locateDirectory slot >>= next') := by
  unfold Headers.locateDirectory
  rw [hp.directory, hp.directoryOffset?]
  refine .lift_bind fun found hf => ?_
  cases found with
  | none => exact hn
  | some start => exact hs start (hp.le_directoryOffset? hf) hf

theorem tracks_textAt (rva : UInt32) :
    c.Tracks FieldSize id (headers.textAt rva) (headers'.textAt rva) := by
  unfold Headers.textAt
  rw [hp.offset?]
  cases ho : headers.offset? rva with
  | none => exact .pure id none
  | some offset =>
    refine .bind (.seek (hp.le_offset? ho)) fun _ => ?_
    exact .bind (tracks_of_forward forward_terminated) fun text => .pure id (some text)

-- ---------------------------------------------------------------------------
-- Managed header, exports and imports
-- ---------------------------------------------------------------------------

theorem tracks_managed :
    c.Tracks FieldSize id (ManagedHeader.find headers) (ManagedHeader.find headers') := by
  unfold ManagedHeader.find
  refine hp.tracks_directory _ (.pure id none) fun start hs _ => ?_
  simp only [hp.directory]
  refine .bind (.require _ _) fun _ => .bind (.seek hs) fun _ => ?_
  exact .bind (tracks_of_forward ManagedHeader.forward_read) fun header => .pure id (some header)

theorem tracks_column {element : Reader α} (he : element.Forward FieldSize) (rva count : UInt32) :
    c.Tracks FieldSize id (ExportTable.readColumn headers rva count element)
      (ExportTable.readColumn headers' rva count element) := by
  unfold ExportTable.readColumn
  rw [hp.offset?]
  split
  · exact .pure id (some [])
  · cases ho : headers.offset? rva with
    | none => exact .pure id none
    | some offset =>
      refine .bind (.seek (hp.le_offset? ho)) fun _ => ?_
      exact .bind (tracks_of_forward (he.times _)) fun values => .pure id (some values)

theorem tracks_target (directory : DataDirectory) (function : UInt32) :
    c.Tracks FieldSize id (ExportTable.readTarget headers directory function)
      (ExportTable.readTarget headers' directory function) := by
  unfold ExportTable.readTarget
  rw [hp.imageBase]
  split
  · refine .bind (hp.tracks_textAt function) fun found => ?_
    cases found with
    | none => exact .pure id none
    | some text => exact .pure id (some (ExportTarget.forwarded text))
  · exact .pure id (some _)

theorem tracks_row (header : ExportHeader) (functions : Array UInt32) (row : ExportTable.Row) :
    c.Tracks FieldSize id (ExportTable.readRow headers header functions row)
      (ExportTable.readRow headers' header functions row) := by
  unfold ExportTable.readRow
  rw [hp.directory]
  refine .bind (hp.tracks_textAt row.name) fun found => ?_
  cases found with
  | none => exact .pure id none
  | some name =>
    simp only [id]
    cases functions[row.place.toNat]? with
    | none => exact .fail id _
    | some function =>
      refine .bind (hp.tracks_target _ function) fun target => ?_
      cases target with
      | none => exact .pure id none
      | some target => exact .pure id (some _)

theorem tracks_exports :
    c.Tracks FieldSize id (ExportTable.read headers) (ExportTable.read headers') := by
  unfold ExportTable.read
  refine hp.tracks_directory _ (.pure id none) fun start hs _ => ?_
  refine .bind (.seek hs) fun _ => ?_
  refine .bind (tracks_of_forward ExportHeader.forward_read) fun header => ?_
  refine .bind (hp.tracks_textAt _) fun moduleName => ?_
  refine .bind (hp.tracks_column forward_u32 _ _) fun functions => ?_
  cases functions with
  | none => exact .pure id none
  | some functions =>
    refine .bind (hp.tracks_column forward_u32 _ _) fun names => ?_
    cases names with
    | none => exact .pure id none
    | some names =>
      refine .bind (hp.tracks_column forward_u16 _ _) fun places => ?_
      cases places with
      | none => exact .pure id none
      | some places =>
        refine .bind (.filterMap (fun row => hp.tracks_row header _ row) _) fun exports => ?_
        exact .pure id (some _)

theorem tracks_imports :
    c.Tracks FieldSize id (ImportedModule.readAll headers) (ImportedModule.readAll headers') := by
  unfold ImportedModule.readAll
  refine hp.tracks_directory _ (.pure id []) fun start hs _ => ?_
  simp only [hp.directory]
  refine .collect (fun index => ?_) _
  rw [Nat.add_right_comm]
  unfold ImportedModule.readAt
  refine .bind (.seek (Nat.le_add_right_of_le hs)) fun _ => ?_
  refine .bind (tracks_of_forward ImportDescriptor.forward_read) fun descriptor => ?_
  simp only [id]
  split
  · exact .pure id none
  · exact .bind (hp.tracks_textAt _) fun name => .pure id (some _)

-- ---------------------------------------------------------------------------
-- Debug directory
-- ---------------------------------------------------------------------------

omit hp in
theorem tracks_codeView {entry : DebugEntry}
    (hd : entry.kind = .codeView → c.CodeViewPlaced headers headers' entry) :
    c.Tracks FieldSize id (DebugRecord.readCodeView headers entry)
      (DebugRecord.readCodeView headers' entry) := by
  unfold DebugRecord.readCodeView
  by_cases hk : entry.kind = .codeView
  · rcases hd hk with ⟨hz, hz'⟩ | ⟨hn, hn', hc, ho⟩
    · simp only [hk, hz, hz']
      exact .pure id none
    · simp only [hk, decide_true, Bool.true_and, bne_iff_ne, ne_eq, hn, hn', not_false_eq_true,
        ↓reduceIte, ho]
      refine .bind (.seek hc) fun _ => ?_
      exact .bind (tracks_of_forward CodeView.forward_read) fun record => .pure id (some record)
  · simp only [hk, decide_false, Bool.false_and]
    exact .pure id none

theorem tracks_debug (hd : c.DebugPlaced headers headers') :
    c.Tracks FieldSize id (DebugRecord.readAll headers) (DebugRecord.readAll headers') := by
  unfold DebugRecord.readAll
  refine hp.tracks_directory _ (.pure id []) fun start hs hf => ?_
  simp only [hp.directory]
  refine .bind (.require _ _) fun _ => ?_
  intro position hc
  refine .bind (Tracks.seek hs position hc) fun _ reached _ hr => ?_
  obtain ⟨-, rfl⟩ := Prod.mk.inj (Except.ok.inj hr)
  refine .bind (tracks_of_forward (DebugEntry.forward_read.times _) start hs)
    fun entries after ha hr => ?_
  refine Tracks.mapEach (fun entry he => ?_) after ha
  exact .bind (tracks_codeView (hd start entries after hf hr entry he)) fun found => .pure id _

-- ---------------------------------------------------------------------------
-- Resource tree
-- ---------------------------------------------------------------------------

omit hp in
theorem tracks_label {root : Nat} (hr : c.cut ≤ root) (key : Resource.Key) :
    c.Tracks (fun _ => True) id (Resource.readLabel root key)
      (Resource.readLabel (root + c.shift) key) := by
  unfold Resource.readLabel
  cases key with
  | id number => exact .pure id none
  | name offset =>
    simp only [Nat.add_right_comm root c.shift]
    refine .bind (.seek (Nat.le_add_right_of_le hr)) fun _ => ?_
    exact .bind (tracks_of_forward Resource.Label.forward_read) fun label => .pure id (some label)

theorem tracks_data :
    c.Tracks (fun _ => True) (·.relocate c.shift) (Resource.DataEntry.read headers)
      (Resource.DataEntry.read headers') := by
  unfold Resource.DataEntry.read
  simp only [hp.offset?]
  iterate 4 refine .bind (tracks_of_forward forward_u32.any) fun _ => ?_
  exact .pure (Resource.DataEntry.relocate c.shift) _

section

variable {root : Nat} (hr : c.cut ≤ root)
  {below below' : UInt32 → Nat → Reader (Resource.Level × Nat)}
  (hb : ∀ offset budget, c.Tracks (fun _ => True)
    (fun found => (found.1.relocate c.shift, found.2)) (below offset budget) (below' offset budget))
include hr hb

theorem tracks_child (budget : Nat) (link : Resource.Link) :
    c.Tracks (fun _ => True) (fun found => (Resource.relocateChild c.shift found.1, found.2))
      (Resource.Level.readChild headers root below budget link)
      (Resource.Level.readChild headers' (root + c.shift) below' budget link) := by
  unfold Resource.Level.readChild
  cases link with
  | directory offset =>
    refine .bind (hb offset budget) fun found => ?_
    exact .pure _ (Resource.Child.directory found.1, found.2)
  | data offset =>
    simp only [Nat.add_right_comm root c.shift]
    refine .bind (.seek (Nat.le_add_right_of_le hr)) fun _ => ?_
    exact .bind hp.tracks_data fun entry => .pure _ (Resource.Child.data entry, budget)

theorem tracks_entries (done : List (Resource.Entry Resource.Level) × Nat)
    (raw : List Resource.RawEntry) :
    c.Tracks (fun _ => True)
      (fun done => (done.1.map (Resource.relocateEntry c.shift), done.2))
      (fold (Resource.Level.readEntry headers root below) done raw)
      (fold (Resource.Level.readEntry headers' (root + c.shift) below')
        (done.1.map (Resource.relocateEntry c.shift), done.2) raw) := by
  refine .fold (fun done raw => ?_) done raw
  unfold Resource.Level.readEntry
  refine .bind (tracks_label hr raw.key) fun label => ?_
  refine .bind (hp.tracks_child hr hb done.2 raw.link) fun found => ?_
  exact .pure (fun done => (done.1.map (Resource.relocateEntry c.shift), done.2))
    ({ key := raw.key, link := raw.link, label, child := found.1 } :: done.1, found.2)

end

theorem tracks_level {root : Nat} (hr : c.cut ≤ root) (depth : Nat) (offset : UInt32)
    (budget : Nat) :
    c.Tracks (fun _ => True) (fun found => (found.1.relocate c.shift, found.2))
      (Resource.Level.read headers root depth offset budget)
      (Resource.Level.read headers' (root + c.shift) depth offset budget) := by
  induction depth generalizing offset budget with
  | zero => exact .fail _ _
  | succ depth ih =>
    unfold Resource.Level.read
    simp only [Nat.add_right_comm root c.shift]
    refine .bind (.seek (Nat.le_add_right_of_le hr)) fun _ => ?_
    refine .bind (tracks_of_forward Resource.LevelHeader.forward_read.any) fun header => ?_
    -- The number of entries allowed does not depend on where they are.
    refine .bind (.require _ _) fun _ => ?_
    refine .bind (tracks_of_forward (Resource.RawEntry.forward_read.times _).any) fun raw => ?_
    refine .bind (hp.tracks_entries hr (fun offset budget => ih offset budget) ([], _) raw)
      fun done => ?_
    rw [← List.map_reverse, ← Resource.relocateEntries_eq_map]
    exact .pure (fun found => (found.1.relocate c.shift, found.2))
      (Resource.Level.mk header done.1.reverse, done.2)

end Copy.Places

end PeCoff
