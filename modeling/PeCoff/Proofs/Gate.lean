import PeCoff.Proofs.Bytes.Access
import PeCoff.Proofs.Bytes.Causes
import PeCoff.Proofs.Image.Parts

/-!
# One gate for all directories

Before a reader looks at a byte of its directory, the section table decides
whether there is one. The gate has three answers, and they are said here with
addresses that are counted without wrapping.

`directories_gated`: all readers ask the same gate and take its answer before
they judge anything else, and without an optional header there is nothing behind
any gate.
-/

namespace PeCoff

open Reader

-- ---------------------------------------------------------------------------
-- Slots
-- ---------------------------------------------------------------------------

def DirectorySlot.places : List (DirectorySlot × Nat) := [
  (.exportTable, 0), (.importTable, 1), (.resourceTable, 2), (.exceptionTable, 3),
  (.certificateTable, 4), (.baseRelocation, 5), (.debug, 6), (.architecture, 7),
  (.globalPointer, 8), (.threadLocalStorage, 9), (.loadConfig, 10), (.boundImport, 11),
  (.importAddressTable, 12), (.delayImport, 13), (.managedHeader, 14), (.reserved, 15)]

/-- The directory of a slot is the pair at its place, and of no length where the list is too
short or there is none. -/
theorem Headers.directory_eq (headers : Headers) :
    ∀ placed ∈ DirectorySlot.places, headers.directory placed.1 =
      (headers.optional.bind fun optional => optional.dataDirectories[placed.2]?).getD ⟨0, 0⟩ := by
  have hp : ∀ placed ∈ DirectorySlot.places, placed.1.index = placed.2 := by decide
  intro placed hm
  rw [← hp placed hm]
  unfold directory
  cases headers.optional <;> rfl

-- ---------------------------------------------------------------------------
-- Sections
-- ---------------------------------------------------------------------------

def SectionHeader.Covers (container : SectionHeader) (rva : UInt32) : Prop :=
  container.virtualAddress.toNat ≤ rva.toNat ∧
    rva.toNat < container.virtualAddress.toNat + container.virtualSize.toNat

theorem SectionHeader.contains_iff_covers {container : SectionHeader} {rva : UInt32} :
    container.contains rva = true ↔ container.Covers rva := by
  simp only [contains, Covers, Bool.and_eq_true, decide_eq_true_eq]
  rw [UInt32.le_iff_toNat_le]
  refine and_congr_right fun hl => ?_
  have hs := UInt32.toNat_sub_of_le rva container.virtualAddress (UInt32.le_iff_toNat_le.mpr hl)
  rw [UInt32.lt_iff_toNat_lt, hs]
  exact Nat.sub_lt_iff_lt_add' hl

namespace Headers

variable {headers : Headers} {slot : DirectorySlot} {rva size : UInt32}
  {container : SectionHeader} {start : Nat}

def FirstCovering (headers : Headers) (rva : UInt32) (container : SectionHeader) : Prop :=
  ∃ before behind, headers.sections = before ++ container :: behind ∧ container.Covers rva ∧
    ∀ other ∈ before, ¬other.Covers rva

theorem section?_eq_some :
    headers.section? rva = some container ↔ headers.FirstCovering rva container := by
  simp only [section?, FirstCovering, List.find?_eq_some_iff_append,
    SectionHeader.contains_iff_covers, Bool.not_eq_eq_eq_not, Bool.not_true,
    ← Bool.not_eq_true]
  constructor
  · rintro ⟨hc, before, behind, hs, hb⟩
    exact ⟨before, behind, hs, hc, hb⟩
  · rintro ⟨before, behind, hs, hc, hb⟩
    exact ⟨hc, before, behind, hs, hb⟩

theorem section?_eq_none :
    headers.section? rva = none ↔ ∀ container ∈ headers.sections, ¬container.Covers rva := by
  simp only [section?, List.find?_eq_none, SectionHeader.contains_iff_covers]

theorem FirstCovering.covers (h : headers.FirstCovering rva container) : container.Covers rva := by
  obtain ⟨_, _, _, hc, _⟩ := h
  exact hc

/-- What there is behind an address of a section is counted without wrapping. -/
theorem room_lt_iff (hs : headers.section? rva = some container) :
    container.virtualSize - (rva - container.virtualAddress) < size ↔
      container.virtualAddress.toNat + container.virtualSize.toNat < rva.toNat + size.toNat := by
  obtain ⟨hv, hi⟩ := of_section? hs
  have hr := UInt32.toNat_sub_of_le _ _ hv
  have hl := UInt32.toNat_sub_of_le _ _ (UInt32.le_of_lt hi)
  have hv := UInt32.le_iff_toNat_le.mp hv
  have hi := UInt32.lt_iff_toNat_lt.mp hi
  rw [UInt32.lt_iff_toNat_lt]
  omega

-- ---------------------------------------------------------------------------
-- The answers of the gate
-- ---------------------------------------------------------------------------

/-- There is no directory in the slot, or none that a section holds. -/
inductive Closed (headers : Headers) (slot : DirectorySlot) : Prop
  | beyond : (∀ optional, headers.optional = some optional →
      optional.dataDirectories.length ≤ slot.index) → Closed headers slot
  | empty : (headers.directory slot).size = 0 → Closed headers slot
  | unmapped : (∀ container ∈ headers.sections, ¬container.Covers (headers.directory slot).rva) →
      Closed headers slot

/-- The directory runs past the end of the section that it starts in. -/
def Crosses (headers : Headers) (slot : DirectorySlot) : Prop :=
  ∃ container, headers.FirstCovering (headers.directory slot).rva container ∧
    container.virtualAddress.toNat + container.virtualSize.toNat <
      (headers.directory slot).rva.toNat + (headers.directory slot).size.toNat

/-- The directory is not empty and lies in one section, its first byte at `start`. -/
def Admits (headers : Headers) (slot : DirectorySlot) (start : Nat) : Prop :=
  (headers.directory slot).size ≠ 0 ∧
    ∃ container, headers.FirstCovering (headers.directory slot).rva container ∧
      (headers.directory slot).rva.toNat + (headers.directory slot).size.toNat ≤
        container.virtualAddress.toNat + container.virtualSize.toNat ∧
      start = headers.offsetWithin container (headers.directory slot).rva

theorem size_eq_zero_of_beyond (hb : ∀ optional, headers.optional = some optional →
    optional.dataDirectories.length ≤ slot.index) : (headers.directory slot).size = 0 := by
  unfold directory OptionalHeader.directory
  split
  next optional ho =>
    rw [List.getElem?_eq_none (hb optional ho)]
    rfl
  next => rfl

theorem Closed.directoryOffset? (h : headers.Closed slot) :
    headers.directoryOffset? (headers.directory slot) false = .ok none := by
  have of_empty (hz : (headers.directory slot).size = 0) :
      headers.directoryOffset? (headers.directory slot) false = .ok none := by
    simp [Headers.directoryOffset?, DataDirectory.isPresent, hz]
  cases h with
  | beyond hb => exact of_empty (size_eq_zero_of_beyond hb)
  | empty hz => exact of_empty hz
  | unmapped hn =>
    unfold Headers.directoryOffset?
    rw [section?_eq_none.mpr hn]
    split <;> rfl

theorem Crosses.directoryOffset? (h : headers.Crosses slot) :
    headers.directoryOffset? (headers.directory slot) false =
      .error (.directoryCrossesSection (headers.directory slot).rva
        (headers.directory slot).size) := by
  obtain ⟨container, hf, hc⟩ := h
  obtain ⟨-, hi⟩ := hf.covers
  have hs := section?_eq_some.mpr hf
  have hz : (headers.directory slot).size ≠ 0 := by
    intro hz
    rw [hz, UInt32.toNat_zero] at hc
    omega
  have hr := (room_lt_iff hs).mpr hc
  simp [Headers.directoryOffset?, DataDirectory.isPresent, hz, hs, hr]

theorem Admits.directoryOffset? (h : headers.Admits slot start) :
    headers.directoryOffset? (headers.directory slot) false = .ok (some start) := by
  obtain ⟨hz, container, hf, hc, rfl⟩ := h
  have hs := section?_eq_some.mpr hf
  have hr := mt (room_lt_iff hs).mp (Nat.not_lt.mpr hc)
  simp [Headers.directoryOffset?, DataDirectory.isPresent, hz, hs, hr]

theorem closed_or_crosses_or_admits (headers : Headers) (slot : DirectorySlot) :
    headers.Closed slot ∨ headers.Crosses slot ∨ ∃ start, headers.Admits slot start := by
  by_cases hz : (headers.directory slot).size = 0
  · exact .inl (.empty hz)
  cases hs : headers.section? (headers.directory slot).rva with
  | none => exact .inl (.unmapped (section?_eq_none.mp hs))
  | some container =>
    have hf := section?_eq_some.mp hs
    rcases Nat.lt_or_ge (container.virtualAddress.toNat + container.virtualSize.toNat)
      ((headers.directory slot).rva.toNat + (headers.directory slot).size.toNat) with hc | hc
    · exact .inr (.inl ⟨container, hf, hc⟩)
    · exact .inr (.inr ⟨_, hz, container, hf, hc, rfl⟩)

theorem directoryOffset?_eq_some :
    headers.directoryOffset? (headers.directory slot) false = .ok (some start) ↔
      headers.Admits slot start := by
  constructor
  · intro ho
    rcases closed_or_crosses_or_admits headers slot with h | h | ⟨other, h⟩
    · rw [h.directoryOffset?] at ho
      cases ho
    · rw [h.directoryOffset?] at ho
      cases ho
    · rw [h.directoryOffset?] at ho
      cases ho
      exact h
  · exact Admits.directoryOffset?

end Headers

namespace Resource.Table

variable {headers : Headers} {root : Nat}

theorem rootOffset?_of_refused
    (h : headers.Closed .resourceTable ∨ headers.Crosses .resourceTable) :
    rootOffset? headers = none := by
  unfold rootOffset?
  rcases h with h | h <;> rw [h.directoryOffset?] <;> rfl

theorem rootOffset?_eq_some_iff :
    rootOffset? headers = some root ↔ headers.Admits .resourceTable root := by
  constructor
  · intro hr
    rcases headers.closed_or_crosses_or_admits .resourceTable with h | h | ⟨start, h⟩
    · rw [rootOffset?_of_refused (.inl h)] at hr
      contradiction
    · rw [rootOffset?_of_refused (.inr h)] at hr
      contradiction
    · unfold rootOffset? at hr
      rw [h.directoryOffset?] at hr
      exact Option.some.inj hr ▸ h
  · intro h
    unfold rootOffset?
    rw [h.directoryOffset?]
    rfl

end Resource.Table

-- ---------------------------------------------------------------------------
-- Readers behind the gate
-- ---------------------------------------------------------------------------

/-- The reader takes the gate's refusals as they are, whatever the bytes. -/
structure Gated (slot : DirectorySlot) (empty : α) (read : Headers → Reader α) : Prop where
  closed : ∀ headers bytes position, headers.Closed slot →
    (read headers).value bytes position = .ok empty
  crosses : ∀ headers bytes position, headers.Crosses slot →
    (read headers).value bytes position = .error (.format (.directoryCrossesSection
      (headers.directory slot).rva (headers.directory slot).size))

section

variable {slot : DirectorySlot} {empty : α} {next : Headers → Option Nat → Reader α}

theorem value_locate_bind (headers : Headers) (next : Option Nat → Reader α) (bytes : ByteArray)
    (position : Nat) :
    (headers.locateDirectory slot >>= next).value bytes position =
      match headers.directoryOffset? (headers.directory slot) false with
      | .error cause => .error (.format cause)
      | .ok found => (next found).value bytes position := by
  unfold Headers.locateDirectory
  cases headers.directoryOffset? (headers.directory slot) false <;> rfl

theorem gated_locate_bind (hn : ∀ headers, next headers none = pure empty) :
    Gated slot empty fun headers => headers.locateDirectory slot >>= next headers where
  closed headers bytes position h := by
    rw [value_locate_bind, h.directoryOffset?]
    simp only [hn, value_pure]
  crosses headers bytes position h := by
    rw [value_locate_bind, h.directoryOffset?]

theorem value_locate_require {headers : Headers} {reader : Reader α}
    {next : Option Nat → Reader α} {rest : Nat → Reader α} {rule : Prop} [Decidable rule]
    {cause other : FormatError} {bytes : ByteArray} {position : Nat} (kind : FormatError → Prop)
    (hd : reader = headers.locateDirectory slot >>= next) (hn : next none = pure empty)
    (hs : ∀ start, next (some start) = require rule cause >>= fun _ => rest start)
    (hr : ∀ start, (rest start).Blames (¬kind ·))
    (hc : ∀ rva size, ¬kind (.directoryCrossesSection rva size)) (hk : kind other) :
    reader.value bytes position = .error (.format other) ↔
      (∃ start, headers.Admits slot start) ∧ ¬rule ∧ other = cause := by
  subst hd
  simp only [← Headers.directoryOffset?_eq_some, value_locate_bind]
  rcases headers.closed_or_crosses_or_admits slot with h | h | ⟨start, h⟩
  · simp [h.directoryOffset?, hn]
  · simp only [h.directoryOffset?, Except.error.injEq, ReadError.format.injEq, reduceCtorEq,
      exists_false, false_and, iff_false]
    rintro rfl
    exact hc _ _ hk
  · simp only [h.directoryOffset?, hs, Except.ok.injEq, Option.some.injEq, exists_eq', true_and]
    by_cases hrule : rule
    · rw [require, if_pos hrule, pure_bind, value_eq_error]
      simp only [hrule, not_true_eq_false, false_and, iff_false]
      exact fun he => hr start bytes position other he hk
    · rw [require, if_neg hrule]
      show Except.error (ReadError.format cause) = Except.error (.format other) ↔ _
      simp [hrule, eq_comm]

end

-- ---------------------------------------------------------------------------
-- Sizes that are checked behind the gate
-- ---------------------------------------------------------------------------

theorem ManagedHeader.blames_read {causes : FormatError → Prop} : read.Blames causes := by
  have hd : DataDirectory.read.Blames causes :=
    .bind .u32 fun _ => .bind .u32 fun _ => .pure _
  unfold read
  refine .bind .u32 fun _ => .bind .u16 fun _ => .bind .u16 fun _ => .bind hd fun _ => ?_
  iterate 2 refine .bind .u32 fun _ => ?_
  iterate 6 refine .bind hd fun _ => ?_
  exact .pure _

theorem ManagedHeader.find_eq_size_error {headers : Headers} {bytes : ByteArray} {position : Nat}
    {least obtained : UInt32} :
    (find headers).value bytes position = .error (.format (.managedHeaderSize least obtained)) ↔
      (∃ start, headers.Admits .managedHeader start) ∧
        (headers.directory .managedHeader).size < length ∧
        least = length ∧ obtained = (headers.directory .managedHeader).size := by
  refine .trans (value_locate_require (fun cause => ∃ least obtained,
    cause = .managedHeaderSize least obtained) rfl rfl (fun _ => rfl) (fun start => ?_)
    (by simp) ⟨_, _, rfl⟩) ?_
  · exact .bind (.seek start) fun _ => .bind blames_read fun _ => .pure _
  · rw [UInt32.not_le, FormatError.managedHeaderSize.injEq]

namespace DebugRecord

theorem blames_entry {causes : FormatError → Prop}
    (h : ∀ obtained, causes (.debugCharacteristics obtained)) : DebugEntry.read.Blames causes := by
  unfold DebugEntry.read
  refine .bind .u32 fun _ => .bind (.require (h _)) fun _ => .bind .u32 fun _ => ?_
  iterate 2 refine .bind .u16 fun _ => ?_
  iterate 4 refine .bind .u32 fun _ => ?_
  exact .pure _

theorem blames_codeView {causes : FormatError → Prop}
    (hm : ∀ obtained, causes (.codeViewMagic obtained)) (ht : causes .invalidText)
    (headers : Headers) (entry : DebugEntry) : (readCodeView headers entry).Blames causes := by
  have hg : Guid.read.Blames causes := .bind (.exact 16) fun _ => .pure _
  have hc : CodeView.read.Blames causes :=
    .bind (.exact 4) fun _ => .bind (.require (hm _)) fun _ => .bind hg fun _ =>
      .bind .i32 fun _ => .bind (.terminated ht) fun _ => .pure _
  unfold readCodeView
  split
  · exact .bind (.seek _) fun _ => .bind hc fun _ => .pure _
  · exact .pure none

theorem readAll_eq_size_error {headers : Headers} {bytes : ByteArray} {position : Nat}
    {size entrySize : UInt32} :
    (readAll headers).value bytes position = .error (.format (.directorySize size entrySize)) ↔
      (∃ start, headers.Admits .debug start) ∧
        (headers.directory .debug).size % DebugEntry.length ≠ 0 ∧
        size = (headers.directory .debug).size ∧ entrySize = DebugEntry.length := by
  refine .trans (value_locate_require (fun cause => ∃ size entrySize,
    cause = .directorySize size entrySize) rfl rfl (fun _ => rfl) (fun start => ?_)
    (by simp) ⟨_, _, rfl⟩) ?_
  · refine .bind (.seek start) fun _ => .bind (.times (blames_entry (by simp)) _) fun entries => ?_
    exact .mapEach (fun entry => .bind (blames_codeView (by simp) (by simp) headers entry)
      fun _ => .pure _) entries
  · rw [FormatError.directorySize.injEq]

end DebugRecord

-- ---------------------------------------------------------------------------
-- Headers alone
-- ---------------------------------------------------------------------------

theorem Headers.optional_eq_none {bytes : ByteArray} {loaded : Bool} {headers : Headers}
    (hm : u16At bytes 0 ≠ some 0x5A4D) (hh : (read loaded).value bytes 0 = .ok headers) :
    headers.optional = none := by
  obtain ⟨after, hr⟩ := value_eq_ok.mp hh
  simp only [read, run_bind_ok, run_pure_ok] at hr
  obtain ⟨ntOffset, _, hl, file, _, _, optional, _, ho, _, _, _, _, _, _, rfl, _⟩ := hr
  simp only [locate, run_bind_ok, run_seek_ok, run_u16_ok] at hl
  obtain ⟨_, _, rfl, magic, _, ⟨hu, rfl⟩, hl⟩ := hl
  rw [if_neg (by rintro rfl; exact hm hu)] at hl
  simp only [run_bind_ok, run_pure_ok] at hl
  obtain ⟨_, _, _, _, _, _, rfl, _⟩ := hl
  exact (run_pure_ok.mp ho).1

theorem Headers.closed_of_optional {headers : Headers} (ho : headers.optional = none)
    (slot : DirectorySlot) : headers.Closed slot :=
  .beyond fun optional h => by rw [ho] at h; contradiction

/-- The headers of a file of which only these directories and sections matter. -/
def Headers.ofDirectories (directories : List DataDirectory) (sections : List SectionHeader) :
    Headers where
  loaded := false
  ntOffset := some 0
  file := ⟨⟨0⟩, sections.length.toUInt16, 0, 0, 0, 0, ⟨0⟩⟩
  optional := some {
    magic := .pe32, majorLinkerVersion := 0, minorLinkerVersion := 0, sizeOfCode := 0
    sizeOfInitializedData := 0, sizeOfUninitializedData := 0, addressOfEntryPoint := 0
    baseOfCode := 0, baseOfData := some 0, imageBase := 0, sectionAlignment := 0
    fileAlignment := 0, majorOperatingSystemVersion := 0, minorOperatingSystemVersion := 0
    majorImageVersion := 0, minorImageVersion := 0, majorSubsystemVersion := 0
    minorSubsystemVersion := 0, win32VersionValue := 0, sizeOfImage := 0, sizeOfHeaders := 0
    checksum := 0, subsystem := ⟨0⟩, dllCharacteristics := ⟨0⟩, sizeOfStackReserve := 0
    sizeOfStackCommit := 0, sizeOfHeapReserve := 0, sizeOfHeapCommit := 0, loaderFlags := 0
    numberOfRvaAndSizes := directories.length.toUInt32, dataDirectories := directories }
  sections

def Image.bare (headers : Headers) : Image where
  headers
  exports := none
  imports := []
  debug := []
  resources := .empty
  managed := none

/-- Every reader asks the gate first. What it refuses is empty or fails in one way,
whatever the bytes, and a size is judged of what it admits alone. -/
theorem directories_gated :
    (∀ (headers : Headers) (slot : DirectorySlot), headers.Closed slot ∨
      headers.Crosses slot ∨ ∃ start, headers.Admits slot start) ∧
    Gated .managedHeader none ManagedHeader.find ∧
    Gated .exportTable none ExportTable.read ∧
    Gated .importTable [] ImportedModule.readAll ∧
    Gated .debug [] DebugRecord.readAll ∧
    (∀ headers bytes position,
      headers.Closed .resourceTable ∨ headers.Crosses .resourceTable →
      (Resource.Table.read headers).value bytes position = .ok .empty) ∧
    (∀ headers bytes position least obtained,
      (ManagedHeader.find headers).value bytes position =
          .error (.format (.managedHeaderSize least obtained)) ↔
        (∃ start, headers.Admits .managedHeader start) ∧
          (headers.directory .managedHeader).size < 72 ∧
          least = 72 ∧ obtained = (headers.directory .managedHeader).size) ∧
    (∀ headers bytes position size entrySize,
      (DebugRecord.readAll headers).value bytes position =
          .error (.format (.directorySize size entrySize)) ↔
        (∃ start, headers.Admits .debug start) ∧
          (headers.directory .debug).size % 28 ≠ 0 ∧
          size = (headers.directory .debug).size ∧ entrySize = 28) ∧
    ∀ bytes loaded,
      (u16At bytes 0 ≠ some 0x5A4D ∨
        ∀ headers, (Headers.read loaded).value bytes 0 = .ok headers → headers.optional = none) →
      Image.read bytes loaded = ((Headers.read loaded).value bytes 0).map Image.bare := by
  have hm : Gated .managedHeader none ManagedHeader.find := gated_locate_bind fun _ => rfl
  have he : Gated .exportTable none ExportTable.read := gated_locate_bind fun _ => rfl
  have hi : Gated .importTable [] ImportedModule.readAll := gated_locate_bind fun _ => rfl
  have hd : Gated .debug [] DebugRecord.readAll := gated_locate_bind fun _ => rfl
  have hr : ∀ headers bytes position,
      headers.Closed .resourceTable ∨ headers.Crosses .resourceTable →
      (Resource.Table.read headers).value bytes position = .ok .empty := by
    intro headers bytes position h
    rw [Resource.Table.value_read,
      Resource.Table.ofBytes_of_none (Resource.Table.rootOffset?_of_refused h)]
  refine ⟨Headers.closed_or_crosses_or_admits, hm, he, hi, hd, hr,
    fun _ _ _ _ _ => ManagedHeader.find_eq_size_error,
    fun _ _ _ _ _ => DebugRecord.readAll_eq_size_error, fun bytes loaded ho => ?_⟩
  cases hh : (Headers.read loaded).value bytes 0 with
  | error cause => rw [Image.read_eq bytes loaded 0, hh, error_bind, map_error]
  | ok headers =>
    have hn : headers.optional = none :=
      ho.elim (fun ho => Headers.optional_eq_none ho hh) (· headers hh)
    have hc := Headers.closed_of_optional hn
    have ht := hr headers bytes 0 (.inl (hc _))
    rw [Resource.Table.value_read, Except.ok.injEq] at ht
    rw [Image.read_of_headers hh 0, Image.directories, hm.closed headers bytes 0 (hc _),
      he.closed headers bytes 0 (hc _), hi.closed headers bytes 0 (hc _),
      hd.closed headers bytes 0 (hc _), ht]
    rfl

end PeCoff
