import PeCoff.Headers.Addressing
import PeCoff.Proofs.Arithmetic.Evaluation

/-!
# Arithmetic of headers and addresses

The headers, and the positions that they give to addresses, with every sum,
difference and index evaluated. Differences are taken only behind a comparison,
and no position within a section reaches 2³³.
-/

namespace PeCoff.Evaluation

open Reader (require fail exact times u16 u32)

-- ---------------------------------------------------------------------------
-- Sections
-- ---------------------------------------------------------------------------

def contains (container : SectionHeader) (rva : UInt32) : Evaluation Bool :=
  if container.virtualAddress ≤ rva then do
    let inside ← fit 32 (rva.toNat - container.virtualAddress.toNat)
    pure (inside < container.virtualSize.toNat)
  else pure false

def sectionIndex? (rva : UInt32) : List SectionHeader → (index : Nat) → Evaluation (Option Nat)
  | [], _ => pure none
  | container :: rest, index => do
    if ← contains container rva then pure (some index)
    else sectionIndex? rva rest (index + 1)

def sectionOf? (headers : Headers) (rva : UInt32) : Evaluation (Option SectionHeader) := do
  match ← sectionIndex? rva headers.sections 0 with
  | none => pure none
  | some index => do pure (some (← element headers.sections index))

def offsetWithin (headers : Headers) (container : SectionHeader) (rva : UInt32) :
    Evaluation Nat :=
  if headers.loaded then pure rva.toNat
  else do
    let inside ← fit 32 (rva.toNat - container.virtualAddress.toNat)
    fit 64 (container.pointerToRawData.toNat + inside)

def offset? (headers : Headers) (rva : UInt32) : Evaluation (Option Nat) := do
  match ← sectionOf? headers rva with
  | none => pure none
  | some container => do pure (some (← offsetWithin headers container rva))

def directoryOffset? (headers : Headers) (directory : DataDirectory) (mayCross : Bool) :
    Evaluation (Option Nat) :=
  if directory.isPresent then do
    match ← sectionOf? headers directory.rva with
    | none => pure none
    | some container => do
      let inside ← fit 32 (directory.rva.toNat - container.virtualAddress.toNat)
      let room ← fit 32 (container.virtualSize.toNat - inside)
      if !mayCross && decide (room < directory.size.toNat) then
        lift (fail (.directoryCrossesSection directory.rva directory.size))
      else do pure (some (← offsetWithin headers container directory.rva))
  else pure none

def locateDirectory (headers : Headers) (slot : DirectorySlot) : Evaluation (Option Nat) :=
  directoryOffset? headers (headers.directory slot) false

def textAt (headers : Headers) (rva : UInt32) : Evaluation (Option String) := do
  match ← offset? headers rva with
  | none => pure none
  | some offset => do
    seek offset
    pure (some (← lift Reader.terminated))

theorem sub_toNat {first second : UInt32} (h : second ≤ first) :
    (first.toNat - second.toNat : Int) = (first - second).toNat := by
  rw [UInt32.toNat_sub_of_le _ _ h]
  exact (Int.ofNat_sub (UInt32.le_iff_toNat_le.mp h)).symm

theorem contains_eq (container : SectionHeader) (rva : UInt32) :
    contains container rva = pure (container.contains rva) := by
  unfold contains SectionHeader.contains
  by_cases hv : container.virtualAddress ≤ rva
  · rw [if_pos hv, fit_eq (sub_toNat hv) (UInt32.toNat_lt _), pure_bind]
    simp [hv, UInt32.lt_iff_toNat_lt]
  · simp [hv]

theorem sectionIndex?_eq (rva : UInt32) (sections : List SectionHeader) (index : Nat) :
    sectionIndex? rva sections index =
      pure ((sections.findIdx? (·.contains rva)).map (· + index)) := by
  induction sections generalizing index with
  | nil => rfl
  | cons container rest ih =>
    rw [sectionIndex?, contains_eq, pure_bind, List.findIdx?_cons, ih]
    cases container.contains rva
    · simp [Nat.add_comm, Nat.add_left_comm, Function.comp_def]
    · simp

theorem sectionOf?_eq (headers : Headers) (rva : UInt32) :
    sectionOf? headers rva = pure (headers.section? rva) := by
  rw [sectionOf?, sectionIndex?_eq, pure_bind, Headers.section?]
  cases hi : headers.sections.findIdx? (·.contains rva) with
  | none =>
    simp only [List.findIdx?_eq_none_iff] at hi
    rw [List.find?_eq_none.mpr (by simpa using hi)]
    rfl
  | some index =>
    obtain ⟨hl, hc, hf⟩ := List.findIdx?_eq_some_iff_getElem.mp hi
    have hs : headers.sections.find? (·.contains rva) = some headers.sections[index] :=
      List.find?_eq_some_iff_getElem.mpr ⟨hc, index, hl, rfl, by simpa using hf⟩
    exact step (element_eq (List.getElem?_eq_getElem hl)) (congrArg pure hs.symm)

theorem offsetWithin_eq {headers : Headers} {container : SectionHeader} {rva : UInt32}
    (h : container.virtualAddress ≤ rva) :
    offsetWithin headers container rva = pure (headers.offsetWithin container rva) := by
  unfold offsetWithin Headers.offsetWithin
  cases headers.loaded
  · have hp := container.pointerToRawData.toNat_lt
    have hi := (rva - container.virtualAddress).toNat_lt
    rw [if_neg Bool.false_ne_true, if_neg Bool.false_ne_true, fit_eq (sub_toNat h) hi, pure_bind,
      fit_eq (Int.natCast_add _ _).symm (by omega)]
  · rfl

/-- An address in front of the section would be at a negative distance from its start. -/
theorem offsetWithin_negative {headers : Headers} {container : SectionHeader} {rva : UInt32}
    (hl : headers.loaded = false) (h : rva < container.virtualAddress) :
    offsetWithin headers container rva =
      fault (.negative (rva.toNat - container.virtualAddress.toNat)) := by
  have hv := UInt32.lt_iff_toNat_lt.mp h
  rw [offsetWithin, hl, if_neg Bool.false_ne_true, fit_negative (by omega)]
  rfl

theorem offsetWithin_lt (headers : Headers) (container : SectionHeader) (rva : UInt32) :
    headers.offsetWithin container rva < 1 <<< 33 := by
  have hr := rva.toNat_lt
  have hp := container.pointerToRawData.toNat_lt
  have hi := (rva - container.virtualAddress).toNat_lt
  unfold Headers.offsetWithin
  split <;> omega

theorem offset?_eq (headers : Headers) (rva : UInt32) :
    offset? headers rva = pure (headers.offset? rva) := by
  rw [offset?, sectionOf?_eq, pure_bind, Headers.offset?]
  cases hs : headers.section? rva with
  | none => rfl
  | some container =>
    simp only
    rw [offsetWithin_eq (Headers.of_section? hs).1, pure_bind]

theorem offset_lt {headers : Headers} {rva : UInt32} {offset : Nat}
    (h : headers.offset? rva = some offset) : offset < 1 <<< 33 := by
  unfold Headers.offset? at h
  split at h
  next container _ =>
    cases h
    exact offsetWithin_lt headers container rva
  next => contradiction

theorem safe_directoryOffset? (headers : Headers) (directory : DataDirectory) (mayCross : Bool) :
    Safe (directoryOffset? headers directory mayCross)
      (Reader.lift (headers.directoryOffset? directory mayCross)) := by
  unfold directoryOffset? Headers.directoryOffset?
  cases directory.isPresent
  · exact .pure none
  simp only [if_true]
  refine .step (sectionOf?_eq headers directory.rva) ?_
  cases hs : headers.section? directory.rva with
  | none => exact .pure none
  | some container =>
    obtain ⟨hv, hi⟩ := Headers.of_section? hs
    refine .step (fit_eq (sub_toNat hv) (UInt32.toNat_lt _)) ?_
    refine .step (fit_eq (sub_toNat (UInt32.le_of_lt hi)) (UInt32.toNat_lt _)) ?_
    simp only [← UInt32.lt_iff_toNat_lt]
    split
    · exact .lift _
    · exact .step (offsetWithin_eq hv) (.pure _)

theorem directoryOffset_lt {headers : Headers} {directory : DataDirectory} {mayCross : Bool}
    {offset : Nat} (h : headers.directoryOffset? directory mayCross = .ok (some offset)) :
    offset < 1 <<< 33 := by
  unfold Headers.directoryOffset? at h
  split at h
  · split at h
    · cases h
    next container _ =>
      simp only at h
      split at h
      · cases h
      · cases h
        exact offsetWithin_lt headers container directory.rva
  · cases h

theorem safe_locateDirectory (headers : Headers) (slot : DirectorySlot) :
    Safe (locateDirectory headers slot) (headers.locateDirectory slot) :=
  safe_directoryOffset? headers (headers.directory slot) false

theorem start_lt {headers : Headers} {slot : DirectorySlot} {start : Nat}
    (h : (headers.locateDirectory slot).Yields (some start)) : start < 1 <<< 33 := by
  obtain ⟨bytes, position, after, hr⟩ := h
  unfold Headers.locateDirectory at hr
  cases hd : headers.directoryOffset? (headers.directory slot) false with
  | error cause =>
    rw [hd] at hr
    contradiction
  | ok found =>
    rw [hd] at hr
    cases hr
    exact directoryOffset_lt hd

theorem lt_positionLimit {position : Nat} (h : position < 1 <<< 33) : position < positionLimit :=
  Nat.lt_of_lt_of_le h (by decide)

theorem safe_textAt (headers : Headers) (rva : UInt32) :
    Safe (textAt headers rva) (headers.textAt rva) := by
  unfold textAt Headers.textAt
  refine .step (offset?_eq headers rva) ?_
  cases ho : headers.offset? rva with
  | none => exact .pure none
  | some offset =>
    refine .bind (.seek (lt_positionLimit (offset_lt ho))) fun _ _ => ?_
    exact .bind (.lift _) fun text _ => .pure _

-- ---------------------------------------------------------------------------
-- Headers
-- ---------------------------------------------------------------------------

def locate : Evaluation (Option UInt32) := do
  seek 0
  let magic ← lift u16
  if magic = 0x5A4D then do
    seek 0x3C
    let ntOffset ← lift u32
    seek ntOffset.toNat
    let signature ← lift u32
    lift (require (signature = 0x00004550) (.peSignature signature))
    pure (some ntOffset)
  else do
    lift (Headers.refuseAnonymous magic)
    seek 0
    pure none

def fileHeaderEnd : Option UInt32 → Evaluation Nat
  | some ntOffset => do
    let fileHeader ← fit 64 (ntOffset.toNat + 4)
    fit 64 (fileHeader + FileHeader.length)
  | none => pure FileHeader.length

def directoryCount (size fixed : UInt16) (stored : UInt32) : Evaluation Nat := do
  let room ← fit 16 (size.toNat - fixed.toNat)
  fit 64 (min stored.toNat (room / 8))

/-- The optional header, the number of its directories being worked out behind
the fixed part, which is read as if there were no room for any. -/
def readOptionalHeader (size : UInt16) : Evaluation OptionalHeader := do
  lift (require (2 ≤ size) (.optionalHeaderSize 2 size))
  let magic ← lift u16
  match OptionalMagic.fixedSize? ⟨magic⟩ with
  | none => lift (fail (.optionalHeaderMagic magic))
  | some fixed => do
    lift (require (fixed ≤ size) (.optionalHeaderSize fixed size))
    let header ← lift (OptionalHeader.readBody ⟨magic⟩ fixed fixed)
    let count ← directoryCount size fixed header.numberOfRvaAndSizes
    let dataDirectories ← lift (times count DataDirectory.read)
    pure { header with dataDirectories }

def readOptional (ntOffset : Option UInt32) (size : UInt16) :
    Evaluation (Option OptionalHeader) :=
  if ntOffset.isSome && size != 0 then do pure (some (← readOptionalHeader size))
  else pure none

def readHeaders (loaded : Bool) : Evaluation Headers := do
  let ntOffset ← locate
  let file ← lift FileHeader.read
  let start ← fileHeaderEnd ntOffset
  let optional ← readOptional ntOffset file.sizeOfOptionalHeader
  let table ← fit 64 (start + file.sizeOfOptionalHeader.toNat)
  seek table
  let sections ← lift (times file.numberOfSections.toNat SectionHeader.read)
  pure { loaded, ntOffset, file, optional, sections }

theorem safe_locate : Safe locate Headers.locate := by
  unfold locate Headers.locate
  refine .bind (.seek (by decide)) fun _ _ => .bind (.lift _) fun magic _ => ?_
  split
  · refine .bind (.seek (by decide)) fun _ _ => .bind (.lift _) fun ntOffset _ => ?_
    have hn := ntOffset.toNat_lt
    refine .bind (.seek (lt_positionLimit (by omega))) fun _ _ => ?_
    refine .bind (.lift _) fun signature _ => ?_
    exact .bind (.lift _) fun _ _ => .pure _
  · refine .bind (.lift _) fun _ _ => ?_
    exact .bind (.seek (by decide)) fun _ _ => .pure _

theorem fileHeaderEnd_lt (ntOffset : Option UInt32) :
    Headers.fileHeaderEnd ntOffset < 1 <<< 32 + 24 := by
  cases ntOffset with
  | none => decide
  | some ntOffset =>
    have hn := ntOffset.toNat_lt
    simp only [Headers.fileHeaderEnd, FileHeader.length]
    omega

theorem fileHeaderEnd_eq (ntOffset : Option UInt32) :
    fileHeaderEnd ntOffset = pure (Headers.fileHeaderEnd ntOffset) := by
  cases ntOffset with
  | none => rfl
  | some ntOffset =>
    have hn := ntOffset.toNat_lt
    have he := fileHeaderEnd_lt (some ntOffset)
    refine step (fit_eq (Int.natCast_add _ 4).symm (by omega)) ?_
    exact fit_eq (Int.natCast_add _ FileHeader.length).symm (by omega)

theorem directoryCount_eq {size fixed : UInt16} (stored : UInt32) (h : fixed ≤ size) :
    directoryCount size fixed stored = pure (OptionalHeader.directoryCount size fixed stored) := by
  have hs := UInt16.toNat_sub_of_le _ _ h
  have hl := UInt16.le_iff_toNat_le.mp h
  have hr := (size - fixed).toNat_lt
  refine step (fit_eq (Int.ofNat_sub hl ▸ congrArg Int.ofNat hs.symm) hr) (fit_eq ?_ ?_)
  · simp only [OptionalHeader.directoryCount]
    omega
  · simp only [OptionalHeader.directoryCount]
    omega

theorem readBody_eq (magic : OptionalMagic) (size fixed : UInt16) :
    OptionalHeader.readBody magic size fixed = (do
      let header ← OptionalHeader.readBody magic fixed fixed
      let dataDirectories ← times
        (OptionalHeader.directoryCount size fixed header.numberOfRvaAndSizes) DataDirectory.read
      pure { header with dataDirectories }) := by
  have hz (stored : UInt32) : OptionalHeader.directoryCount fixed fixed stored = 0 := by
    simp [OptionalHeader.directoryCount]
  unfold OptionalHeader.readBody
  by_cases hw : magic = .pe32Plus
  · simp only [hw, if_true, hz, Reader.times_zero, bind_assoc, pure_bind]
  · simp only [hw, if_false, hz, Reader.times_zero, bind_assoc, pure_bind]

theorem safe_readOptionalHeader (size : UInt16) :
    Safe (readOptionalHeader size) (OptionalHeader.read size) := by
  unfold readOptionalHeader OptionalHeader.read
  refine .bind (.lift _) fun _ _ => .bind (.lift _) fun magic _ => ?_
  cases OptionalMagic.fixedSize? ⟨magic⟩ with
  | none => exact .lift _
  | some fixed =>
    refine .bind (.lift _) fun _ hr => ?_
    rw [readBody_eq _ size fixed]
    refine .bind (.lift _) fun header _ => ?_
    refine .step (directoryCount_eq _ hr.of_require) ?_
    exact .bind (.lift _) fun directories _ => .pure _

theorem safe_readOptional (ntOffset : Option UInt32) (size : UInt16) :
    Safe (readOptional ntOffset size) (Headers.readOptional ntOffset size) := by
  unfold readOptional Headers.readOptional
  split
  · exact .bind (safe_readOptionalHeader size) fun header _ => .pure _
  · exact .pure none

theorem safe_readHeaders (loaded : Bool) : Safe (readHeaders loaded) (Headers.read loaded) := by
  unfold readHeaders Headers.read
  refine .bind safe_locate fun ntOffset _ => .bind (.lift _) fun file _ => ?_
  refine .step (fileHeaderEnd_eq ntOffset) ?_
  refine .bind (safe_readOptional ntOffset file.sizeOfOptionalHeader) fun optional _ => ?_
  have he := fileHeaderEnd_lt ntOffset
  have hs := file.sizeOfOptionalHeader.toNat_lt
  refine .step (fit_eq (Int.natCast_add _ _).symm (by omega)) ?_
  refine .bind (.seek (lt_positionLimit (by omega))) fun _ _ => ?_
  exact .bind (.lift _) fun sections _ => .pure _

end PeCoff.Evaluation
