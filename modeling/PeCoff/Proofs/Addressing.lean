import PeCoff.Proofs.Gate

/-!
# Blocks of addresses

The section table alone decides whether an address or a directory has a
position; the layout decides only which. `blocks_translated`: a directory that
passes the check lies in one section, and if no section in front of that one
comes between, its addresses have positions one behind the other. Those who
read a directory from its start may thus go on without asking again.
-/

namespace PeCoff

instance (container : SectionHeader) (rva : UInt32) : Decidable (container.Covers rva) :=
  inferInstanceAs (Decidable (_ ∧ _))

namespace SectionHeader

/-- The section's range holds the number, which may lie past the last address. -/
def Spans (container : SectionHeader) (address : Nat) : Prop :=
  container.virtualAddress.toNat ≤ address ∧
    address < container.virtualAddress.toNat + container.virtualSize.toNat

def Overlaps (container : SectionHeader) (directory : DataDirectory) : Prop :=
  ∃ address, container.Spans address ∧ directory.rva.toNat ≤ address ∧
    address < directory.rva.toNat + directory.size.toNat

def Apart (first second : SectionHeader) : Prop :=
  ∀ address, first.Spans address → ¬second.Spans address

end SectionHeader

namespace Headers

variable {headers : Headers} {rva address : UInt32} {directory : DataDirectory}
  {container : SectionHeader} {start k : Nat}

-- ---------------------------------------------------------------------------
-- Single addresses
-- ---------------------------------------------------------------------------

def Maps (headers : Headers) (rva : UInt32) : Prop :=
  ∃ container ∈ headers.sections, container.Covers rva

instance (headers : Headers) (rva : UInt32) : Decidable (headers.Maps rva) :=
  inferInstanceAs (Decidable (∃ container ∈ headers.sections, container.Covers rva))

theorem offset?_eq_none : headers.offset? rva = none ↔ ¬headers.Maps rva := by
  have hs : headers.section? rva = none ↔ ¬headers.Maps rva := by
    simp only [section?_eq_none, Maps, not_exists, not_and]
  rw [← hs]
  unfold offset?
  cases headers.section? rva <;> simp

theorem maps_of_offset? {offset : Nat} (h : headers.offset? rva = some offset) :
    headers.Maps rva := by
  refine Decidable.byContradiction fun hn => ?_
  rw [offset?_eq_none.mpr hn] at h
  contradiction

theorem exists_offset?_iff : (∃ offset, headers.offset? rva = some offset) ↔ headers.Maps rva := by
  constructor
  · rintro ⟨offset, ho⟩
    exact maps_of_offset? ho
  · intro hm
    rw [← Option.isSome_iff_exists, ← Option.ne_none_iff_isSome]
    exact fun hn => offset?_eq_none.mp hn hm

theorem FirstCovering.offset? (h : headers.FirstCovering rva container) :
    headers.offset? rva = some (headers.offsetWithin container rva) := by
  unfold Headers.offset?
  rw [section?_eq_some.mpr h]

/-- In a mapped image the first section that holds an address has no part in its position. -/
theorem offset?_of_loaded (hl : headers.loaded = true) (hm : headers.Maps rva) :
    headers.offset? rva = some rva.toNat := by
  unfold Headers.offset?
  split
  next container _ => rw [offsetWithin, if_pos hl]
  next hn =>
    obtain ⟨container, hc, hv⟩ := hm
    exact absurd hv (section?_eq_none.mp hn container hc)

theorem offsetWithin_add (hc : container.virtualAddress.toNat ≤ rva.toNat)
    (ha : address.toNat = rva.toNat + k) :
    headers.offsetWithin container address = headers.offsetWithin container rva + k := by
  have hr := UInt32.toNat_sub_of_le rva container.virtualAddress (UInt32.le_iff_toNat_le.mpr hc)
  have hs := UInt32.toNat_sub_of_le address container.virtualAddress
    (UInt32.le_iff_toNat_le.mpr (by omega))
  unfold offsetWithin
  split <;> omega

-- ---------------------------------------------------------------------------
-- Directories
-- ---------------------------------------------------------------------------

/-- The addresses of the directory have positions one behind the other, the first at `start`.
What lies past the last address is left out. -/
def Contiguous (headers : Headers) (directory : DataDirectory) (start : Nat) : Prop :=
  ∀ k < directory.size.toNat, directory.rva.toNat + k < UInt32.size →
    headers.offset? (.ofNat (directory.rva.toNat + k)) = some (start + k)

theorem of_directoryOffset? (h : headers.directoryOffset? directory false = .ok (some start)) :
    ∃ container, headers.FirstCovering directory.rva container ∧
      directory.rva.toNat + directory.size.toNat ≤
        container.virtualAddress.toNat + container.virtualSize.toNat ∧
      start = headers.offsetWithin container directory.rva := by
  unfold directoryOffset? at h
  split at h
  next =>
    split at h
    next => cases h
    next container hs =>
      simp only [Bool.not_false, Bool.true_and, decide_eq_true_eq] at h
      split at h
      next => contradiction
      next hr =>
        cases h
        exact ⟨container, section?_eq_some.mp hs, Nat.not_lt.mp (mt (room_lt_iff hs).mpr hr), rfl⟩
  next => cases h

section

variable (hc : container.Covers directory.rva)
  (he : directory.rva.toNat + directory.size.toNat ≤
    container.virtualAddress.toNat + container.virtualSize.toNat)
include hc he

theorem covers_add (hk : k < directory.size.toNat)
    (ha : address.toNat = directory.rva.toNat + k) : container.Covers address := by
  obtain ⟨hl, -⟩ := hc
  rw [SectionHeader.Covers, ha]
  exact ⟨Nat.le_add_right_of_le hl, by omega⟩

/-- A directory that ends in its section is a block, unless a section in front of that one
holds some of its addresses. -/
theorem contiguous_of_first {before behind : List SectionHeader}
    (hs : headers.sections = before ++ container :: behind)
    (hb : ∀ other ∈ before, ¬other.Overlaps directory) :
    headers.Contiguous directory (headers.offsetWithin container directory.rva) := by
  intro k hk hu
  have ha : (UInt32.ofNat (directory.rva.toNat + k)).toNat = directory.rva.toNat + k :=
    UInt32.toNat_ofNat_of_lt' hu
  have hf : headers.FirstCovering (.ofNat (directory.rva.toNat + k)) container := by
    refine ⟨before, behind, hs, covers_add hc he hk ha, fun other hm ho => hb other hm ?_⟩
    rw [SectionHeader.Covers, ha] at ho
    exact ⟨_, ho, Nat.le_add_right _ k, Nat.add_lt_add_left hk _⟩
  rw [hf.offset?, offsetWithin_add hc.1 ha]

theorem contiguous_of_loaded (hm : container ∈ headers.sections) (hl : headers.loaded = true) :
    headers.Contiguous directory (headers.offsetWithin container directory.rva) := by
  intro k hk hu
  have ha : (UInt32.ofNat (directory.rva.toNat + k)).toNat = directory.rva.toNat + k :=
    UInt32.toNat_ofNat_of_lt' hu
  have hv : headers.Maps (.ofNat (directory.rva.toNat + k)) :=
    ⟨container, hm, covers_add hc he hk ha⟩
  rw [offset?_of_loaded hl hv, ha, offsetWithin, if_pos hl]

theorem not_overlaps_of_apart {before behind : List SectionHeader}
    (hs : headers.sections = before ++ container :: behind)
    (hp : headers.sections.Pairwise SectionHeader.Apart) :
    ∀ other ∈ before, ¬other.Overlaps directory := by
  rintro other hm ⟨address, ho, hl, hu⟩
  rw [hs, List.pairwise_append] at hp
  have ha := hp.2.2 other hm container List.mem_cons_self
  exact ha address ho ⟨Nat.le_trans hc.1 hl, Nat.lt_of_lt_of_le hu he⟩

end

-- ---------------------------------------------------------------------------
-- Layouts
-- ---------------------------------------------------------------------------

def withLayout (headers : Headers) (loaded : Bool) : Headers := { headers with loaded }

theorem directoryOffset?_withLayout (headers : Headers) (loaded : Bool)
    (directory : DataDirectory) (mayCross : Bool) :
    ((headers.withLayout loaded).directoryOffset? directory mayCross).map Option.isSome =
      (headers.directoryOffset? directory mayCross).map Option.isSome := by
  unfold directoryOffset?
  rw [show (headers.withLayout loaded).section? = headers.section? from rfl]
  split
  · split
    · rfl
    · dsimp only
      split <;> rfl
  · rfl

/-- A directory that is accepted lies in the first section that holds its address, and is a
block of positions if the image is mapped or no section in front of that one comes between. An
address has a position exactly if a section holds it, and the layout has no part in whether
there is a position or an error. -/
theorem blocks_translated (headers : Headers) :
    (∀ directory start, headers.directoryOffset? directory false = .ok (some start) →
      ∃ before container behind, headers.sections = before ++ container :: behind ∧
        container.Covers directory.rva ∧ (∀ other ∈ before, ¬other.Covers directory.rva) ∧
        directory.rva.toNat + directory.size.toNat ≤
          container.virtualAddress.toNat + container.virtualSize.toNat ∧
        (headers.loaded = true ∨ (∀ other ∈ before, ¬other.Overlaps directory) ∨
          headers.sections.Pairwise SectionHeader.Apart → headers.Contiguous directory start)) ∧
    (∀ rva, (∃ offset, headers.offset? rva = some offset) ↔
      ∃ container ∈ headers.sections, container.Covers rva) ∧
    ∀ loaded,
      (∀ rva, ((headers.withLayout loaded).offset? rva).isSome = (headers.offset? rva).isSome) ∧
      ∀ directory mayCross,
        ((headers.withLayout loaded).directoryOffset? directory mayCross).map Option.isSome =
          (headers.directoryOffset? directory mayCross).map Option.isSome := by
  refine ⟨fun directory start h => ?_, fun rva => exists_offset?_iff, fun loaded =>
    ⟨fun rva => ?_, directoryOffset?_withLayout headers loaded⟩⟩
  · obtain ⟨container, ⟨before, behind, hs, hc, hb⟩, he, rfl⟩ := of_directoryOffset? h
    refine ⟨before, container, behind, hs, hc, hb, he, ?_⟩
    rintro (hl | ho | hp)
    · have hm : container ∈ headers.sections := by
        rw [hs]
        exact List.mem_append_right before List.mem_cons_self
      exact contiguous_of_loaded hc he hm hl
    · exact contiguous_of_first hc he hs ho
    · exact contiguous_of_first hc he hs (not_overlaps_of_apart hc he hs hp)
  · rw [Bool.eq_iff_iff, Option.isSome_iff_exists, Option.isSome_iff_exists,
      exists_offset?_iff, exists_offset?_iff]
    rfl

def highSections : Headers where
  loaded := false
  ntOffset := none
  file := ⟨⟨0⟩, 2, 0, 0, 0, 0, ⟨0⟩⟩
  optional := none
  sections := [
    ⟨.replicate 8 0, 0x1000, 0x1000, 0x200, 0x400, 0, 0, 0, 0, ⟨0⟩⟩,
    ⟨.replicate 8 0, 0x2000, 0xFFFFF000, 0x200, 0x600, 0, 0, 0, 0, ⟨0⟩⟩]

theorem blocks_translated_high :
    highSections.directoryOffset? ⟨0xFFFFFF00, 0x180⟩ false = .ok (some 0x1500) ∧
      highSections.Contiguous ⟨0xFFFFFF00, 0x180⟩ 0x1500 := by
  have h : highSections.directoryOffset? ⟨0xFFFFFF00, 0x180⟩ false = .ok (some 0x1500) := rfl
  have hp : highSections.sections.Pairwise SectionHeader.Apart := by
    refine .cons (fun other hm address hf hs => ?_) (List.pairwise_singleton _ _)
    rw [List.mem_singleton.mp hm] at hs
    have hl : address < 0x2000 := hf.2
    have hu : 0xFFFFF000 ≤ address := hs.1
    omega
  obtain ⟨before, container, behind, -, -, -, -, hc⟩ :=
    (blocks_translated highSections).1 _ _ h
  exact ⟨h, hc (.inr (.inr hp))⟩

end Headers

end PeCoff
