import PeCoff.Proofs.Image.Degradation
import PeCoff.Proofs.Resource.Preorder
import PeCoff.Proofs.Resource.VersionRecord
import PeCoff.Proofs.Text.Lines
import PeCoff.Report

/-!
# The listing of a resource tree

The listing has a line for every entry, in preorder and indented by its depth.
Names are quoted, so no name adds a line or changes where one starts, and every
entry that has been read has a name or a number. `resources_listing`: the lines,
and with them the tree's shape, can be read off the text again.
-/

namespace PeCoff.Report

open Resource Numeral

-- ---------------------------------------------------------------------------
-- Lines
-- ---------------------------------------------------------------------------

def suffix : Child Level → String
  | .directory _ => ""
  | .data entry => ": " ++ dataText entry

def entryText (entry : Entry Level) : List Char :=
  (entryLabel entry).toList ++ (suffix entry.child).toList

def entryLine (place : Nat × Entry Level) : List Char :=
  List.replicate (2 * place.1) ' ' ++ entryText place.2

/-- The text starts as the key says: with a quote, or with a hash and the whole number. -/
inductive Opens : Key → List Char → Prop
  | name {offset : UInt32} {rest : List Char} : Opens (.name offset) ('"' :: rest)
  | id {number : UInt16} {rest : List Char} : (∀ c ∈ rest.head?, c.isDigit = false) →
      Opens (.id number) ('#' :: (Nat.toDigits 10 number.toNat ++ rest))

theorem singleLine_label (entry : Entry Level) : SingleLine (entryLabel entry) := by
  unfold entryLabel
  split
  · exact .quote _
  · rw [SingleLine.append_iff]
    exact ⟨by decide, .numeral _⟩
  · decide

theorem singleLine_dataText (entry : DataEntry) : SingleLine (dataText entry) := by
  obtain ⟨rva, size, codePage, reserved, offset⟩ := entry
  cases offset <;>
    simp only [dataText, SingleLine.append_iff, SingleLine.address, SingleLine.numeral, and_true]
      <;> decide

theorem singleLine_suffix (child : Child Level) : SingleLine (suffix child) := by
  cases child with
  | directory level =>
    rw [suffix]
    decide
  | data entry =>
    rw [suffix, SingleLine.append_iff]
    exact ⟨by decide, singleLine_dataText entry⟩

theorem newline_not_mem_entryLine (place : Nat × Entry Level) : '\n' ∉ entryLine place := by
  rw [entryLine, entryText, List.mem_append, List.mem_append]
  rintro (h | h | h)
  · exact absurd (List.eq_of_mem_replicate h) (by decide)
  · exact singleLine_label _ h
  · exact singleLine_suffix _ h

theorem opens_entryText {bytes : ByteArray} {root : Nat} {entry : Entry Level}
    (h : Labelled bytes root entry.key entry.label) : Opens entry.key (entryText entry) := by
  obtain ⟨key, link, label, child⟩ := entry
  cases key with
  | name offset =>
    cases label with
    | none => contradiction
    | some label =>
      rw [entryText]
      show Opens _ ((Quoted.quote label.text).toList ++ _)
      rw [Quoted.toList_quote]
      exact .name
  | id number =>
    cases h
    rw [entryText]
    show Opens _ (("#" ++ toString number.toNat).toList ++ _)
    have hd : (toString number.toNat).toList = Nat.toDigits 10 number.toNat := Nat.toList_repr
    rw [String.toList_append, hd]
    refine .id ?_
    cases child <;> simp [suffix]

theorem Opens.exists_head {key : Key} {text : List Char} (h : Opens key text) :
    ∃ c rest, text = c :: rest ∧ (c = '"' ∨ c = '#') := by
  cases h with
  | name => exact ⟨'"', _, rfl, .inl rfl⟩
  | id _ => exact ⟨'#', _, rfl, .inr rfl⟩

theorem depth_entryLine {place : Nat × Entry Level} (h : Opens place.2.key (entryText place.2)) :
    Lines.depth (entryLine place) = place.1 := by
  obtain ⟨c, rest, ht, hc⟩ := h.exists_head
  have hb : c ≠ ' ' := by rcases hc with rfl | rfl <;> decide
  rw [entryLine, ht, Lines.depth_indented hb]

-- ---------------------------------------------------------------------------
-- The text
-- ---------------------------------------------------------------------------

def belowText (indent : Nat) : Child Level → String
  | .directory below => "\n" ++ level (indent + 2) below
  | .data entry => ": " ++ dataText entry ++ "\n"

theorem level_eq (indent : Nat) (tree : Level) :
    level indent tree = String.join (tree.entries.map fun entry =>
      blanks indent ++ entryLabel entry ++ belowText indent entry.child) := by
  rw [level]
  refine congrArg String.join (.trans (List.map_congr_left fun ⟨entry, _⟩ _ => ?_)
    (List.attach_map_val (f := fun entry : Entry Level =>
      blanks indent ++ entryLabel entry ++ belowText indent entry.child)))
  refine congrArg (blanks indent ++ entryLabel entry ++ ·) ?_
  cases entry.child <;> rfl

mutual
theorem toList_level (depth : Nat) : (tree : Level) →
    (level (2 * depth) tree).toList = Lines.join ((tree.preorder depth).map entryLine)
  | ⟨header, entries⟩ => by
    rw [level_eq, String.toList_join, List.flatMap_map, Level.preorder,
      toList_entries depth entries]
theorem toList_entries (depth : Nat) : (entries : List (Entry Level)) →
    (entries.flatMap fun entry => (blanks (2 * depth) ++ entryLabel entry ++
      belowText (2 * depth) entry.child).toList) =
        Lines.join ((preorderEntries depth entries).map entryLine)
  | [] => rfl
  | ⟨key, link, label, child⟩ :: rest => by
    rw [preorderEntries, List.flatMap_cons, toList_entries depth rest, List.map_cons,
      Lines.join_cons, List.map_append, Lines.join_append, String.toList_append,
      toList_below depth child]
    simp [entryLine, entryText, blanks]
theorem toList_below (depth : Nat) : (child : Child Level) →
    (belowText (2 * depth) child).toList =
      (suffix child).toList ++ '\n' :: Lines.join ((child.preorder (depth + 1)).map entryLine)
  | .directory below => by
    rw [belowText, String.toList_append]
    show _ ++ (level (2 * (depth + 1)) below).toList = _
    rw [toList_level (depth + 1) below]
    rfl
  | .data entry => by
    rw [belowText, suffix, String.toList_append]
    rfl
end

-- ---------------------------------------------------------------------------
-- Images
-- ---------------------------------------------------------------------------

variable {bytes : ByteArray} {loaded : Bool} {image : Image}

theorem opens_of_read (h : Image.read bytes loaded = .ok image) :
    ∀ place ∈ image.resources.root.preorder 0, Opens place.2.key (entryText place.2) := by
  rw [resources_of_read h]
  intro place hm
  generalize ht : Table.ofBytes image.headers bytes = table at hm
  have ho := outcome_ofBytes image.headers bytes
  rw [ht] at ho
  cases ho with
  | missing _ => contradiction
  | whole _ _ hu => exact opens_entryText (hu.labelled 0 _ place hm)
  | broken _ _ => contradiction

theorem run_resources_of_read (h : Image.read bytes loaded = .ok image) :
    run .resources bytes loaded = .printed (level 0 image.resources.root) := by
  simp only [run, Mode.prepare, h]
  rfl

/-- The listing has as many newlines as the tree has entries, and its lines are the entries in
preorder: each is indented by its depth and then starts with the quote of a name or the hash
of a number. So the shape of the tree is read off the lines. -/
theorem resources_listing (h : Image.read bytes loaded = .ok image) :
    ∃ text, run .resources bytes loaded = .printed text ∧
      text.toList.count '\n' = image.resources.root.summary.entries ∧
      text.toList = Lines.join ((image.resources.root.preorder 0).map entryLine) ∧
      Lines.split text.toList = (image.resources.root.preorder 0).map entryLine ∧
      (∀ place ∈ image.resources.root.preorder 0, Opens place.2.key (entryText place.2)) ∧
      (Lines.split text.toList).map Lines.depth =
        (image.resources.root.preorder 0).map Prod.fst ∧
      Forest.ofDepths ((Lines.split text.toList).map Lines.depth) =
        image.resources.root.shape := by
  have hn : ∀ line ∈ (image.resources.root.preorder 0).map entryLine, '\n' ∉ line := by
    intro line hm
    obtain ⟨place, -, rfl⟩ := List.mem_map.mp hm
    exact newline_not_mem_entryLine place
  have ho := opens_of_read h
  have ht := toList_level 0 image.resources.root
  have hs := Lines.split_join hn
  have hd : ((image.resources.root.preorder 0).map entryLine).map Lines.depth =
      (image.resources.root.preorder 0).map Prod.fst := by
    rw [List.map_map]
    exact List.map_congr_left fun place hm => depth_entryLine (ho place hm)
  refine ⟨level 0 image.resources.root, run_resources_of_read h, ?_, ht, ?_, ho, ?_, ?_⟩
  · rw [ht, Lines.count_join hn, List.length_map, Level.length_preorder]
  · rw [ht, hs]
  · rw [ht, hs, hd]
  · rw [ht, hs, hd, Level.depths_preorder, Forest.ofDepths_depths]

/-- A file whose only section holds a resource tree: an entry that leads to another, and one
next to it. The name of the first has a newline and goes on as a line of the listing would.
Each field is given by its width and its value. -/
def forged : ByteArray :=
  ⟨(([
      (2, 0x5A4D), (58, 0), (4, 0x40),
      (4, 0x4550), (2, 0x14C), (2, 1), (12, 0), (2, 120), (2, 0),
      (2, 0x10B), (90, 0), (4, 3), (16, 0), (4, 0x1000), (4, 84),
      (8, 0), (4, 84), (4, 0x1000), (4, 84), (4, 248), (16, 0),
      (12, 0), (2, 1), (2, 1), (4, 0x80000048), (4, 0x80000020), (4, 7), (4, 56),
      (14, 0), (2, 1), (4, 0x409), (4, 56),
      (4, 0x1000), (12, 0),
      (2, 5), (2, 0x0A), (2, 0x20), (2, 0x20), (2, 0x23), (2, 0x31)] : List (Nat × Nat)).flatMap
    fun field => LittleEndian.bytes field.1 field.2).toArray⟩

theorem resources_listing_forged :
    ∃ image text, Image.read forged false = .ok image ∧
      image.resources.root.entries.map Entry.name? = [some "\n  #1", none] ∧
      run .resources forged false = .printed text ∧ text.toList.count '\n' = 3 ∧
      Forest.ofDepths ((Lines.split text.toList).map Lines.depth) =
        .cons (.cons .nil .nil) (.cons .nil .nil) := by
  have he : (Image.read forged false).toOption.map (fun image =>
      (image.resources.root.entries.map Entry.name?, image.resources.root.shape)) =
        some ([some "\n  #1", none], .cons (.cons .nil .nil) (.cons .nil .nil)) := by
    decide +kernel
  obtain ⟨image, hi, he⟩ := Option.map_eq_some_iff.mp he
  rw [toOption_eq_some] at hi
  obtain ⟨hn, hf⟩ := Prod.mk.inj he
  obtain ⟨text, hr, hc, -, -, -, -, hs⟩ := resources_listing hi
  refine ⟨image, text, hi, hn, hr, ?_, hs.trans hf⟩
  have hl := congrArg List.length (image.resources.root.depths_preorder 0)
  rw [List.length_map, Level.length_preorder, hf] at hl
  exact hc.trans hl

end PeCoff.Report
