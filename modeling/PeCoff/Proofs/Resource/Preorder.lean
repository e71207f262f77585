import PeCoff.Proofs.Resource.Unfolding

/-!
# Resource trees in preorder

A tree written down as one list, an entry in front of what it leads to, each with
its depth. The list is as long as the tree has entries, and the depths in it are
enough to find the tree's shape again: read from behind, they say of every entry
which of those behind it are below it.
-/

namespace PeCoff

-- ---------------------------------------------------------------------------
-- Shapes
-- ---------------------------------------------------------------------------

inductive Forest where
  | nil
  | cons (below rest : Forest)
  deriving DecidableEq

namespace Forest

def append : Forest → Forest → Forest
  | nil, more => more
  | cons below rest, more => cons below (rest.append more)

@[simp] theorem append_nil (forest : Forest) : forest.append nil = forest := by
  induction forest with
  | nil => rfl
  | cons below rest _ ih => rw [append, ih]

def depths (depth : Nat) : Forest → List Nat
  | nil => []
  | cons below rest => depth :: (below.depths (depth + 1) ++ rest.depths depth)

/-- One more node in front of `pending`, which has for each depth the nodes that no node has
been put above yet. -/
def insert (depth : Nat) (pending : Nat → Forest) (place : Nat) : Forest :=
  if place < depth then pending place
  else if place = depth then cons (pending (depth + 1)) (pending depth)
  else nil

def ofDepths (depths : List Nat) : Forest :=
  depths.foldr insert (fun _ => nil) 0

/-- A forest is put in front of the nodes at its depth. Nothing deeper is left open, since
the nodes there are below one of its own. -/
theorem foldr_depths (forest : Forest) {depth : Nat} {pending : Nat → Forest}
    (h : ∀ place, depth < place → pending place = nil) :
    (forest.depths depth).foldr insert pending =
      fun place => if place = depth then forest.append (pending depth) else pending place := by
  induction forest generalizing depth pending with
  | nil =>
    funext place
    rw [depths, List.foldr_nil, append]
    split
    next hp => rw [hp]
    next => rfl
  | cons below rest ihb ihr =>
    have hn : pending (depth + 1) = nil := h (depth + 1) (Nat.lt_succ_self depth)
    rw [depths, List.foldr_cons, List.foldr_append, ihr h, ihb fun place hp => ?_]
    · funext place
      rcases Nat.lt_trichotomy place depth with hp | rfl | hp
      · have hd : place ≠ depth + 1 := by omega
        simp [insert, hp, hd, Nat.ne_of_lt hp]
      · simp [insert, append, hn]
      · simp [insert, Nat.lt_asymm hp, Nat.ne_of_gt hp, h place hp]
    · have hd : depth < place := Nat.lt_of_succ_lt hp
      simp [Nat.ne_of_gt hd, h place hd]

theorem ofDepths_depths (forest : Forest) : ofDepths (forest.depths 0) = forest := by
  rw [ofDepths, foldr_depths forest fun _ _ => rfl]
  exact append_nil forest

end Forest

-- ---------------------------------------------------------------------------
-- Trees
-- ---------------------------------------------------------------------------

namespace Resource

mutual
/-- The entries of a level and all below, each with its depth. -/
def Level.preorder (depth : Nat) : Level → List (Nat × Entry Level)
  | ⟨_, entries⟩ => preorderEntries depth entries
def preorderEntries (depth : Nat) : List (Entry Level) → List (Nat × Entry Level)
  | [] => []
  | ⟨key, link, label, child⟩ :: rest =>
    (depth, ⟨key, link, label, child⟩) ::
      (child.preorder (depth + 1) ++ preorderEntries depth rest)
def Child.preorder (depth : Nat) : Child Level → List (Nat × Entry Level)
  | .directory level => level.preorder depth
  | .data _ => []
end

mutual
def Level.shape : Level → Forest
  | ⟨_, entries⟩ => shapeEntries entries
def shapeEntries : List (Entry Level) → Forest
  | [] => .nil
  | ⟨_, _, _, child⟩ :: rest => .cons child.shape (shapeEntries rest)
def Child.shape : Child Level → Forest
  | .directory level => level.shape
  | .data _ => .nil
end

mutual
theorem Level.length_preorder (depth : Nat) :
    (level : Level) → (level.preorder depth).length = level.summary.entries
  | ⟨header, entries⟩ => by
    rw [Level.preorder, length_preorderEntries depth entries, summary_entries header entries]
theorem length_preorderEntries (depth : Nat) : (entries : List (Entry Level)) →
    (preorderEntries depth entries).length = entries.length + entriesBelow entries
  | [] => rfl
  | ⟨key, link, label, child⟩ :: rest => by
    rw [preorderEntries, List.length_cons, List.length_append, child.length_preorder (depth + 1),
      length_preorderEntries depth rest, List.length_cons, entriesBelow]
    dsimp only
    omega
theorem Child.length_preorder (depth : Nat) :
    (child : Child Level) → (child.preorder depth).length = child.entryCount
  | .directory level => level.length_preorder depth
  | .data _ => rfl
end

mutual
theorem Level.depths_preorder (depth : Nat) :
    (level : Level) → (level.preorder depth).map Prod.fst = level.shape.depths depth
  | ⟨_, entries⟩ => by rw [Level.preorder, Level.shape, depths_preorderEntries depth entries]
theorem depths_preorderEntries (depth : Nat) : (entries : List (Entry Level)) →
    (preorderEntries depth entries).map Prod.fst = (shapeEntries entries).depths depth
  | [] => rfl
  | ⟨key, link, label, child⟩ :: rest => by
    rw [preorderEntries, shapeEntries, Forest.depths, List.map_cons, List.map_append,
      child.depths_preorder (depth + 1), depths_preorderEntries depth rest]
theorem Child.depths_preorder (depth : Nat) :
    (child : Child Level) → (child.preorder depth).map Prod.fst = child.shape.depths depth
  | .directory level => level.depths_preorder depth
  | .data _ => rfl
end

-- ---------------------------------------------------------------------------
-- Trees of the bytes
-- ---------------------------------------------------------------------------

section

variable {headers : Headers} {bytes : ByteArray} {root : Nat}

mutual
theorem Unfolds.labelled {offset : UInt32} (depth : Nat) : (level : Level) →
    Unfolds headers bytes root offset level →
    ∀ place ∈ level.preorder depth, Labelled bytes root place.2.key place.2.label
  | ⟨_, entries⟩, .level _ _ _ hn hx => labelled_preorderEntries depth entries hn hx
theorem labelled_preorderEntries (depth : Nat) : (entries : List (Entry Level)) →
    (∀ entry ∈ entries, Labelled bytes root entry.key entry.label) →
    (∀ entry ∈ entries, LeadsTo headers bytes root entry.link entry.child) →
    ∀ place ∈ preorderEntries depth entries, Labelled bytes root place.2.key place.2.label
  | [], _, _ => fun _ hm => absurd hm List.not_mem_nil
  | ⟨key, link, label, child⟩ :: rest, hn, hx => by
    obtain ⟨hf, hn⟩ := List.forall_mem_cons.mp hn
    obtain ⟨hc, hx⟩ := List.forall_mem_cons.mp hx
    rw [preorderEntries, List.forall_mem_cons]
    refine ⟨hf, fun place hm => ?_⟩
    rcases List.mem_append.mp hm with hm | hm
    · exact hc.labelled (depth + 1) child place hm
    · exact labelled_preorderEntries depth rest hn hx place hm
theorem LeadsTo.labelled {link : Link} (depth : Nat) : (child : Child Level) →
    LeadsTo headers bytes root link child →
    ∀ place ∈ child.preorder depth, Labelled bytes root place.2.key place.2.label
  | .directory level, .directory hu => hu.labelled depth level
  | .data _, _ => fun _ hm => absurd hm List.not_mem_nil
end

end

end Resource

end PeCoff
