/-!
# Taking text apart again

Text that is put together from parts can be taken apart if each part can be told
from what may follow it. This is said of two values at a time: where their texts,
each with something behind it, are the same, so are the values and what is behind.
-/

namespace PeCoff

/-- Two values whose texts, in front of what may follow, are never the same unless the
values and what follows are. -/
def Cancels (Follows : List Char → Prop) (print : α → List Char) (a b : α) : Prop :=
  ∀ rest rest', Follows rest → Follows rest' → print a ++ rest = print b ++ rest' →
    a = b ∧ rest = rest'

namespace Cancels

theorem prepend {Follows : List Char → Prop} {print : α → List Char} {a b : α}
    (front : List Char) (h : Cancels Follows print a b) :
    Cancels Follows (fun item => front ++ print item) a b := by
  intro rest rest' hr hr' he
  simp only [List.append_assoc] at he
  exact h rest rest' hr hr' (List.append_cancel_left he)

theorem run {p : Char → Bool} {first second rest rest' : List Char}
    (hf : ∀ c ∈ first, p c = true) (hs : ∀ c ∈ second, p c = true)
    (hr : ∀ c ∈ rest.head?, p c = false) (hr' : ∀ c ∈ rest'.head?, p c = false)
    (h : first ++ rest = second ++ rest') : first = second ∧ rest = rest' := by
  have ends {rest : List Char} (hr : ∀ c ∈ rest.head?, p c = false) :
      rest.takeWhile p = [] := by
    cases rest with
    | nil => rfl
    | cons c rest => rw [List.takeWhile_cons_of_neg (by simp [hr c rfl])]
  have hk := congrArg (List.takeWhile p) h
  rw [List.takeWhile_append_of_pos hf, List.takeWhile_append_of_pos hs, ends hr, ends hr',
    List.append_nil, List.append_nil] at hk
  subst hk
  exact ⟨rfl, List.append_cancel_left h⟩

/-- Items that can be told apart in front of a separator and of an ending can be told apart
in a row, separator and ending not being confused. -/
theorem intercalate {Follows Ends : List Char → Prop} {print : α → List Char}
    {separator : List Char} (hs : ∀ rest, Follows (separator ++ rest))
    (he : ∀ rest, Ends rest → Follows rest)
    (hn : ∀ rest rest', Ends rest → rest ≠ separator ++ rest') {rest rest' : List Char}
    (hr : Ends rest) (hr' : Ends rest') :
    {items items' : List α} →
    (∀ a ∈ items, ∀ b ∈ items', Cancels Follows print a b) → items ≠ [] → items' ≠ [] →
    separator.intercalate (items.map print) ++ rest =
      separator.intercalate (items'.map print) ++ rest' →
    items = items' ∧ rest = rest'
  | [a], [b], hc, _, _, h => by
    simp only [List.map_cons, List.map_nil, List.intercalate_singleton] at h
    obtain ⟨rfl, ht⟩ := hc a (by simp) b (by simp) rest rest' (he _ hr) (he _ hr') h
    exact ⟨rfl, ht⟩
  | [a], b :: c :: more, hc, _, _, h => by
    simp only [List.map_cons, List.map_nil, List.intercalate_singleton,
      List.intercalate_cons_cons, List.append_assoc] at h
    obtain ⟨-, ht⟩ := hc a (by simp) b (by simp) rest _ (he _ hr) (hs _) h
    exact absurd ht (hn _ _ hr)
  | a :: c :: more, [b], hc, _, _, h => by
    simp only [List.map_cons, List.map_nil, List.intercalate_singleton,
      List.intercalate_cons_cons, List.append_assoc] at h
    obtain ⟨-, ht⟩ := hc a (by simp) b (by simp) _ rest' (hs _) (he _ hr') h
    exact absurd ht.symm (hn _ _ hr')
  | a :: c :: more, b :: d :: more', hc, _, _, h => by
    simp only [List.map_cons, List.intercalate_cons_cons, List.append_assoc] at h
    obtain ⟨rfl, ht⟩ := hc a (by simp) b (by simp) _ _ (hs _) (hs _) h
    have hm : ∀ a ∈ c :: more, ∀ b ∈ d :: more', Cancels Follows print a b :=
      fun a ha b hb => hc a (List.mem_cons_of_mem _ ha) b (List.mem_cons_of_mem _ hb)
    obtain ⟨hi, ht⟩ := intercalate hs he hn hr hr' hm (List.cons_ne_nil _ _)
      (List.cons_ne_nil _ _) (List.append_cancel_left ht)
    exact ⟨congrArg (a :: ·) hi, ht⟩

end Cancels

end PeCoff
