/-
# Stable sorting

A list is sorted by putting its elements one by one, from the last to the first, in front of the
first that is not less. Elements that are equal in the order keep their order in the list.

Key definition: `sortBy`.
Key theorems: `sortBy_perm`, `sortBy_pairwise`, `sortBy_of_pairwise`.
-/

namespace Formulary

variable {α : Type}

/-- Puts an element in front of the first that is not less. -/
def insertBy (le : α → α → Bool) (a : α) : List α → List α
  | [] => [a]
  | b :: rest => if le a b then a :: b :: rest else b :: insertBy le a rest

/-- The list in increasing order. -/
def sortBy (le : α → α → Bool) : List α → List α
  | [] => []
  | a :: rest => insertBy le a (sortBy le rest)

theorem insertBy_perm (le : α → α → Bool) (a : α) (l : List α) :
    (insertBy le a l).Perm (a :: l) := by
  induction l with
  | nil => exact List.Perm.refl _
  | cons b rest ih =>
    unfold insertBy
    split
    · exact List.Perm.refl _
    · exact (ih.cons b).trans (List.Perm.swap a b rest)

/-- Sorting loses no element and adds none. -/
theorem sortBy_perm (le : α → α → Bool) (l : List α) : (sortBy le l).Perm l := by
  induction l with
  | nil => exact List.Perm.refl _
  | cons a rest ih => exact (insertBy_perm le a _).trans (ih.cons a)

theorem insertBy_pairwise {le : α → α → Bool} (total : ∀ a b, le a b || le b a)
    (trans : ∀ a b c, le a b → le b c → le a c) (a : α) {l : List α}
    (h : l.Pairwise fun x y => le x y) : (insertBy le a l).Pairwise fun x y => le x y := by
  induction l with
  | nil => exact List.pairwise_singleton _ _
  | cons b rest ih =>
    obtain ⟨hb, hrest⟩ := List.pairwise_cons.mp h
    unfold insertBy
    split
    · next hab =>
      refine List.pairwise_cons.mpr ⟨fun x hx => ?_, h⟩
      rcases List.mem_cons.mp hx with rfl | hx
      · exact hab
      · exact trans a b x hab (hb x hx)
    · next hab =>
      refine List.pairwise_cons.mpr ⟨fun x hx => ?_, ih hrest⟩
      rcases List.mem_cons.mp ((insertBy_perm le a rest).mem_iff.mp hx) with rfl | hx
      · have := total x b
        simp_all
      · exact hb x hx

/-- The sorted list is in increasing order. -/
theorem sortBy_pairwise {le : α → α → Bool} (total : ∀ a b, le a b || le b a)
    (trans : ∀ a b c, le a b → le b c → le a c) (l : List α) :
    (sortBy le l).Pairwise fun x y => le x y := by
  induction l with
  | nil => exact List.Pairwise.nil
  | cons a rest ih => exact insertBy_pairwise total trans a ih

theorem insertBy_of_le {le : α → α → Bool} {a : α} {l : List α} (h : ∀ b ∈ l, le a b) :
    insertBy le a l = a :: l := by
  cases l with
  | nil => rfl
  | cons b rest => rw [insertBy, if_pos (h b List.mem_cons_self)]

/-- A list that is in increasing order stays as it is. -/
theorem sortBy_of_pairwise {le : α → α → Bool} {l : List α} (h : l.Pairwise fun x y => le x y) :
    sortBy le l = l := by
  induction l with
  | nil => rfl
  | cons a rest ih =>
    obtain ⟨ha, hrest⟩ := List.pairwise_cons.mp h
    rw [sortBy, ih hrest, insertBy_of_le ha]

end Formulary
