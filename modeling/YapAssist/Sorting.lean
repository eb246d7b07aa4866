/-!
# Stable sorting

Insertion sort by a comparison. Elements that compare equal keep their order, so a sorted list
says in one stroke which element comes first and how ties are broken.

Main statement: `sortBy_perm`, sorting only rearranges.
-/

namespace YapAssist

/-- `x` put in front of the first element that it does not come after. -/
def insertBy {α : Type} (le : α → α → Bool) (x : α) : List α → List α
  | [] => [x]
  | y :: rest => if le x y then x :: y :: rest else y :: insertBy le x rest

/-- A list in ascending order; elements that compare equal keep their order. -/
def sortBy {α : Type} (le : α → α → Bool) (xs : List α) : List α := xs.foldr (insertBy le) []

theorem insertBy_perm {α : Type} (le : α → α → Bool) (x : α) (xs : List α) :
    (insertBy le x xs).Perm (x :: xs) := by
  induction xs with
  | nil => exact List.Perm.refl _
  | cons y xs ih =>
    rw [insertBy]
    split
    · exact List.Perm.refl _
    · exact (ih.cons y).trans (List.Perm.swap x y xs)

/-- Sorting only rearranges. -/
theorem sortBy_perm {α : Type} (le : α → α → Bool) (xs : List α) : (sortBy le xs).Perm xs := by
  induction xs with
  | nil => exact List.Perm.refl _
  | cons x xs ih => exact (insertBy_perm le x _).trans (ih.cons x)

end YapAssist
