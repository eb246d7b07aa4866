import Mathlib.Data.List.Sort
import YapAssist.Sorting

/-!
# Stable sorting

Sorting by a comparison that is total and transitive puts a list in order, and the elements of each
class that the comparison does not tell apart keep theirs:

* `pairwise_sortBy`, the sorted list ascends;
* `sortBy_map`, the elements may be changed as long as they compare the same;
* `filter_sortBy`, elements that compare equal keep their order;
* `sortBy_eq_of_perm`, without such elements the order of the given list does not matter.
-/

namespace YapAssist

variable {α : Type} {le : α → α → Bool}

theorem sortBy_eq_insertionSort (xs : List α) :
    sortBy le xs = xs.insertionSort (fun a b => le a b = true) := by
  have hinsert : ∀ (x : α) (ys : List α),
      insertBy le x ys = ys.orderedInsert (fun a b => le a b = true) x := by
    intro x ys
    induction ys with
    | nil => rfl
    | cons y ys ih => rw [insertBy, List.orderedInsert_cons, ih]
  induction xs with
  | nil => rfl
  | cons x xs ih =>
    show insertBy le x (sortBy le xs) = _
    rw [ih, hinsert, List.insertionSort_cons]

theorem pairwise_sortBy (htotal : ∀ a b, le a b = true ∨ le b a = true)
    (htrans : ∀ a b c, le a b = true → le b c = true → le a c = true) (xs : List α) :
    (sortBy le xs).Pairwise fun a b => le a b = true := by
  have : Std.Total fun a b => le a b = true := ⟨htotal⟩
  have : IsTrans α fun a b => le a b = true := ⟨htrans⟩
  rw [sortBy_eq_insertionSort]
  exact List.pairwise_insertionSort _ xs

/-- Sorting what was made of each element by the same comparison. -/
theorem sortBy_map {β : Type} {le' : β → β → Bool} {f : α → β}
    (hf : ∀ a b, le' (f a) (f b) = le a b) (xs : List α) :
    sortBy le' (xs.map f) = (sortBy le xs).map f := by
  have hinsert : ∀ (x : α) (ys : List α),
      insertBy le' (f x) (ys.map f) = (insertBy le x ys).map f := by
    intro x ys
    induction ys with
    | nil => rfl
    | cons y ys ih =>
      rw [List.map_cons, insertBy, insertBy, hf, ih]
      cases le x y <;> rfl
  induction xs with
  | nil => rfl
  | cons x xs ih =>
    show insertBy le' (f x) (sortBy le' (xs.map f)) = (insertBy le x (sortBy le xs)).map f
    rw [ih, hinsert]

/-- Elements that compare equal keep their order. -/
theorem filter_sortBy {p : α → Bool} (hp : ∀ a b, p a = true → p b = true → le a b = true)
    (xs : List α) : (sortBy le xs).filter p = xs.filter p := by
  have hequal : (xs.filter p).Pairwise fun a b => le a b = true := by
    apply List.pairwise_of_forall_mem_list
    intro a ha b hb
    exact hp a b (List.mem_filter.1 ha).2 (List.mem_filter.1 hb).2
  -- the class is still found in order, and nothing else of it is there
  have hsub : (xs.filter p).Sublist ((sortBy le xs).filter p) := by
    have hkept := List.sublist_insertionSort hequal List.filter_sublist
    rw [← sortBy_eq_insertionSort] at hkept
    have hclass := hkept.filter p
    simp only [List.filter_filter, Bool.and_self] at hclass
    exact hclass
  have hlength := ((sortBy_perm le xs).filter p).length_eq
  exact (hsub.eq_of_length hlength.symm).symm

/-- Where no two elements compare equal, the sorted list depends on the elements only. -/
theorem sortBy_eq_of_perm (htotal : ∀ a b, le a b = true ∨ le b a = true)
    (htrans : ∀ a b c, le a b = true → le b c = true → le a c = true) {xs ys : List α}
    (hperm : xs.Perm ys)
    (hanti : ∀ a b, a ∈ xs → b ∈ xs → le a b = true → le b a = true → a = b) :
    sortBy le xs = sortBy le ys := by
  have hsorted : (sortBy le xs).Perm (sortBy le ys) :=
    (sortBy_perm le xs).trans (hperm.trans (sortBy_perm le ys).symm)
  apply hsorted.eq_of_pairwise _ (pairwise_sortBy htotal htrans xs)
    (pairwise_sortBy htotal htrans ys)
  intro a b ha hb
  have hb' := hsorted.mem_iff.2 hb
  exact hanti a b ((sortBy_perm le xs).mem_iff.1 ha) ((sortBy_perm le xs).mem_iff.1 hb')

end YapAssist
