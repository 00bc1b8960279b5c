import Mathlib.Algebra.GroupWithZero.Nat
import Mathlib.Algebra.Order.BigOperators.Group.List
import Mathlib.Algebra.Order.Group.Nat

/-!
# Lists that are appended to and changed in place

* `concat_eq_append_cons` — where an element of a list with one more at its end is.
* `filterMap_cons_toList` — a selection from a list, element by element.
* `intercalate_concat_nil` — lines that end in a separator, and lines between separators.
* `getElem?_concat_cases`, `getElem?_set_cases` — what a list has after one element is put at
  its end, or in another's place.
* `sum_map_set`, `le_sum_map` — sums over a list in which one element is replaced.
-/

namespace Lists

variable {α : Type}

/-- An element of a list with one more at its end is that one, or stands in the list. -/
theorem concat_eq_append_cons {l pre post : List α} {x y : α} (h : l ++ [x] = pre ++ y :: post) :
    (post = [] ∧ pre = l ∧ y = x) ∨ ∃ post', post = post' ++ [x] ∧ l = pre ++ y :: post' := by
  rcases List.eq_nil_or_concat post with rfl | ⟨post', z, rfl⟩
  · obtain ⟨hpre, hx⟩ := List.append_inj' h rfl
    exact .inl ⟨rfl, hpre.symm, (List.cons.inj hx).1.symm⟩
  · rw [List.concat_eq_append, ← List.cons_append, ← List.append_assoc] at h
    obtain ⟨hl, hx⟩ := List.append_inj' h rfl
    cases hx
    exact .inr ⟨post', List.concat_eq_append, hl⟩

/-- What a selection makes of the first element stands in front of the rest. -/
theorem filterMap_cons_toList {β : Type} (f : α → Option β) (x : α) (l : List α) :
    (x :: l).filterMap f = (f x).toList ++ l.filterMap f := by
  rw [List.filterMap_cons]
  cases f x <;> rfl

/-- Lines that each end in a separator stand between separators, with nothing behind the
last. -/
theorem intercalate_concat_nil (x : α) (ls : List (List α)) :
    [x].intercalate (ls ++ [[]]) = ls.flatMap (· ++ [x]) := by
  induction ls with
  | nil => rfl
  | cons l ls ih =>
      rw [List.flatMap_cons, ← ih]
      cases ls with
      | nil => exact List.intercalate_cons_cons
      | cons m ls => exact List.intercalate_cons_cons

/-- An element of a list with one more at its end is one of the list, in its place, or that
one. -/
theorem getElem?_concat_cases {l : List α} {j : Nat} {x y : α} (h : (l ++ [x])[j]? = some y) :
    l[j]? = some y ∨ j = l.length ∧ y = x := by
  rcases lt_or_ge j l.length with hlt | hge
  · rw [List.getElem?_append_left hlt] at h
    exact .inl h
  · have hj := (List.getElem?_eq_some_iff.1 h).1
    rw [List.length_append, List.length_singleton] at hj
    obtain rfl : j = l.length := by omega
    rw [List.getElem?_concat_length] at h
    exact .inr ⟨rfl, (Option.some.inj h).symm⟩

/-- An element of a list in which one is replaced is the new one, or stood there before. -/
theorem getElem?_set_cases {l : List α} {i j : Nat} {x y : α} (h : (l.set i x)[j]? = some y) :
    j = i ∧ y = x ∨ j ≠ i ∧ l[j]? = some y := by
  rw [List.getElem?_set] at h
  split at h
  · rename_i hij
    split at h
    · exact .inl ⟨hij.symm, (Option.some.inj h).symm⟩
    · cases h
  · rename_i hij
    exact .inr ⟨Ne.symm hij, h⟩

variable {g : α → Nat} {l : List α}

/-- One element is replaced by another. -/
theorem sum_map_set {i : Nat} {x : α} (y : α) (h : l[i]? = some x) :
    ((l.set i y).map g).sum + g x = (l.map g).sum + g y := by
  induction l generalizing i with
  | nil => cases h
  | cons z l ih =>
      cases i with
      | zero =>
          cases h
          simp only [List.set_cons_zero, List.map_cons, List.sum_cons]
          omega
      | succ i =>
          have hrest := ih h
          simp only [List.set_cons_succ, List.map_cons, List.sum_cons]
          omega

/-- A single element is at most the whole. -/
theorem le_sum_map {x : α} (h : x ∈ l) : g x ≤ (l.map g).sum :=
  List.single_le_sum (fun _ _ => Nat.zero_le _) _ (List.mem_map_of_mem h)

end Lists
