import Mathlib.Data.List.Basic
import Mathlib.Tactic.Common

/-!
# Lists of rules of which the first that matches decides

A **rule** has a condition and a verdict.  A list of them gives a thing the verdict of the
first rule whose condition it meets, or none.

* `FirstMatch.verdict` — the verdict of a list.
* `verdict_append` — the lists after the first count only where that has no verdict.
* `verdict_block` — a list whose rules all have one verdict decides by whether any of them
  matches; lists are taken apart into such blocks.
-/

namespace FirstMatch

variable {ρ α ν : Type} (holds : ρ → α → Bool) (target : ρ → ν)

/-- The verdict of the first rule that matches. -/
def verdict : List ρ → α → Option ν
  | [], _ => none
  | r :: rules, x => if holds r x then some (target r) else verdict rules x

variable {holds target}

theorem verdict_append (rules rules' : List ρ) (x : α) :
    verdict holds target (rules ++ rules') x =
      (verdict holds target rules x).or (verdict holds target rules' x) := by
  induction rules with
  | nil => rfl
  | cons r rules ih =>
      rw [List.cons_append, verdict, verdict]
      split
      · rfl
      · exact ih

/-- **A block of rules with one verdict.** -/
theorem verdict_block {rules : List ρ} {v : ν} (h : ∀ r ∈ rules, target r = v) (x : α) :
    verdict holds target rules x = if ∃ r ∈ rules, holds r x = true then some v else none := by
  induction rules with
  | nil => simp [verdict]
  | cons r rules ih =>
      rw [verdict, ih fun r hr => h r (List.mem_cons_of_mem _ hr), h r List.mem_cons_self]
      by_cases hr : holds r x = true
      · simp [hr]
      · simp [hr]

end FirstMatch
