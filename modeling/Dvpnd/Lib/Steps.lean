import Mathlib.Tactic.Common

/-!
# Systems that take one step after another

A system is given by a function that says where each action leads, and `none`
where it cannot be taken.

* `Reach` — the states reached by actions that all meet a condition.
* `Reach.invariant` — **the invariant rule**: what holds at the start and is kept by
  each such action holds in every state reached.
* `runs`, `Reach.of_runs` — a list of actions, checked and carried out, reaches the
  state it ends in; `exists_reach` — what a test says about that state.
-/

namespace Steps

variable {σ α : Type} {step : σ → α → Option σ} {ok : σ → α → Prop} {s₀ s : σ}

/-- The states that are reached from `s₀`. -/
inductive Reach (step : σ → α → Option σ) (ok : σ → α → Prop) (s₀ : σ) : σ → Prop where
  | start : Reach step ok s₀ s₀
  | next {s s' : σ} {a : α} : Reach step ok s₀ s → ok s a → step s a = some s' →
      Reach step ok s₀ s'

/-- The invariant rule. -/
theorem Reach.invariant {I : σ → Prop} (h₀ : I s₀)
    (hstep : ∀ {s a s'}, I s → ok s a → step s a = some s' → I s') (h : Reach step ok s₀ s) :
    I s := by
  induction h with
  | start => exact h₀
  | next _ hok hs ih => exact hstep ih hok hs

/-- Take the actions in turn; `none` as soon as one does not meet the condition or
cannot be taken. -/
def runs (step : σ → α → Option σ) (ok : σ → α → Prop) [∀ s a, Decidable (ok s a)] (s : σ) :
    List α → Option σ
  | [] => some s
  | a :: as => if ok s a then (step s a).bind fun s' => runs step ok s' as else none

theorem Reach.of_runs [∀ s a, Decidable (ok s a)] {as : List α} {s' : σ}
    (h : Reach step ok s₀ s) (hruns : runs step ok s as = some s') : Reach step ok s₀ s' := by
  induction as generalizing s with
  | nil => cases hruns; exact h
  | cons a as ih =>
      rw [runs] at hruns
      split at hruns
      · rename_i hok
        obtain ⟨t, ht, hrest⟩ := Option.bind_eq_some_iff.1 hruns
        exact ih (h.next hok ht) hrest
      · cases hruns

theorem exists_reach (step : σ → α → Option σ) (ok : σ → α → Prop) [∀ s a, Decidable (ok s a)]
    (s₀ : σ) (as : List α) (p : σ → Bool)
    (h : (runs step ok s₀ as).map p = some true) : ∃ s, Reach step ok s₀ s ∧ p s = true := by
  obtain ⟨s, hruns, hp⟩ := Option.map_eq_some_iff.1 h
  exact ⟨s, Reach.start.of_runs hruns, hp⟩

end Steps
