import Mathlib.Data.List.Basic

/-!
# Generators over recorded draws

A program that draws at random, as a function of the answers its source of randomness gives.
A statement about every outcome is one about every list of answers.

* `int`, `block` — a number below a bound, and a block of bytes of a given length.
* `repeatUntil` — a loop that may draw in each round, cut off after as many as its fuel.
* `Gives` — what holds of every result, with a rule for each way to build a generator; the rule
  for the loop is that of an invariant.
-/

namespace Draws

/-- One answer of the source. -/
inductive Draw where
  | int (n : Nat)
  | block (b : List UInt8)

/-- A generator takes its answers from the front.  It has no result on answers that end too
early or that are none to what it asked. -/
abbrev Gen (α : Type) := StateT (List Draw) Option α

variable {α β σ : Type}

/-- A number below the bound. -/
def int (bound : Nat) : Gen Nat := fun draws =>
  match draws with
  | .int n :: rest => if n < bound then some (n, rest) else none
  | _ => none

/-- A block of that many bytes. -/
def block (size : Nat) : Gen (List UInt8) := fun draws =>
  match draws with
  | .block b :: rest => if b.length = size then some (b, rest) else none
  | _ => none

/-- A loop: each round goes on from a state or ends with a result. -/
def repeatUntil (body : σ → Gen (σ ⊕ α)) : Nat → σ → Gen α
  | 0, _ => failure
  | fuel + 1, s => do
      match ← body s with
      | .inl s => repeatUntil body fuel s
      | .inr a => pure a

/-- What holds of every result. -/
def Gives (g : Gen α) (Q : α → Prop) : Prop :=
  ∀ draws a rest, g.run draws = some (a, rest) → Q a

theorem gives_pure {a : α} {Q : α → Prop} (h : Q a) : Gives (pure a) Q := by
  intro draws b rest hrun
  cases hrun
  exact h

theorem gives_failure {Q : α → Prop} : Gives failure Q := by
  intro draws a rest hrun
  cases hrun

theorem Gives.bind {g : Gen α} {f : α → Gen β} {P : α → Prop} {Q : β → Prop} (hg : Gives g P)
    (hf : ∀ a, P a → Gives (f a) Q) : Gives (g >>= f) Q := by
  intro draws b rest hrun
  rw [StateT.run_bind] at hrun
  obtain ⟨⟨a, mid⟩, hfirst, hsecond⟩ := Option.bind_eq_some_iff.1 hrun
  exact hf a (hg draws a mid hfirst) mid b rest hsecond

theorem gives_int (bound : Nat) : Gives (int bound) (· < bound) := by
  intro draws n rest hrun
  simp only [StateT.run, int] at hrun
  split at hrun
  · split at hrun
    · cases hrun
      assumption
    · cases hrun
  · cases hrun

theorem gives_block (size : Nat) : Gives (block size) (·.length = size) := by
  intro draws b rest hrun
  simp only [StateT.run, block] at hrun
  split at hrun
  · split at hrun
    · cases hrun
      assumption
    · cases hrun
  · cases hrun

/-- **The rule of the loop.**  What each round keeps and ends with holds of what the loop ends
with, however often it goes round. -/
theorem gives_repeatUntil {body : σ → Gen (σ ⊕ α)} {I : σ → Prop} {Q : α → Prop}
    (hbody : ∀ s, I s → Gives (body s) (Sum.elim I Q)) (fuel : Nat) {s : σ} (hs : I s) :
    Gives (repeatUntil body fuel s) Q := by
  induction fuel generalizing s with
  | zero => exact gives_failure
  | succ fuel ih =>
      refine (hbody s hs).bind fun next hnext => ?_
      cases next with
      | inl s' => exact ih hnext
      | inr a => exact gives_pure hnext

end Draws
