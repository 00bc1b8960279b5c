import Mathlib.Data.List.Chain

/-!
# Loops that wait for a ticker

A ticker fires at every multiple of its interval and keeps one tick for a reader that is late.
A loop that runs a pass and then reads the ticker starts its next pass at the first tick since
its last start, or as soon as the pass is over if that tick is already waiting.

* `nextStart`, `effects` — the starts of passes, and when their effects are there.
* `Steady` — how many passes in a row may fail.
* `isChain_effects` — **the time between two effects is bounded** by the interval, the longest
  pass and the passes that fail in between.
-/

namespace Ticker

/-- A pass: how long it takes and, if it succeeds, when its effect is there. -/
structure Pass where
  duration : Nat
  effect : Option Nat
  inside : ∀ d, effect = some d → d ≤ duration

/-- The first tick after a start. -/
def nextTick (interval start : Nat) : Nat := (start / interval + 1) * interval

/-- When the pass after this one starts. -/
def nextStart (interval start duration : Nat) : Nat :=
  max (start + duration) (nextTick interval start)

/-- The times of the effects of passes, the first of which starts at `start`. -/
def effects (interval : Nat) : Nat → List Pass → List Nat
  | _, [] => []
  | start, p :: ps =>
    (p.effect.map (start + ·)).toList ++ effects interval (nextStart interval start p.duration) ps

/-- At most `f` passes in a row fail; `left` of them may still fail before the next success. -/
def Steady (f : Nat) : Nat → List Pass → Prop
  | _, [] => True
  | left, p :: ps =>
    if p.effect.isSome then Steady f f ps else 0 < left ∧ Steady f (left - 1) ps

/-- A tick comes at most an interval later. -/
theorem nextTick_le (interval start : Nat) : nextTick interval start ≤ start + interval := by
  rw [nextTick, Nat.add_mul, Nat.one_mul]
  exact Nat.add_le_add_right (Nat.div_mul_le_self start interval) interval

section Bound

variable {interval start longest : Nat} {p : Pass} {ps : List Pass}

theorem nextStart_le (hp : p.duration ≤ longest) :
    nextStart interval start p.duration ≤ start + max interval longest := by
  have htick := nextTick_le interval start
  have hmax := Nat.le_max_left interval longest
  have hlong := Nat.le_max_right interval longest
  exact Nat.max_le.2 ⟨by omega, by omega⟩

theorem start_le_nextStart : start + p.duration ≤ nextStart interval start p.duration :=
  Nat.le_max_left _ _

theorem effects_of_some {d : Nat} (hd : p.effect = some d) : effects interval start (p :: ps) =
    (start + d) :: effects interval (nextStart interval start p.duration) ps := by
  rw [effects, hd]
  rfl

theorem effects_of_none (hd : p.effect = none) : effects interval start (p :: ps) =
    effects interval (nextStart interval start p.duration) ps := by
  rw [effects, hd]
  rfl

theorem Steady.of_some {f left d : Nat} (h : Steady f left (p :: ps)) (hd : p.effect = some d) :
    Steady f f ps := by
  simpa [Steady, hd] using h

theorem Steady.of_none {f left : Nat} (h : Steady f left (p :: ps)) (hd : p.effect = none) :
    0 < left ∧ Steady f (left - 1) ps := by
  simpa [Steady, hd] using h

/-- The passes after an effect at `last`: `left` of the `f` failures are still allowed, and each
one so far has put the start off by at most the longest step of the loop. -/
theorem isChain_effects {f : Nat} : ∀ {ps : List Pass} {start last left : Nat},
    (∀ p ∈ ps, p.duration ≤ longest) → Steady f left ps → left ≤ f → last ≤ start →
      start ≤ last + (f - left + 1) * max interval longest →
        List.IsChain (fun u v => u ≤ v ∧ v ≤ u + ((f + 1) * max interval longest + longest))
          (last :: effects interval start ps) := by
  intro ps
  induction ps with
  | nil => exact fun _ _ _ _ _ => List.isChain_singleton _
  | cons p ps ih =>
    intro start last left hlong hsteady hleft hlast hstart
    have hp := hlong p List.mem_cons_self
    have hrest : ∀ q ∈ ps, q.duration ≤ longest := fun q hq => hlong q (List.mem_cons_of_mem _ hq)
    have hafter : start + p.duration ≤ nextStart interval start p.duration := start_le_nextStart
    have hnext : nextStart interval start p.duration ≤ start + max interval longest :=
      nextStart_le hp
    cases heffect : p.effect with
    | some d =>
      have hd := p.inside d heffect
      have hsteady' := hsteady.of_some heffect
      rw [effects_of_some heffect, List.isChain_cons_cons]
      -- the failures that were left are used up at worst
      have hgap : (f - left + 1) * max interval longest ≤ (f + 1) * max interval longest :=
        Nat.mul_le_mul_right _ (by omega)
      refine ⟨⟨by omega, by omega⟩, ih hrest hsteady' le_rfl (by omega) ?_⟩
      rw [Nat.sub_self, Nat.zero_add, Nat.one_mul]
      omega
    | none =>
      obtain ⟨hpos, hsteady'⟩ := hsteady.of_none heffect
      rw [effects_of_none heffect]
      refine ih hrest hsteady' (by omega) (by omega) ?_
      have hone : f - (left - 1) + 1 = (f - left + 1) + 1 := by omega
      rw [hone, Nat.add_mul, Nat.one_mul]
      omega

/-- Before the first effect nothing is bounded; from it on every gap is. -/
theorem isChain_effects_of_steady {f : Nat} : ∀ {ps : List Pass} {start left : Nat},
    (∀ p ∈ ps, p.duration ≤ longest) → Steady f left ps → left ≤ f →
      List.IsChain (fun u v => u ≤ v ∧ v ≤ u + ((f + 1) * max interval longest + longest))
        (effects interval start ps) := by
  intro ps
  induction ps with
  | nil => exact fun _ _ _ => List.isChain_nil
  | cons p ps ih =>
    intro start left hlong hsteady hleft
    have hrest : ∀ q ∈ ps, q.duration ≤ longest := fun q hq => hlong q (List.mem_cons_of_mem _ hq)
    have hafter : start + p.duration ≤ nextStart interval start p.duration := start_le_nextStart
    have hnext : nextStart interval start p.duration ≤ start + max interval longest :=
      nextStart_le (hlong p List.mem_cons_self)
    cases heffect : p.effect with
    | some d =>
      have hd := p.inside d heffect
      have hsteady' := hsteady.of_some heffect
      rw [effects_of_some heffect]
      refine isChain_effects hrest hsteady' le_rfl (by omega) ?_
      rw [Nat.sub_self, Nat.zero_add, Nat.one_mul]
      omega
    | none =>
      obtain ⟨hpos, hsteady'⟩ := hsteady.of_none heffect
      rw [effects_of_none heffect]
      exact ih hrest hsteady' (by omega)

end Bound

/-- Times with bounded gaps reach from the first to any other of them. -/
theorem covered_of_isChain {gap : Nat} : ∀ {us : List Nat} {u t v : Nat},
    List.IsChain (fun u v => u ≤ v ∧ v ≤ u + gap) (u :: us) → u ≤ t → v ∈ u :: us → t ≤ v →
      ∃ w ∈ u :: us, w ≤ t ∧ t ≤ w + gap := by
  intro us
  induction us with
  | nil =>
    intro u t v _ hu hv ht
    rw [List.mem_singleton.1 hv] at ht
    exact ⟨u, List.mem_cons_self, hu, ht.trans (Nat.le_add_right _ _)⟩
  | cons u' us ih =>
    intro u t v hchain hu hv ht
    rw [List.isChain_cons_cons] at hchain
    obtain ⟨⟨-, hgap⟩, hrest⟩ := hchain
    by_cases hu' : u' ≤ t
    · obtain rfl | hv := List.mem_cons.1 hv
      · exact ⟨v, List.mem_cons_self, hu, ht.trans (Nat.le_add_right _ _)⟩
      · obtain ⟨w, hw, hle⟩ := ih hrest hu' hv ht
        exact ⟨w, List.mem_cons_of_mem _ hw, hle⟩
    · exact ⟨u, List.mem_cons_self, hu, by omega⟩

end Ticker
