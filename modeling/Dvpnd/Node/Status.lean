import Dvpnd.Lib.Ticker

/-!
# Staying active on the chain

The chain deactivates a node whose last status update is older than its `status_timeout`.  The
node sends updates from a loop that waits for a ticker (`jobUpdateStatus`, `node/jobs.go`), with
an interval that `start` lowers to 80% of the timeout (`cmd/start.go`).

`jobUpdateSessions` is such a loop too, but nothing of this is true of it: a pass that finds a
session idle reports nothing, and the chain is meant to let that session expire.

* `lowerInterval` — the interval the node runs with.
* `jobUpdateStatus` — the updates of a run of the loop.
* `updates_outlast` — **the chain never sees an update that is too old**: the fifth that is left
  is enough for passes that take their time, and a shorter interval makes up for passes that
  fail.
-/

namespace Dvpnd

open Ticker

/-- The interval that was configured, or 80% of the chain's timeout if that is less. -/
def lowerInterval (configured statusTimeout : Nat) : Nat :=
  let limit := statusTimeout * 4 / 5
  if 0 < limit ∧ limit < configured then limit else configured

/-- `jobUpdateStatus`: the first pass runs at once, and of one that fails the error is logged.
The times of the updates are those of their blocks. -/
def jobUpdateStatus (interval : Nat) (passes : List Pass) : List Nat := effects interval 0 passes

/-- The chain has an update that is not older than the timeout. -/
def activeAt (statusTimeout : Nat) (updates : List Nat) (t : Nat) : Bool :=
  updates.any fun u => u ≤ t && t ≤ u + statusTimeout

/-- Passes that take a fifth of the timeout fit into what the interval leaves. -/
theorem lowerInterval_room {configured statusTimeout longest : Nat} (htimeout : 2 ≤ statusTimeout)
    (hlongest : 5 * longest ≤ statusTimeout) :
    max (lowerInterval configured statusTimeout) longest + longest ≤ statusTimeout := by
  have hlower : lowerInterval configured statusTimeout ≤ statusTimeout * 4 / 5 := by
    simp only [lowerInterval]
    split <;> omega
  have hmax : max (lowerInterval configured statusTimeout) longest ≤ statusTimeout * 4 / 5 :=
    Nat.max_le.2 ⟨hlower, by omega⟩
  omega

/-- **Once the first update is on the chain, none is ever too old**, whatever interval was
configured and however long the passes take, up to a fifth of the timeout: if no pass fails, or
if the interval leaves room for the passes that may fail in a row. -/
theorem updates_outlast (configured statusTimeout longest f : Nat) (htimeout : 2 ≤ statusTimeout)
    (hlongest : 5 * longest ≤ statusTimeout)
    (hroom : f = 0 ∨
      (f + 1) * max (lowerInterval configured statusTimeout) longest + longest ≤ statusTimeout)
    (passes : List Pass) (hpasses : ∀ p ∈ passes, p.duration ≤ longest)
    (hsteady : Steady f f passes) (first last t : Nat)
    (hfirst : (jobUpdateStatus (lowerInterval configured statusTimeout) passes).head? = some first)
    (hlast : last ∈ jobUpdateStatus (lowerInterval configured statusTimeout) passes)
    (hafter : first ≤ t) (hbefore : t ≤ last) :
    activeAt statusTimeout (jobUpdateStatus (lowerInterval configured statusTimeout) passes) t =
      true := by
  have hgap : (f + 1) * max (lowerInterval configured statusTimeout) longest + longest ≤
      statusTimeout := by
    obtain rfl | hroom := hroom
    · rw [Nat.zero_add, Nat.one_mul]
      exact lowerInterval_room htimeout hlongest
    · exact hroom
  have hchain : List.IsChain _ (jobUpdateStatus (lowerInterval configured statusTimeout) passes) :=
    isChain_effects_of_steady hpasses hsteady le_rfl
  obtain ⟨us, hus⟩ := List.head?_eq_some_iff.1 hfirst
  rw [hus] at hchain hlast
  obtain ⟨w, hw, hle, hold⟩ := covered_of_isChain hchain hafter hlast hbefore
  rw [activeAt, hus, List.any_eq_true]
  refine ⟨w, hw, ?_⟩
  rw [Bool.and_eq_true]
  exact ⟨decide_eq_true hle, decide_eq_true (by omega)⟩

/-- An hour's passes: one in time, one that fails, and one in time again. -/
def failsOnce : List Pass :=
  [⟨600, some 300, by simp⟩, ⟨600, none, by simp⟩, ⟨600, some 600, by simp⟩]

theorem updates_outlast_failsOnce :
    jobUpdateStatus (lowerInterval 1200 3600) failsOnce = [300, 3000] ∧
      activeAt 3600 (jobUpdateStatus (lowerInterval 1200 3600) failsOnce) 2900 = true :=
  ⟨rfl, updates_outlast 1200 3600 600 1 (by decide) (by decide) (.inr (by decide)) failsOnce
    (by decide) (by simp [Steady, failsOnce]) 300 3000 2900 rfl (by decide) (by decide) (by decide)⟩

end Dvpnd
