import Mathlib.Data.List.Dedup
import Mathlib.Data.List.Perm.Subperm
import Mathlib.Tactic.Common

/-!
# A chain as one of its accounts sees it

Every transaction of an account carries a sequence number, and the chain executes it only
while the account's own number is the same, which it then leaves behind.  A transaction the
chain has taken waits in a pool; a block may include it at any later time, the pool may
forget it, and the account may sign somewhere else.

* `Chain` — the chain as the account sees it; `Chain.Later` — it has only grown.
* `Chain.WF` — **a number that is in a block is used up**: it lies below the account's, and
  no two transactions in blocks share one.
* `Chain.Effective` — the transaction has been executed, or may still be; one that a block has
  refused never is again (`not_effective_of_failed`).
* `Later.executions_lt`, `Later.executions_le` — how many transactions are executed between two
  moments.
* `Event`, `Chain.evolve` — a chain that has these properties, whatever happens to it: only a
  transaction that is handed in becomes effective (`effective_of_evolve`, `effective_of_take`).
-/

namespace Ledger

variable {T : Type}

/-- The account's sequence number, the transactions waiting, and those in blocks, newest
first, each with whether it was executed. -/
structure Chain (T : Type) where
  sequence : Nat
  pool : List T
  blocks : List (T × Bool)

/-- What the chain does on its own. -/
inductive Event (T : Type) where
  /-- A block includes a waiting transaction, which is executed or fails. -/
  | included (t : T) (ok : Bool)
  /-- The pool forgets a transaction. -/
  | dropped (t : T)
  /-- A transaction the account signed somewhere else is included. -/
  | elsewhere

namespace Chain

/-- The transaction was executed. -/
def Executed (c : Chain T) (t : T) : Prop := (t, true) ∈ c.blocks

/-- How many transactions were executed. -/
def executions (c : Chain T) : Nat := (c.blocks.filter Prod.snd).length

/-- Hand a transaction in. -/
def take (c : Chain T) (t : T) : Chain T := { c with pool := t :: c.pool }

variable [DecidableEq T] (number : T → Nat)

/-- One event.  A block has no place for a transaction whose number is not the account's. -/
def apply (c : Chain T) : Event T → Chain T
  | .included t ok =>
      if t ∈ c.pool ∧ number t = c.sequence then
        { sequence := c.sequence + 1, pool := c.pool.erase t, blocks := (t, ok) :: c.blocks }
      else c
  | .dropped t => { c with pool := c.pool.filter (· ≠ t) }
  | .elsewhere => { c with sequence := c.sequence + 1 }

/-- Any number of events. -/
def evolve (c : Chain T) (events : List (Event T)) : Chain T := events.foldl (apply number) c

/-- The transaction has been executed, or waits with a number that is not used up. -/
def Effective (c : Chain T) (t : T) : Prop :=
  c.Executed t ∨ (t ∈ c.pool ∧ c.sequence ≤ number t)

/-- Numbers in blocks are used up, each by one transaction. -/
structure WF (c : Chain T) : Prop where
  below : ∀ b ∈ c.blocks, number b.1 < c.sequence
  once : (c.blocks.map fun b => number b.1).Nodup

/-- The chain has only grown. -/
structure Later (c c' : Chain T) : Prop where
  sequence : c.sequence ≤ c'.sequence
  blocks : c.blocks <:+ c'.blocks

omit [DecidableEq T] in
theorem Later.refl (c : Chain T) : Later c c := ⟨Nat.le_refl _, List.suffix_rfl⟩

omit [DecidableEq T] in
theorem Later.trans {a b c : Chain T} (hab : Later a b) (hbc : Later b c) : Later a c :=
  ⟨Nat.le_trans hab.sequence hbc.sequence, hab.blocks.trans hbc.blocks⟩

omit [DecidableEq T] in
theorem Later.executions {c c' : Chain T} (h : Later c c') : c.executions ≤ c'.executions :=
  (h.blocks.filter Prod.snd).length_le

/-! ## What events keep -/

variable {number} {c : Chain T}

theorem apply_later (e : Event T) : Later c (c.apply number e) := by
  cases e with
  | included t ok =>
      simp only [apply]
      split
      · exact ⟨Nat.le_succ _, List.suffix_cons _ _⟩
      · exact .refl c
  | dropped t => exact ⟨Nat.le_refl _, List.suffix_rfl⟩
  | elsewhere => exact ⟨Nat.le_succ _, List.suffix_rfl⟩

theorem WF.apply (h : WF number c) (e : Event T) : WF number (c.apply number e) := by
  cases e with
  | included t ok =>
      simp only [Chain.apply]
      split
      · rename_i hin
        refine ⟨?_, ?_⟩
        · intro b hb
          rcases List.mem_cons.1 hb with rfl | hb
          · exact hin.2 ▸ Nat.lt_succ_self _
          · exact Nat.lt_succ_of_lt (h.below b hb)
        · refine List.nodup_cons.2 ⟨?_, h.once⟩
          intro hmem
          obtain ⟨b, hb, hnum⟩ := List.mem_map.1 hmem
          have hlt : number b.1 < c.sequence := h.below b hb
          exact absurd (hnum.trans hin.2) (Nat.ne_of_lt hlt)
      · exact h
  | dropped t => exact ⟨h.below, h.once⟩
  | elsewhere => exact ⟨fun b hb => Nat.lt_succ_of_lt (h.below b hb), h.once⟩

/-- **No event makes a transaction effective that was not.** -/
theorem effective_of_apply (e : Event T) {t : T} (h : (c.apply number e).Effective number t) :
    c.Effective number t := by
  cases e with
  | included u ok =>
      simp only [Chain.apply] at h
      split at h
      · rename_i hin
        rcases h with hexec | ⟨hpool, hnum⟩
        · rcases List.mem_cons.1 hexec with heq | hold
          · cases heq
            exact .inr ⟨hin.1, Nat.le_of_eq hin.2.symm⟩
          · exact .inl hold
        · exact .inr ⟨List.mem_of_mem_erase hpool, Nat.le_trans (Nat.le_succ _) hnum⟩
      · exact h
  | dropped u =>
      rcases h with hexec | ⟨hpool, hnum⟩
      · exact .inl hexec
      · exact .inr ⟨List.mem_of_mem_filter hpool, hnum⟩
  | elsewhere =>
      rcases h with hexec | ⟨hpool, hnum⟩
      · exact .inl hexec
      · exact .inr ⟨hpool, Nat.le_trans (Nat.le_succ _) hnum⟩

theorem evolve_later (events : List (Event T)) : Later c (c.evolve number events) := by
  induction events generalizing c with
  | nil => exact .refl c
  | cons e events ih => exact (apply_later e).trans ih

theorem WF.evolve (h : WF number c) (events : List (Event T)) :
    WF number (c.evolve number events) := by
  induction events generalizing c with
  | nil => exact h
  | cons e events ih => exact ih (h.apply e)

theorem effective_of_evolve (events : List (Event T)) {t : T}
    (h : (c.evolve number events).Effective number t) : c.Effective number t := by
  induction events generalizing c with
  | nil => exact h
  | cons e events ih => exact effective_of_apply e (ih h)

/-! ## Handing in, and what a block says -/

omit [DecidableEq T] in
theorem WF.take (h : WF number c) (t : T) : WF number (c.take t) := ⟨h.below, h.once⟩

omit [DecidableEq T] in
theorem take_later (t : T) : Later c (c.take t) := ⟨Nat.le_refl _, List.suffix_rfl⟩

omit [DecidableEq T] in
/-- Handing a transaction in makes no other one effective. -/
theorem effective_of_take {t u : T} (h : (c.take u).Effective number t) :
    c.Effective number t ∨ t = u := by
  rcases h with hexec | ⟨hpool, hnum⟩
  · exact .inl (.inl hexec)
  · rcases List.mem_cons.1 hpool with rfl | hold
    · exact .inr rfl
    · exact .inl (.inr ⟨hold, hnum⟩)

omit [DecidableEq T] in
theorem WF.eq_of_number (h : WF number c) {a b : T × Bool} (ha : a ∈ c.blocks) (hb : b ∈ c.blocks)
    (heq : number a.1 = number b.1) : a = b :=
  List.inj_on_of_nodup_map h.once ha hb heq

omit [DecidableEq T] in
/-- **A transaction that failed in a block has no effect, now or later.** -/
theorem WF.not_effective_of_failed (h : WF number c) {t : T} (ht : (t, false) ∈ c.blocks) :
    ¬ c.Effective number t := by
  rintro (hexec | ⟨-, hnum⟩)
  · have heq := h.eq_of_number ht hexec rfl
    cases heq
  · exact absurd (h.below _ ht) (Nat.not_lt.2 hnum)

/-! ## Counting executions -/

omit [DecidableEq T] in
/-- A transaction that was not executed before adds to the count. -/
theorem Later.executions_lt {c c' : Chain T} (h : Later c c') {t : T} (ht : c'.Executed t)
    (hnot : ¬ c.Executed t) : c.executions < c'.executions := by
  obtain ⟨new, hnew⟩ := h.blocks
  have hmem : (t, true) ∈ new := by
    have hin : (t, true) ∈ new ++ c.blocks := hnew ▸ ht
    exact (List.mem_append.1 hin).resolve_right hnot
  have hpos : 0 < (new.filter Prod.snd).length :=
    List.length_pos_of_mem (List.mem_filter.2 ⟨hmem, rfl⟩)
  unfold Chain.executions
  rw [← hnew, List.filter_append, List.length_append]
  exact Nat.lt_add_of_pos_left hpos

omit [DecidableEq T] in
/-- The executions are those from before and, once each, those of the transactions in a
list that has every other one. -/
theorem Later.executions_le {c c' : Chain T} (h : Later c c') (hwf : WF number c') {ts : List T}
    (hts : ∀ t, c'.Executed t → c.Executed t ∨ t ∈ ts) :
    c'.executions ≤ c.executions + ts.length := by
  obtain ⟨new, hnew⟩ := h.blocks
  have honce : ((new ++ c.blocks).map fun b => number b.1).Nodup := hnew ▸ hwf.once
  rw [List.map_append] at honce
  obtain ⟨hnodup, -, hdisj⟩ := List.nodup_append.1 honce
  have hsub : (new.filter Prod.snd).map Prod.fst ⊆ ts := by
    intro t ht
    obtain ⟨⟨u, ok⟩, hu, rfl⟩ := List.mem_map.1 ht
    obtain ⟨hu, rfl⟩ : (u, ok) ∈ new ∧ ok = true := List.mem_filter.1 hu
    have hexec : (u, true) ∈ c'.blocks := hnew ▸ List.mem_append_left _ hu
    refine (hts u hexec).resolve_left fun hold => ?_
    exact hdisj _ (List.mem_map_of_mem hu) _ (List.mem_map_of_mem hold) rfl
  have hfst : ((new.filter Prod.snd).map Prod.fst).Nodup := by
    refine List.Nodup.of_map number ?_
    rw [List.map_map]
    exact hnodup.sublist (List.filter_sublist.map _)
  have hlen := (List.subperm_of_subset hfst hsub).length_le
  rw [List.length_map] at hlen
  unfold Chain.executions
  rw [← hnew, List.filter_append, List.length_append, Nat.add_comm]
  exact Nat.add_le_add_left hlen _

end Chain

end Ledger
