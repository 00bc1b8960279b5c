import Dvpnd.Lib.Threads

/-!
# Programs that act on evidence

A thread that asks first and acts later may find, by the time it acts, that the others have
changed what it asked about; what stays true is that it *was told so*.  Here the answers of
operations are evidence that is never lost, and some operations need evidence.

* `Policy` — what an answer is evidence of, and what an operation needs.
* `Prog.Backed` — whatever the answers are, the program performs no operation it has no evidence
  for; `Backed.bind` sequences such proofs.
* `Reach.backed` — **the rule**: when every program is backed and the state keeps a record of the
  answers, every operation of every interleaving is performed with its evidence on record, and
  what such operations keep holds throughout (`Reach.upheld`).
-/

namespace Effect

variable {Op : Type} {Res : Op → Type} {α β ι J σ E : Type}

/-- What answers tell, and what operations need to have been told. -/
structure Policy {Op : Type} (Res : Op → Type) (E : Type) where
  /-- What the answer to an operation is evidence of. -/
  learns : (o : Op) → Res o → Set E
  /-- The evidence is enough for the operation. -/
  needs : Op → Set E → Prop
  /-- More evidence is no objection. -/
  needs_mono : ∀ {o K K'}, K ⊆ K' → needs o K → needs o K'

namespace Prog

/-- Starting with the evidence `K` the program performs only what it has evidence for, and it
ends with a result and evidence that meet `Q`. -/
def Backed (V : Policy Res E) (Q : α → Set E → Prop) : Set E → Prog Res α → Prop
  | K, .ret a => Q a K
  | K, .op o k => V.needs o K ∧ ∀ r, Backed V Q (K ∪ V.learns o r) (k r)
  | K, .lock k => Backed V Q K k
  | K, .unlock k => Backed V Q K k

variable {V : Policy Res E} {Q : α → Set E → Prop} {R : β → Set E → Prop} {K K' : Set E}

/-- The postcondition asks for no lack of evidence. -/
def Growing (Q : α → Set E → Prop) : Prop := ∀ a {K K' : Set E}, K ⊆ K' → Q a K → Q a K'

theorem Backed.mono (hQ : Growing Q) {p : Prog Res α} (hK : K ⊆ K') (h : Backed V Q K p) :
    Backed V Q K' p := by
  induction p generalizing K K' with
  | ret a => exact hQ a hK h
  | op o k ih =>
      exact ⟨V.needs_mono hK h.1, fun r => ih r (Set.union_subset_union_left _ hK) (h.2 r)⟩
  | lock k ih => exact ih hK h
  | unlock k ih => exact ih hK h

theorem Backed.imp {Q' : α → Set E → Prop} (hQ : ∀ a K, Q a K → Q' a K) {p : Prog Res α}
    (h : Backed V Q K p) : Backed V Q' K p := by
  induction p generalizing K with
  | ret a => exact hQ a K h
  | op o k ih => exact ⟨h.1, fun r => ih r (h.2 r)⟩
  | lock k ih => exact ih h
  | unlock k ih => exact ih h

theorem Backed.perform_bind {o : Op} {f : Res o → Prog Res β} (h : V.needs o K)
    (hf : ∀ r, Backed V R (K ∪ V.learns o r) (f r)) : Backed V R K (perform o >>= f) := ⟨h, hf⟩

theorem Backed.bind {p : Prog Res α} {f : α → Prog Res β} (hp : Backed V Q K p)
    (hf : ∀ a K', Q a K' → Backed V R K' (f a)) : Backed V R K (p >>= f) := by
  induction p generalizing K with
  | ret a => exact hf a K hp
  | op o k ih => exact ⟨hp.1, fun r => ih r (hp.2 r)⟩
  | lock k ih => exact ih hp
  | unlock k ih => exact ih hp

theorem Backed.withLock {p : Prog Res α} (h : Backed V Q K p) : Backed V Q K (withLock p) :=
  Backed.bind (p := p) h fun _ _ ha => ha

/-- A program all of whose operations need no evidence keeps what evidence there is. -/
theorem Backed.of_uses {P : Op → Prop} (hP : ∀ o, P o → ∀ K, V.needs o K) {p : Prog Res α}
    (h : Uses P p) : Backed V (fun _ K' => K ⊆ K') K p := by
  suffices hall : ∀ L, K ⊆ L → Backed V (fun _ K' => K ⊆ K') L p from hall K Set.Subset.rfl
  induction p with
  | ret a => exact fun L hL => hL
  | op o k ih =>
      exact fun L hL =>
        ⟨hP o h.1 L, fun r => ih r (h.2 r) _ (hL.trans Set.subset_union_left)⟩
  | lock k ih => exact fun L hL => ih h L hL
  | unlock k ih => exact fun L hL => ih h L hL

end Prog

/-! ## The pool -/

section Pool

variable [DecidableEq ι] {Y : System Res ι J σ} {V : Policy Res E} {facts : σ → Set E}

/-- The state keeps a record of every answer. -/
structure Machine.Records (M : Machine Res ι σ) (V : Policy Res E) (facts : σ → Set E) : Prop where
  keeps : ∀ o s, facts s ⊆ facts (M.exec o s).2
  learns : ∀ o s, V.learns o (M.exec o s).1 ⊆ facts (M.exec o s).2
  acquire : ∀ i s, facts s ⊆ facts (M.acquire i s)

/-- Every thread is backed by what is on record. -/
def Config.Backed (V : Policy Res E) (facts : σ → Set E) (c : Config Res ι σ) : Prop :=
  ∀ i, Prog.Backed V (fun _ _ => True) (facts c.state) (c.threads i)

/-- A step that leaves one thread backed and loses no evidence leaves all of them backed. -/
theorem Config.Backed.of_update {c c' : Config Res ι σ} (hc : c.Backed V facts) {i : ι}
    {k : Prog Res Unit} (hthreads : c'.threads = Function.update c.threads i k)
    (hk : Prog.Backed V (fun _ _ => True) (facts c'.state) k)
    (hfacts : facts c.state ⊆ facts c'.state) : c'.Backed V facts := by
  intro l
  rw [hthreads]
  by_cases hl : l = i
  · subst hl
    rwa [Function.update_self]
  · rw [Function.update_of_ne hl]
    exact (hc l).mono (fun _ _ _ _ h => h) hfacts

/-- One step of the pool keeps every thread backed. -/
theorem Config.Backed.next (hrec : Y.machine.Records V facts)
    (hY : ∀ i j K, Prog.Backed V (fun _ _ => True) K (Y.program i j)) {c c' : Config Res ι σ}
    (hc : c.Backed V facts) {ch : Choice ι J} (h : c.next Y ch = some c') : c'.Backed V facts := by
  cases ch with
  | start i j =>
      simp only [Config.next] at h
      split at h
      · cases h
        exact hc.of_update rfl (hY i j _) Set.Subset.rfl
      · cases h
  | step i =>
      have hi := hc i
      simp only [Config.next] at h
      split at h
      · cases h
      · rename_i o k hop
        cases h
        rw [hop] at hi
        exact hc.of_update rfl ((hi.2 _).mono (fun _ _ _ _ h => h)
          (Set.union_subset (hrec.keeps _ _) (hrec.learns _ _))) (hrec.keeps _ _)
      · rename_i k hlock
        split at h
        · cases h
          rw [hlock] at hi
          exact hc.of_update rfl (Prog.Backed.mono (p := k) (fun _ _ _ _ h => h)
            (hrec.acquire _ _) hi) (hrec.acquire _ _)
        · cases h
      · rename_i k hunlock
        split at h
        · cases h
          rw [hunlock] at hi
          exact hc.of_update rfl hi Set.Subset.rfl
        · cases h

/-- **No operation without evidence**: in every state any interleaving reaches, each thread is
backed by what is on record. -/
theorem Reach.backed (hrec : Y.machine.Records V facts)
    (hY : ∀ i j K, Prog.Backed V (fun _ _ => True) K (Y.program i j)) {ok : ι → Op → σ → Prop}
    {s₀ : σ} {c : Config Res ι σ} (h : Reach Y ok s₀ c) : c.Backed V facts := by
  induction h with
  | idle => exact fun _ => trivial
  | next ch _ _ hn ih => exact ih.next hrec hY hn

/-- **What the operations keep when they have their evidence holds in every state reached.** -/
theorem Reach.upheld (hrec : Y.machine.Records V facts)
    (hY : ∀ i j K, Prog.Backed V (fun _ _ => True) K (Y.program i j)) {ok : ι → Op → σ → Prop}
    {P : σ → Prop} {s₀ : σ} (h₀ : P s₀) (hacq : ∀ i s, P s → P (Y.machine.acquire i s))
    (hop : ∀ o s, V.needs o (facts s) → P s → P (Y.machine.exec o s).2) {c : Config Res ι σ}
    (h : Reach Y ok s₀ c) : P c.state := by
  induction h with
  | idle => exact h₀
  | @next c c' ch hc _ hn ih =>
      cases ch with
      | start i j =>
          simp only [Config.next] at hn
          split at hn
          · cases hn; exact ih
          · cases hn
      | step i =>
          have hi := hc.backed hrec hY i
          simp only [Config.next] at hn
          split at hn
          · cases hn
          · rename_i o k hthread
            cases hn
            rw [hthread] at hi
            exact hop o _ hi.1 ih
          · split at hn
            · cases hn; exact hacq _ _ ih
            · cases hn
          · split at hn
            · cases hn; exact ih
            · cases hn

end Pool

end Effect
