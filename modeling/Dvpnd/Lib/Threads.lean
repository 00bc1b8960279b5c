import Dvpnd.Lib.Prog

/-!
# Threads, one lock, and a rely-guarantee rule

Programs run here as threads that share a state.  One step of the pool is one
operation of one thread, so anything an interleaving of operations can do, a
run of the pool does; the lock is the only thing that makes a thread wait.

* `System`, `Config`, `next`, `Reach` — the pool.  A thread that has finished may
  be started again with any program the system gives it, so a job that runs
  pass after pass and a request handler that runs once are both threads.
* `Contract` — what each thread may assume of the others and owes to them: an
  invariant of the state while the lock is free, what the others may do while
  the thread does not hold the lock (`rely`) and while it does (`calm`), and
  what the thread itself does outside (`tick`) and inside (`guar`) the lock.
* `Safe` — a program keeps its side of the contract, and ends in a
  postcondition; `Safe.bind` sequences such proofs, `Safe.of_plain` gives one to
  a program all of whose operations are harmless.
* `Reach.good`, `Reach.inv` — **the rule**: when every program is safe, then in
  every state any interleaving reaches every thread is still safe, and the
  invariant holds whenever the lock is free.
-/

namespace Effect

variable {Op : Type} {Res : Op → Type} {α β ι J σ : Type}

/-! ## The thread pool -/

/-- A machine with the programs its threads may be started with. -/
structure System {Op : Type} (Res : Op → Type) (ι J σ : Type) where
  /-- What the operations do. -/
  machine : Machine Res ι σ
  /-- The program thread `i` runs when it is started with the argument `j`. -/
  program : ι → J → Prog Res Unit

/-- A state of the pool: what is left of each thread's program, who holds the
lock, and the shared state. -/
structure Config {Op : Type} (Res : Op → Type) (ι σ : Type) where
  /-- What thread `i` has still to do. -/
  threads : ι → Prog Res Unit
  /-- The thread that holds the lock. -/
  owner : Option ι
  /-- The state the threads share. -/
  state : σ

/-- What a scheduler can choose: start a finished thread, or let one take a
step. -/
inductive Choice (ι J : Type) where
  | start (i : ι) (j : J)
  | step (i : ι)
  deriving DecidableEq, Repr

variable [DecidableEq ι]

/-- One step of the pool; `none` when the choice is not enabled, which for a
step is a finished thread or a thread waiting for the lock. -/
def Config.next (Y : System Res ι J σ) (c : Config Res ι σ) : Choice ι J → Option (Config Res ι σ)
  | .start i j =>
      match c.threads i with
      | .ret _ => some { c with threads := Function.update c.threads i (Y.program i j) }
      | _ => none
  | .step i =>
      match c.threads i with
      | .ret _ => none
      | .op o k =>
          some { c with
            threads := Function.update c.threads i (k (Y.machine.exec o c.state).1)
            state := (Y.machine.exec o c.state).2 }
      | .lock k =>
          if c.owner = none then
            some ⟨Function.update c.threads i k, some i, Y.machine.acquire i c.state⟩
          else none
      | .unlock k =>
          if c.owner = some i then
            some { c with threads := Function.update c.threads i k, owner := none }
          else none

/-- The choice performs no operation that `ok` forbids. -/
def Config.allows (ok : ι → Op → σ → Prop) [∀ i o s, Decidable (ok i o s)] (c : Config Res ι σ) :
    Choice ι J → Bool
  | .start _ _ => true
  | .step i =>
      match c.threads i with
      | .op o _ => decide (ok i o c.state)
      | _ => true

/-- Take the listed choices in order; `none` when one is not enabled, or performs
an operation that `ok` forbids. -/
def Config.runs (Y : System Res ι J σ) (ok : ι → Op → σ → Prop) [∀ i o s, Decidable (ok i o s)] :
    Config Res ι σ → List (Choice ι J) → Option (Config Res ι σ)
  | c, [] => some c
  | c, ch :: rest =>
      if c.allows ok ch then (c.next Y ch).bind fun c' => Config.runs Y ok c' rest else none

/-- The pool with every thread finished and the lock free. -/
def Config.idle (s : σ) : Config Res ι σ := ⟨fun _ => .ret (), none, s⟩

/-- The states the pool can reach from an idle one.  `ok i o s` says which
operations thread `i` may perform in which states; a run keeps to it at every
step. -/
inductive Reach (Y : System Res ι J σ) (ok : ι → Op → σ → Prop) (s₀ : σ) :
    Config Res ι σ → Prop where
  | idle : Reach Y ok s₀ (.idle s₀)
  | next {c c' : Config Res ι σ} (ch : Choice ι J) : Reach Y ok s₀ c →
      (∀ i o k, ch = .step i → c.threads i = .op o k → ok i o c.state) →
      c.next Y ch = some c' → Reach Y ok s₀ c'

omit [DecidableEq ι] in
theorem Config.allows_step {ok : ι → Op → σ → Prop} [∀ i o s, Decidable (ok i o s)]
    {c : Config Res ι σ} {ch : Choice ι J} (h : c.allows ok ch = true) {i : ι} {o : Op}
    {k : Res o → Prog Res Unit} (hch : ch = .step i) (hop : c.threads i = .op o k) :
    ok i o c.state := by
  subst hch
  simp only [Config.allows, hop, decide_eq_true_eq] at h
  exact h

/-- A list of choices that can be taken leads to a reachable state. -/
theorem Reach.runs {Y : System Res ι J σ} {ok : ι → Op → σ → Prop} [∀ i o s, Decidable (ok i o s)]
    {s₀ : σ} : ∀ {chs : List (Choice ι J)} {c c' : Config Res ι σ}, Reach Y ok s₀ c →
      c.runs Y ok chs = some c' → Reach Y ok s₀ c' := by
  intro chs
  induction chs with
  | nil => intro c c' hc h; cases h; exact hc
  | cons ch rest ih =>
      intro c c' hc h
      simp only [Config.runs] at h
      split at h
      · rename_i hallow
        obtain ⟨d, hd, hr⟩ := Option.bind_eq_some_iff.1 h
        exact ih (hc.next ch (fun _ _ _ => Config.allows_step hallow) hd) hr
      · cases h

/-! ## Contracts -/

/-- What the threads of a pool assume of one another and owe to one another. -/
structure Contract (Op ι σ : Type) where
  /-- Holds whenever the lock is free. -/
  inv : σ → Prop
  /-- What the other threads may do while `i` does not hold the lock. -/
  rely : ι → σ → σ → Prop
  /-- What the other threads may do while `i` holds the lock. -/
  calm : ι → σ → σ → Prop
  /-- What an operation of `i` does outside the lock. -/
  tick : ι → σ → σ → Prop
  /-- What an operation of `i` does under the lock. -/
  guar : ι → σ → σ → Prop
  /-- The operations `i` is allowed to perform. -/
  ok : ι → Op → σ → Prop

/-- The threads' promises fit together: what one does is what the others allow
for. -/
structure Contract.Fits (C : Contract Op ι σ) (M : Machine Res ι σ) : Prop where
  rely_refl : ∀ i s, C.rely i s s
  rely_trans : ∀ i {a b c}, C.rely i a b → C.rely i b c → C.rely i a c
  calm_refl : ∀ i s, C.calm i s s
  calm_trans : ∀ i {a b c}, C.calm i a b → C.calm i b c → C.calm i a c
  tick_rely : ∀ {i j s s'}, i ≠ j → C.tick i s s' → C.rely j s s'
  tick_calm : ∀ {i j s s'}, i ≠ j → C.tick i s s' → C.calm j s s'
  tick_inv : ∀ {i s s'}, C.tick i s s' → C.inv s → C.inv s'
  guar_rely : ∀ {i j o s}, i ≠ j → C.ok i o s → C.guar i s (M.exec o s).2 →
    C.rely j s (M.exec o s).2
  acquire_rely : ∀ {i j s}, i ≠ j → C.rely j s (M.acquire i s)

/-- What the other threads may do, according to whether `i` holds the lock. -/
def Contract.others (C : Contract Op ι σ) (i : ι) : Bool → σ → σ → Prop
  | true => C.calm i
  | false => C.rely i

/-- What an operation of `i` has to be, according to whether it holds the lock. -/
def Contract.own (C : Contract Op ι σ) (i : ι) : Bool → σ → σ → Prop
  | true => C.guar i
  | false => C.tick i

omit [DecidableEq ι] in
theorem Contract.Fits.others_refl {C : Contract Op ι σ} {M : Machine Res ι σ} (hC : C.Fits M)
    (i : ι) (h : Bool) (s : σ) : C.others i h s s := by
  cases h
  · exact hC.rely_refl i s
  · exact hC.calm_refl i s

omit [DecidableEq ι] in
theorem Contract.Fits.others_trans {C : Contract Op ι σ} {M : Machine Res ι σ} (hC : C.Fits M)
    (i : ι) (h : Bool) {a b c : σ} (hab : C.others i h a b) (hbc : C.others i h b c) :
    C.others i h a c := by
  cases h
  · exact hC.rely_trans i hab hbc
  · exact hC.calm_trans i hab hbc

/-- `Safe M C i Q p h s`: thread `i`, about to run `p` in the state `s` and
holding the lock when `h` is true, keeps its side of the contract whatever the
others do that the contract allows, and finishes only where `Q` holds. -/
def Safe (M : Machine Res ι σ) (C : Contract Op ι σ) (i : ι) (Q : α → Bool → σ → Prop) :
    Prog Res α → Bool → σ → Prop
  | .ret a, h, s => ∀ s', C.others i h s s' → Q a h s'
  | .op o k, h, s => ∀ s', C.others i h s s' → C.ok i o s' →
      C.own i h s' (M.exec o s').2 ∧ Safe M C i Q (k (M.exec o s').1) h (M.exec o s').2
  | .lock k, h, s => h = false ∧ ∀ s', C.rely i s s' → C.inv s' →
      Safe M C i Q k true (M.acquire i s')
  | .unlock k, h, s => h = true ∧ ∀ s', C.calm i s s' → C.inv s' ∧ Safe M C i Q k false s'

namespace Safe

variable {M : Machine Res ι σ} {C : Contract Op ι σ} {i : ι}

omit [DecidableEq ι] in
/-- What the other threads do leaves a safe thread safe. -/
theorem stable (hC : C.Fits M) {Q : α → Bool → σ → Prop} {p : Prog Res α} {h : Bool} {s s' : σ}
    (hs : C.others i h s s') (hp : Safe M C i Q p h s) : Safe M C i Q p h s' := by
  cases p with
  | ret a => exact fun t ht => hp t (hC.others_trans i h hs ht)
  | op o k => exact fun t ht => hp t (hC.others_trans i h hs ht)
  | lock k =>
      obtain ⟨rfl, hk⟩ := hp
      exact ⟨rfl, fun t ht => hk t (hC.rely_trans i hs ht)⟩
  | unlock k =>
      obtain ⟨rfl, hk⟩ := hp
      exact ⟨rfl, fun t ht => hk t (hC.calm_trans i hs ht)⟩

omit [DecidableEq ι] in
/-- **Sequencing**: the postcondition of the first part is the safety of the
rest. -/
theorem bind {Q : β → Bool → σ → Prop} {f : α → Prog Res β} :
    ∀ {p : Prog Res α} {h : Bool} {s : σ},
      Safe M C i (fun a h' s' => Safe M C i Q (f a) h' s') p h s → (hC : C.Fits M) →
      Safe M C i Q (p >>= f) h s := by
  intro p
  induction p with
  | ret a => intro h s hp hC; exact hp s (hC.others_refl i h s)
  | op o k ih =>
      intro h s hp hC s' hs' hok
      obtain ⟨hown, hk⟩ := hp s' hs' hok
      exact ⟨hown, ih _ hk hC⟩
  | lock k ih =>
      intro h s hp hC
      exact ⟨hp.1, fun s' hs' hinv => ih (hp.2 s' hs' hinv) hC⟩
  | unlock k ih =>
      intro h s hp hC
      exact ⟨hp.1, fun s' hs' => ⟨(hp.2 s' hs').1, ih (hp.2 s' hs').2 hC⟩⟩

omit [DecidableEq ι] in
/-- One operation, then the rest from every answer it can have. -/
theorem perform_bind {Q : β → Bool → σ → Prop} {o : Op} {f : Res o → Prog Res β} {h : Bool} {s : σ}
    (hp : ∀ s', C.others i h s s' → C.ok i o s' → C.own i h s' (M.exec o s').2 ∧
      Safe M C i Q (f (M.exec o s').1) h (M.exec o s').2) :
    Safe M C i Q (Prog.perform o >>= f) h s := hp

omit [DecidableEq ι] in
theorem mono {Q Q' : α → Bool → σ → Prop} (hQ : ∀ a h s, Q a h s → Q' a h s) :
    ∀ {p : Prog Res α} {h : Bool} {s : σ}, Safe M C i Q p h s → Safe M C i Q' p h s := by
  intro p
  induction p with
  | ret a => intro h s hp s' hs'; exact hQ _ _ _ (hp s' hs')
  | op o k ih => intro h s hp s' hs' hok; exact ⟨(hp s' hs' hok).1, ih _ (hp s' hs' hok).2⟩
  | lock k ih => intro h s hp; exact ⟨hp.1, fun s' hs' hinv => ih (hp.2 s' hs' hinv)⟩
  | unlock k ih =>
      intro h s hp
      exact ⟨hp.1, fun s' hs' => ⟨(hp.2 s' hs').1, ih (hp.2 s' hs').2⟩⟩

omit [DecidableEq ι] in
/-- A critical section is safe when its body, started where the invariant
holds, ends where the invariant holds. -/
theorem withLock {Q : α → Bool → σ → Prop} {p : Prog Res α} {s : σ} (hC : C.Fits M)
    (hp : ∀ s', C.rely i s s' → C.inv s' →
      Safe M C i (fun a h t => h = true ∧ C.inv t ∧ ∀ t', C.rely i t t' → Q a false t') p true
        (M.acquire i s'))
    (hinv : ∀ t t', C.calm i t t' → C.inv t → C.inv t')
    (hcalm : ∀ {t t'}, C.calm i t t' → C.rely i t t') :
    Safe M C i Q (Prog.withLock p) false s := by
  refine ⟨rfl, fun s' hs' hinv' => bind (mono ?_ (hp s' hs' hinv')) hC⟩
  rintro a h t ⟨rfl, ht, hQ⟩
  exact ⟨rfl, fun t' ht' => ⟨hinv t t' ht' ht, fun t'' ht'' =>
    hQ t'' (hC.rely_trans i (hcalm ht') ht'')⟩⟩

omit [DecidableEq ι] in
/-- A program without locks is safe when each of its operations is; of the
answers nothing is learnt but what holds of every result. -/
theorem of_plain {Q : α → Bool → σ → Prop} {P : Op → Prop} {R : α → Prop} {h : Bool}
    {A : σ → Prop} (hA : ∀ s s', C.others i h s s' → A s → A s')
    (hop : ∀ o s, P o → C.ok i o s → A s → C.own i h s (M.exec o s).2 ∧ A (M.exec o s).2)
    (hQ : ∀ a s, R a → A s → Q a h s) : ∀ {p : Prog Res α} {s : σ}, Prog.Plain P p →
      Prog.Yields R p → A s → Safe M C i Q p h s := by
  intro p
  induction p with
  | ret a => intro s _ hy hs s' hs'; exact hQ _ _ hy (hA s s' hs' hs)
  | op o k ih =>
      intro s hp hy hs s' hs' hok
      obtain ⟨hown, hA'⟩ := hop o s' hp.uses.1 hok (hA s s' hs' hs)
      exact ⟨hown, ih _ ⟨hp.uses.2 _, hp.lockFree _⟩ (hy _) hA'⟩
  | lock k _ => intro s hp; exact absurd hp.lockFree id
  | unlock k _ => intro s hp; exact absurd hp.lockFree id

omit [DecidableEq ι] in
/-- A program that takes and releases the lock in turn is safe when each of its
operations is, outside the lock and inside. -/
theorem of_bracketed {P P' : Op → Prop} (hinv : ∀ s, C.inv s)
    (hout : ∀ o s, P o → C.ok i o s → C.tick i s (M.exec o s).2)
    (hin : ∀ o s, P' o → C.ok i o s → C.guar i s (M.exec o s).2) :
    ∀ {p : Prog Res α} {b : Bool} {s : σ}, Prog.Bracketed P P' b p →
      Safe M C i (fun _ b _ => b = false) p b s := by
  intro p
  induction p with
  | ret a => intro b s hp s' _; exact hp
  | op o k ih =>
      intro b s hp s' _ hok
      refine ⟨?_, ih _ (hp.2 _)⟩
      cases b with
      | false => exact hout o s' hp.1 hok
      | true => exact hin o s' hp.1 hok
  | lock k ih => intro b s hp; exact ⟨hp.1, fun s' _ _ => ih hp.2⟩
  | unlock k ih => intro b s hp; exact ⟨hp.1, fun s' _ => ⟨hinv s', ih hp.2⟩⟩

end Safe

/-! ## The rule -/

/-- The program is finished without holding the lock. -/
def Released (_ : α) (h : Bool) (_ : σ) : Prop := h = false

variable {Y : System Res ι J σ} {C : Contract Op ι σ}

/-- Every thread is safe, and the invariant holds if the lock is free. -/
structure Config.Good (Y : System Res ι J σ) (C : Contract Op ι σ) (c : Config Res ι σ) : Prop where
  threads : ∀ i, Safe Y.machine C i Released (c.threads i) (decide (c.owner = some i)) c.state
  inv : c.owner = none → C.inv c.state

/-- One thread goes on, and the others are safe where that leaves them. -/
theorem Config.Good.of_update {c c' : Config Res ι σ} {i : ι} {k : Prog Res Unit}
    (hthreads : c'.threads = Function.update c.threads i k)
    (hi : Safe Y.machine C i Released k (decide (c'.owner = some i)) c'.state)
    (hothers : ∀ l, l ≠ i →
      Safe Y.machine C l Released (c.threads l) (decide (c'.owner = some l)) c'.state)
    (hinv : c'.owner = none → C.inv c'.state) : c'.Good Y C where
  threads l := by
    rw [hthreads]
    by_cases hl : l = i
    · subst hl
      rwa [Function.update_self]
    · rw [Function.update_of_ne hl]
      exact hothers l hl
  inv := hinv

/-- What a thread may do is what the others rely on, whoever holds the lock. -/
theorem Contract.Fits.others_of_own (hC : C.Fits Y.machine) {owner : Option ι} {i l : ι} (hl : l ≠ i)
    {o : Op} {s : σ} (hok : C.ok i o s)
    (hown : C.own i (decide (owner = some i)) s (Y.machine.exec o s).2) :
    C.others l (decide (owner = some l)) s (Y.machine.exec o s).2 := by
  by_cases how : owner = some i
  · -- `i` holds the lock, so `l` does not: it relies on `i`'s guarantee
    have hli : owner ≠ some l := by
      rw [how]
      exact fun heq => hl (Option.some.inj heq).symm
    simp only [how, decide_true, Contract.own] at hown
    simp only [hli, decide_false, Contract.others]
    exact hC.guar_rely (Ne.symm hl) hok hown
  · simp only [how, decide_false, Contract.own] at hown
    by_cases hol : owner = some l
    · simp only [hol, decide_true, Contract.others]
      exact hC.tick_calm (Ne.symm hl) hown
    · simp only [hol, decide_false, Contract.others]
      exact hC.tick_rely (Ne.symm hl) hown

/-- One step of the pool keeps every thread safe. -/
theorem Config.Good.next (hC : C.Fits Y.machine)
    (hY : ∀ i j s, Safe Y.machine C i Released (Y.program i j) false s)
    {c c' : Config Res ι σ} (hc : c.Good Y C) {ch : Choice ι J}
    (hok : ∀ i o k, ch = .step i → c.threads i = .op o k → C.ok i o c.state)
    (h : c.next Y ch = some c') : c'.Good Y C := by
  cases ch with
  | start i j =>
      simp only [Config.next] at h
      split at h
      · rename_i a hi
        cases h
        have hfree : decide (c.owner = some i) = false := by
          have hret := hc.threads i
          rw [hi] at hret
          exact hret c.state (hC.others_refl i _ _)
        refine .of_update rfl ?_ (fun l _ => hc.threads l) hc.inv
        rw [hfree]
        exact hY i j c.state
      · cases h
  | step i =>
      have hi := hc.threads i
      simp only [Config.next] at h
      split at h
      · cases h
      · rename_i o k hop
        cases h
        rw [hop] at hi
        have hoki := hok i o k rfl hop
        obtain ⟨hown, hk⟩ := hi c.state (hC.others_refl i _ _) hoki
        refine .of_update rfl hk
          (fun l hl => (hc.threads l).stable hC (hC.others_of_own hl hoki hown)) fun hnone => ?_
        have how : decide (c.owner = some i) = false := by
          rw [show c.owner = none from hnone]
          rfl
        rw [how] at hown
        exact hC.tick_inv hown (hc.inv hnone)
      · rename_i k hlock
        split at h
        · rename_i hnone
          cases h
          rw [hlock] at hi
          have hk := hi.2 c.state (hC.rely_refl i _) (hc.inv hnone)
          refine .of_update rfl ?_ (fun l hl => ?_) fun hbad => by cases hbad
          · simpa only [decide_true] using hk
          · have hold := hc.threads l
            rw [hnone, show decide ((none : Option ι) = some l) = false from rfl] at hold
            rw [show decide ((some i : Option ι) = some l) = false by simpa using Ne.symm hl]
            exact hold.stable hC (hC.acquire_rely (Ne.symm hl))
        · cases h
      · rename_i k hunlock
        split at h
        · rename_i how
          cases h
          rw [hunlock] at hi
          obtain ⟨hinv, hk⟩ := hi.2 c.state (hC.calm_refl i _)
          refine .of_update rfl hk (fun l hl => ?_) fun _ => hinv
          have hold := hc.threads l
          rwa [how, show decide ((some i : Option ι) = some l) = false by simpa using Ne.symm hl] at hold
        · cases h

/-- Each operation a safe thread performs is one it owes the others. -/
theorem Config.Good.own (hC : C.Fits Y.machine) {c : Config Res ι σ} (hc : c.Good Y C) {i : ι}
    {o : Op} {k : Res o → Prog Res Unit} (hi : c.threads i = .op o k) (hok : C.ok i o c.state) :
    C.own i (decide (c.owner = some i)) c.state (Y.machine.exec o c.state).2 := by
  have hsafe := hc.threads i
  rw [hi] at hsafe
  exact (hsafe c.state (hC.others_refl i _ _) hok).1

/-- **The rely-guarantee rule.**  When every program a thread can be started
with is safe from every state, and the invariant holds at the start, then every
thread is safe in every state any interleaving reaches. -/
theorem Reach.good (hC : C.Fits Y.machine)
    (hY : ∀ i j s, Safe Y.machine C i Released (Y.program i j) false s) {s₀ : σ}
    (h₀ : C.inv s₀) {c : Config Res ι σ} (h : Reach Y C.ok s₀ c) : c.Good Y C := by
  induction h with
  | idle =>
      refine ⟨fun i => ?_, fun _ => h₀⟩
      have hnone : decide ((none : Option ι) = some i) = false := by simp
      show Safe _ _ _ _ _ (decide ((none : Option ι) = some i)) _
      rw [hnone]
      exact fun _ _ => rfl
  | next ch _ hok hn ih => exact ih.next hC hY hok hn

/-- **The invariant holds whenever the lock is free.** -/
theorem Reach.inv (hC : C.Fits Y.machine)
    (hY : ∀ i j s, Safe Y.machine C i Released (Y.program i j) false s) {s₀ : σ}
    (h₀ : C.inv s₀) {c : Config Res ι σ} (h : Reach Y C.ok s₀ c) (hfree : c.owner = none) :
    C.inv c.state :=
  (h.good hC hY h₀).inv hfree

/-- What every operation keeps holds in every state reached. -/
theorem Reach.state {ok : ι → Op → σ → Prop} {P : σ → Prop} {s₀ : σ} (h₀ : P s₀)
    (hacq : ∀ i s, P s → P (Y.machine.acquire i s)) (hop : ∀ o s, P s → P (Y.machine.exec o s).2)
    {c : Config Res ι σ} (h : Reach Y ok s₀ c) : P c.state := by
  induction h with
  | idle => exact h₀
  | next ch _ _ hn ih =>
      cases ch with
      | start i j =>
          simp only [Config.next] at hn
          split at hn
          · cases hn; exact ih
          · cases hn
      | step i =>
          simp only [Config.next] at hn
          split at hn
          · cases hn
          · cases hn; exact hop _ _ ih
          · split at hn
            · cases hn; exact hacq _ _ ih
            · cases hn
          · split at hn
            · cases hn; exact ih
            · cases hn

/-- **What the threads' own steps keep holds in every state reached**, whether the
lock is free or not. -/
theorem Reach.preserves (hC : C.Fits Y.machine)
    (hY : ∀ i j s, Safe Y.machine C i Released (Y.program i j) false s) {P : σ → Prop} {s₀ : σ}
    (h₀ : C.inv s₀) (hP₀ : P s₀) (hacq : ∀ i s, P s → P (Y.machine.acquire i s))
    (hown : ∀ i b o s, C.ok i o s → C.own i b s (Y.machine.exec o s).2 → P s →
      P (Y.machine.exec o s).2) {c : Config Res ι σ} (h : Reach Y C.ok s₀ c) : P c.state := by
  induction h with
  | idle => exact hP₀
  | @next c c' ch hc hok hn ih =>
      cases ch with
      | start i j =>
          simp only [Config.next] at hn
          split at hn
          · cases hn; exact ih
          · cases hn
      | step i =>
          have hi := (hc.good hC hY h₀).threads i
          simp only [Config.next] at hn
          split at hn
          · cases hn
          · rename_i o k hop
            cases hn
            rw [hop] at hi
            have hoki := hok i o k rfl hop
            exact hown i _ o _ hoki (hi c.state (hC.others_refl i _ _) hoki).1 ih
          · split at hn
            · cases hn; exact hacq _ _ ih
            · cases hn
          · split at hn
            · cases hn; exact ih
            · cases hn

/-- A run may be taken to meet, at each operation, whatever holds in every state
it reaches. -/
theorem Reach.strengthen {ok : ι → Op → σ → Prop} {P : σ → Prop} {s₀ : σ}
    (hP : ∀ {c : Config Res ι σ}, Reach Y ok s₀ c → P c.state) {c : Config Res ι σ}
    (h : Reach Y ok s₀ c) : Reach Y (fun i o s => ok i o s ∧ P s) s₀ c := by
  induction h with
  | idle => exact .idle
  | next ch hc hok hn ih => exact ih.next ch (fun i o k h₁ h₂ => ⟨hok i o k h₁ h₂, hP hc⟩) hn

/-- **An invariant may be assumed of the run that is to keep it**: when the contract lets a thread
count on `P` at each of its operations, and makes it keep `P`, then `P` holds at all of them. -/
theorem Reach.assume {ok : ι → Op → σ → Prop} {P : σ → Prop} (hC : C.Fits Y.machine)
    (hY : ∀ i j s, Safe Y.machine C i Released (Y.program i j) false s)
    (hCok : ∀ {i o s}, ok i o s → P s → C.ok i o s) {s₀ : σ} (h₀ : C.inv s₀) (hP₀ : P s₀)
    (hacq : ∀ i s, P s → P (Y.machine.acquire i s))
    (hown : ∀ i b o s, C.ok i o s → C.own i b s (Y.machine.exec o s).2 → P s →
      P (Y.machine.exec o s).2) {c : Config Res ι σ} (h : Reach Y ok s₀ c) :
    Reach Y C.ok s₀ c ∧ P c.state := by
  induction h with
  | idle => exact ⟨.idle, hP₀⟩
  | next ch _ hok hn ih =>
      have hreach := ih.1.next ch (fun i o k hch hop => hCok (hok i o k hch hop) ih.2) hn
      exact ⟨hreach, hreach.preserves hC hY h₀ hP₀ hacq hown⟩

end Effect
