import Mathlib

/-!
# Programs over a signature of operations, with one lock

A **program** is a tree of atomic operations: each node names the operation it
performs and, for every result the operation can have, the program that runs
next.  Two further kinds of node take and release a single mutual-exclusion
lock.  A program is data, so the same one can be run alone, from one state to
the next, or as one thread among many.

* `Prog` — programs, with the monad structure that makes `do` blocks of them.
* `Machine`, `Prog.run` — what the operations do to a state, and a program run
  alone against it; `run_bind` says that running is compositional.
* `withLock` — a program run between taking and releasing the lock.
* `Prog.trace` — the operations of one run, each with its answer.
* `Prog.Uses` — every operation of a program, wherever it stands, has a given
  property; `Uses.bind` proves it piece by piece.
* `Prog.Plain` — besides, the program never touches the lock; `Prog.Bracketed` —
  it takes and releases the lock in turn.
* `Prog.Always` — every operation of one run meets a condition in the state it is
  performed in.
-/

namespace Effect

/-- A program whose operations are `Op`, an operation `o` having a result of
type `Res o`. -/
inductive Prog {Op : Type} (Res : Op → Type) (α : Type) where
  /-- Finished, with a result. -/
  | ret (a : α)
  /-- Perform `o`, then go on with its result. -/
  | op (o : Op) (k : Res o → Prog Res α)
  /-- Take the lock, then go on. -/
  | lock (k : Prog Res α)
  /-- Release the lock, then go on. -/
  | unlock (k : Prog Res α)

/-- What the operations do to a state of type `σ`.  `acquire i` is the effect of
thread `i` taking the lock, for machines that keep a record of it. -/
structure Machine {Op : Type} (Res : Op → Type) (ι σ : Type) where
  /-- Perform one operation. -/
  exec : (o : Op) → σ → Res o × σ
  /-- Record that a thread has taken the lock. -/
  acquire : ι → σ → σ

namespace Prog

variable {Op : Type} {Res : Op → Type} {α β γ ι σ : Type}

/-- Sequencing. -/
def bind : Prog Res α → (α → Prog Res β) → Prog Res β
  | .ret a, f => f a
  | .op o k, f => .op o fun r => (k r).bind f
  | .lock k, f => .lock (k.bind f)
  | .unlock k, f => .unlock (k.bind f)

instance : Monad (Prog Res) where
  pure := .ret
  bind := bind

@[simp] theorem pure_eq (a : α) : (pure a : Prog Res α) = .ret a := rfl

@[simp] theorem ret_bind (a : α) (f : α → Prog Res β) : (Prog.ret a >>= f) = f a := rfl

@[simp] theorem op_bind (o : Op) (k : Res o → Prog Res α) (f : α → Prog Res β) :
    (Prog.op o k >>= f) = .op o fun r => k r >>= f := rfl

@[simp] theorem lock_bind (k : Prog Res α) (f : α → Prog Res β) :
    (Prog.lock k >>= f) = .lock (k >>= f) := rfl

@[simp] theorem unlock_bind (k : Prog Res α) (f : α → Prog Res β) :
    (Prog.unlock k >>= f) = .unlock (k >>= f) := rfl

/-- Perform one operation and return its result. -/
def perform (o : Op) : Prog Res (Res o) := .op o .ret

@[simp] theorem perform_bind (o : Op) (f : Res o → Prog Res β) :
    (perform o >>= f) = .op o f := rfl

/-- Run a program while holding the lock, and release the lock at its end. -/
def withLock (p : Prog Res α) : Prog Res α := .lock (p >>= fun a => .unlock (.ret a))

/-! ## Running a program alone -/

/-- Run a program alone, as thread `i`. -/
def run (M : Machine Res ι σ) (i : ι) : Prog Res α → σ → α × σ
  | .ret a, s => (a, s)
  | .op o k, s => run M i (k (M.exec o s).1) (M.exec o s).2
  | .lock k, s => run M i k (M.acquire i s)
  | .unlock k, s => run M i k s

variable (M : Machine Res ι σ) (i : ι)

@[simp] theorem run_ret (a : α) (s : σ) : run M i (.ret a : Prog Res α) s = (a, s) := rfl

@[simp] theorem run_op (o : Op) (k : Res o → Prog Res α) (s : σ) :
    run M i (.op o k) s = run M i (k (M.exec o s).1) (M.exec o s).2 := rfl

@[simp] theorem run_lock (k : Prog Res α) (s : σ) :
    run M i (.lock k) s = run M i k (M.acquire i s) := rfl

@[simp] theorem run_unlock (k : Prog Res α) (s : σ) : run M i (.unlock k) s = run M i k s := rfl

/-- **Running is compositional**: a sequence runs its first part, then the rest
from where that ended. -/
theorem run_bind (p : Prog Res α) (f : α → Prog Res β) (s : σ) :
    run M i (p >>= f) s = run M i (f (run M i p s).1) (run M i p s).2 := by
  induction p generalizing s with
  | ret a => rfl
  | op o k ih => exact ih _ _
  | lock k ih => exact ih _
  | unlock k ih => exact ih _

@[simp] theorem run_withLock (p : Prog Res α) (s : σ) :
    run M i (withLock p) s = run M i p (M.acquire i s) := by
  simp only [withLock, run_lock, run_bind, run_unlock, run_ret, Prod.mk.eta]

/-- The operations of the run from `s`, each with the answer it had. -/
def trace : Prog Res α → σ → List (Σ o, Res o)
  | .ret _, _ => []
  | .op o k, s => ⟨o, (M.exec o s).1⟩ :: trace (k (M.exec o s).1) (M.exec o s).2
  | .lock k, s => trace k (M.acquire i s)
  | .unlock k, s => trace k s

@[simp] theorem trace_ret (a : α) (s : σ) : trace M i (.ret a : Prog Res α) s = [] := rfl

@[simp] theorem trace_op (o : Op) (k : Res o → Prog Res α) (s : σ) :
    trace M i (.op o k) s =
      ⟨o, (M.exec o s).1⟩ :: trace M i (k (M.exec o s).1) (M.exec o s).2 := rfl

theorem trace_bind (p : Prog Res α) (f : α → Prog Res β) (s : σ) :
    trace M i (p >>= f) s =
      trace M i p s ++ trace M i (f (run M i p s).1) (run M i p s).2 := by
  induction p generalizing s with
  | ret a => rfl
  | op o k ih => exact congrArg (⟨o, (M.exec o s).1⟩ :: ·) (ih _ _)
  | lock k ih => exact ih _
  | unlock k ih => exact ih _

/-! ## The operations a program can perform -/

/-- Every operation of the program has the property `P`. -/
def Uses (P : Op → Prop) : Prog Res α → Prop
  | .ret _ => True
  | .op o k => P o ∧ ∀ r, Uses P (k r)
  | .lock k => Uses P k
  | .unlock k => Uses P k

variable {P : Op → Prop}

@[simp] theorem uses_ret (a : α) : Uses P (.ret a : Prog Res α) := trivial

theorem Uses.bind {p : Prog Res α} {f : α → Prog Res β} (hp : Uses P p)
    (hf : ∀ a, Uses P (f a)) : Uses P (p >>= f) := by
  induction p with
  | ret a => exact hf a
  | op o k ih => exact ⟨hp.1, fun r => ih r (hp.2 r)⟩
  | lock k ih => exact ih hp
  | unlock k ih => exact ih hp

/-- The program neither takes nor releases the lock. -/
def LockFree : Prog Res α → Prop
  | .ret _ => True
  | .op _ k => ∀ r, LockFree (k r)
  | .lock _ => False
  | .unlock _ => False

@[simp] theorem lockFree_ret (a : α) : LockFree (.ret a : Prog Res α) := trivial

theorem LockFree.bind {p : Prog Res α} {f : α → Prog Res β} (hp : LockFree p)
    (hf : ∀ a, LockFree (f a)) : LockFree (p >>= f) := by
  induction p with
  | ret a => exact hf a
  | op o k ih => exact fun r => ih r (hp r)
  | lock k _ => exact absurd hp id
  | unlock k _ => exact absurd hp id

/-- The program performs operations with the property `P` and nothing else: it
leaves the lock alone. -/
structure Plain (P : Op → Prop) (p : Prog Res α) : Prop where
  uses : Uses P p
  lockFree : LockFree p

theorem Plain.ret (a : α) : Plain P (.ret a : Prog Res α) := ⟨trivial, trivial⟩

theorem Plain.perform_bind {o : Op} {f : Res o → Prog Res β} (h : P o)
    (hf : ∀ r, Plain P (f r)) : Plain P (perform o >>= f) :=
  ⟨⟨h, fun r => (hf r).uses⟩, fun r => (hf r).lockFree⟩

theorem Plain.bind {p : Prog Res α} {f : α → Prog Res β} (hp : Plain P p)
    (hf : ∀ a, Plain P (f a)) : Plain P (p >>= f) :=
  ⟨hp.uses.bind fun a => (hf a).uses, hp.lockFree.bind fun a => (hf a).lockFree⟩

theorem Plain.mono {P' : Op → Prop} (hP : ∀ o, P o → P' o) {p : Prog Res α} (h : Plain P p) :
    Plain P' p := by
  obtain ⟨hu, hl⟩ := h
  induction p with
  | ret a => exact .ret a
  | op o k ih =>
      have hk := fun r => ih r (hu.2 r) (hl r)
      exact ⟨⟨hP o hu.1, fun r => (hk r).uses⟩, fun r => (hk r).lockFree⟩
  | lock k _ => exact absurd hl id
  | unlock k _ => exact absurd hl id

/-- The program takes and releases the lock in turn, starting from holding it or
not; its operations have the property `P` outside the lock and `P'` inside. -/
def Bracketed (P P' : Op → Prop) : Bool → Prog Res α → Prop
  | b, .ret _ => b = false
  | b, .op o k => (if b then P' o else P o) ∧ ∀ r, Bracketed P P' b (k r)
  | b, .lock k => b = false ∧ Bracketed P P' true k
  | b, .unlock k => b = true ∧ Bracketed P P' false k

theorem Bracketed.bind {P' : Op → Prop} {p : Prog Res α} {f : α → Prog Res β} {b : Bool}
    (hp : Bracketed P P' b p) (hf : ∀ a, Bracketed P P' false (f a)) :
    Bracketed P P' b (p >>= f) := by
  induction p generalizing b with
  | ret a =>
      obtain rfl : b = false := hp
      exact hf a
  | op o k ih => exact ⟨hp.1, fun r => ih r (hp.2 r)⟩
  | lock k ih => exact ⟨hp.1, ih hp.2⟩
  | unlock k ih => exact ⟨hp.1, ih hp.2⟩

theorem Bracketed.of_plain {P' : Op → Prop} {p : Prog Res α} (h : Plain P p) :
    Bracketed P P' false p := by
  obtain ⟨hu, hl⟩ := h
  induction p with
  | ret a => rfl
  | op o k ih => exact ⟨hu.1, fun r => ih r (hu.2 r) (hl r)⟩
  | lock k _ => exact absurd hl id
  | unlock k _ => exact absurd hl id

theorem Bracketed.withLock {P' : Op → Prop} {p : Prog Res α} (h : Plain P' p) :
    Bracketed P P' false (withLock p) := by
  refine ⟨rfl, ?_⟩
  obtain ⟨hu, hl⟩ := h
  induction p with
  | ret a => exact ⟨rfl, rfl⟩
  | op o k ih => exact ⟨hu.1, fun r => ih r (hu.2 r) (hl r)⟩
  | lock k _ => exact absurd hl id
  | unlock k _ => exact absurd hl id

theorem Bracketed.mono {P' Q' : Op → Prop} (hP : ∀ o, P' o → Q' o) {p : Prog Res α} {b : Bool}
    (h : Bracketed P P' b p) : Bracketed P Q' b p := by
  induction p generalizing b with
  | ret a => exact h
  | op o k ih =>
      refine ⟨?_, fun r => ih r (h.2 r)⟩
      cases b with
      | false => exact h.1
      | true => exact hP o h.1
  | lock k ih => exact ⟨h.1, ih h.2⟩
  | unlock k ih => exact ⟨h.1, ih h.2⟩

theorem Bracketed.uses {P' Q : Op → Prop} (hP : ∀ o, P o → Q o) (hP' : ∀ o, P' o → Q o)
    {p : Prog Res α} {b : Bool} (h : Bracketed P P' b p) : Uses Q p := by
  induction p generalizing b with
  | ret a => trivial
  | op o k ih =>
      refine ⟨?_, fun r => ih r (h.2 r)⟩
      cases b with
      | false => exact hP o h.1
      | true => exact hP' o h.1
  | lock k ih => exact ih h.2
  | unlock k ih => exact ih h.2

/-- Whatever its operations answer, the program's result has the property `R`. -/
def Yields (R : α → Prop) : Prog Res α → Prop
  | .ret a => R a
  | .op _ k => ∀ r, Yields R (k r)
  | .lock k => Yields R k
  | .unlock k => Yields R k

theorem Yields.perform_bind {R : β → Prop} {o : Op} {f : Res o → Prog Res β}
    (h : ∀ r, Yields R (f r)) : Yields R (perform o >>= f) := h

theorem Yields.bind {R : α → Prop} {R' : β → Prop} {p : Prog Res α} {f : α → Prog Res β}
    (hp : Yields R p) (hf : ∀ a, R a → Yields R' (f a)) : Yields R' (p >>= f) := by
  induction p with
  | ret a => exact hf a hp
  | op o k ih => exact fun r => ih r (hp r)
  | lock k ih => exact ih hp
  | unlock k ih => exact ih hp

theorem Yields.of_forall {R : α → Prop} (h : ∀ a, R a) (p : Prog Res α) : Yields R p := by
  induction p with
  | ret a => exact h a
  | op o k ih => exact fun r => ih r
  | lock k ih => exact ih
  | unlock k ih => exact ih

theorem Yields.run {R : α → Prop} {p : Prog Res α} (h : Yields R p) (s : σ) :
    R (run M i p s).1 := by
  induction p generalizing s with
  | ret a => exact h
  | op o k ih => exact ih _ (h _) _
  | lock k ih => exact ih h _
  | unlock k ih => exact ih h _

/-! ## What a run does on its way -/

/-- Every operation of the run from `s` meets `P` in the state it is performed
in. -/
def Always (P : Op → σ → Prop) : Prog Res α → σ → Prop
  | .ret _, _ => True
  | .op o k, s => P o s ∧ Always P (k (M.exec o s).1) (M.exec o s).2
  | .lock k, s => Always P k (M.acquire i s)
  | .unlock k, s => Always P k s

variable {M i} {P' : Op → σ → Prop}

theorem Always.bind {p : Prog Res α} {f : α → Prog Res β} {s : σ} (hp : Always M i P' p s)
    (hf : Always M i P' (f (run M i p s).1) (run M i p s).2) : Always M i P' (p >>= f) s := by
  induction p generalizing s with
  | ret a => exact hf
  | op o k ih => exact ⟨hp.1, ih _ hp.2 hf⟩
  | lock k ih => exact ih hp hf
  | unlock k ih => exact ih hp hf

theorem Always.withLock {p : Prog Res α} {s : σ} (hp : Always M i P' p (M.acquire i s)) :
    Always M i P' (withLock p) s :=
  Always.bind (p := p) (f := fun a => .unlock (.ret a)) hp trivial

theorem Always.mono {Q : Op → σ → Prop} (h : ∀ o s, P' o s → Q o s) {p : Prog Res α} {s : σ}
    (hp : Always M i P' p s) : Always M i Q p s := by
  induction p generalizing s with
  | ret a => trivial
  | op o k ih => exact ⟨h _ _ hp.1, ih _ hp.2⟩
  | lock k ih => exact ih hp
  | unlock k ih => exact ih hp

theorem Always.of_uses (hop : ∀ o s, P o → P' o s) {p : Prog Res α} (h : Uses P p) (s : σ) :
    Always M i P' p s := by
  induction p generalizing s with
  | ret a => trivial
  | op o k ih => exact ⟨hop _ _ h.1, ih _ (h.2 _) _⟩
  | lock k ih => exact ih h _
  | unlock k ih => exact ih h _

theorem Always.and {Q : Op → σ → Prop} {p : Prog Res α} {s : σ} (hp : Always M i P' p s)
    (hq : Always M i Q p s) : Always M i (fun o s => P' o s ∧ Q o s) p s := by
  induction p generalizing s with
  | ret a => trivial
  | op o k ih => exact ⟨⟨hp.1, hq.1⟩, ih _ hp.2 hq.2⟩
  | lock k ih => exact ih hp hq
  | unlock k ih => exact ih hp hq

/-- **A relation every operation keeps, every run keeps.**  `R` is any reflexive
and transitive relation on states that taking the lock and each operation of the
run respect. -/
theorem Always.run_rel {R : σ → σ → Prop} (hrefl : ∀ s, R s s)
    (htrans : ∀ {a b c}, R a b → R b c → R a c) (hacq : ∀ s, R s (M.acquire i s))
    (hop : ∀ o s, P' o s → R s (M.exec o s).2) {p : Prog Res α} {s : σ} (h : Always M i P' p s) :
    R s (run M i p s).2 := by
  induction p generalizing s with
  | ret a => exact hrefl s
  | op o k ih => exact htrans (hop o s h.1) (ih _ h.2)
  | lock k ih => exact htrans (hacq s) (ih h)
  | unlock k ih => exact ih h

variable (M i)

theorem Uses.run_rel {R : σ → σ → Prop} (hrefl : ∀ s, R s s)
    (htrans : ∀ {a b c}, R a b → R b c → R a c) (hacq : ∀ s, R s (M.acquire i s))
    (hop : ∀ o s, P o → R s (M.exec o s).2) {p : Prog Res α} (h : Uses P p) (s : σ) :
    R s (run M i p s).2 := by
  have halways : Always M i (fun o _ => P o) p s := Always.of_uses (fun _ _ ho => ho) h s
  exact halways.run_rel hrefl htrans hacq hop

end Prog

end Effect
