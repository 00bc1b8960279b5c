import Dvpnd.Lib.Crash

/-!
# Programs that are started again

A program that may die at any point is started again on what it left.  Several starts in a
row are described by what each of them keeps; a start that writes files one after the other
leaves some of them written, perhaps one emptied, and the others as they were.

* `Prog.attempt`, `Prog.attempts` — one start and several, each dying after some number of
  operations or coming to its end; `attempts_invariant`.
* `Prog.steps` — the operations of a run; `cut_bind_steps`, `cut_bind_of_lt`, in which part of
  a sequence a start dies.
* `Partly` — **what a list of writes leaves behind when it may stop at any point**;
  `Safe.each_partly`, the rule for the loop that performs them.
* `Safe.bindExcept`, `Safe.orFail`, `Safe.adapt` — the rules for programs that may fail.
-/

namespace Effect

namespace Prog

variable {Op : Type} {Res : Op → Type} {α β ε ι σ : Type}

/-! ## Starts -/

/-- A start that dies after some number of operations, or comes to its end. -/
def attempt (M : Machine Res ι σ) (i : ι) (p : Prog Res α) (s : σ) : Option Nat → σ
  | some n => p.cut M i n s
  | none => (p.run M i s).2

/-- Starts in a row, each on a machine of its own. -/
def attempts {κ : Type} (M : κ → Machine Res ι σ) (i : ι) (p : Prog Res α)
    (starts : List (κ × Option Nat)) (s : σ) : σ :=
  starts.foldl (fun s start => attempt (M start.1) i p s start.2) s

theorem Safe.attempt {M : Machine Res ι σ} {i : ι} {I : σ → Prop} {p : Prog Res α} {s : σ}
    (h : Safe M i I (fun _ s' => I s') p s) (dies : Option Nat) : I (attempt M i p s dies) := by
  cases dies with
  | none => exact h.run
  | some n => exact h.cut n

/-- **What every start keeps, wherever it dies, any number of them keep**; the machines they
run on may be known to be of a kind. -/
theorem attempts_invariant {κ : Type} {M : κ → Machine Res ι σ} {i : ι} {I : σ → Prop}
    {p : Prog Res α} {K : κ → Prop}
    (h : ∀ k s, K k → I s → Safe (M k) i I (fun _ s' => I s') p s)
    {starts : List (κ × Option Nat)} (hkind : ∀ start ∈ starts, K start.1) {s : σ} (hs : I s) :
    I (attempts M i p starts s) := by
  induction starts generalizing s with
  | nil => exact hs
  | cons start starts ih =>
      refine ih (fun later hlater => hkind later (List.mem_cons_of_mem _ hlater)) ?_
      exact (h start.1 s (hkind start List.mem_cons_self) hs).attempt start.2

theorem attempts_append {κ : Type} (M : κ → Machine Res ι σ) (i : ι) (p : Prog Res α)
    (starts more : List (κ × Option Nat)) (s : σ) :
    attempts M i p (starts ++ more) s = attempts M i p more (attempts M i p starts s) :=
  List.foldl_append

/-! ## Where a start dies -/

/-- The number of operations of the run. -/
def steps (M : Machine Res ι σ) (i : ι) : Prog Res α → σ → Nat
  | .ret _, _ => 0
  | .op o k, s => steps M i (k (M.exec o s).1) (M.exec o s).2 + 1
  | .lock k, s => steps M i k (M.acquire i s)
  | .unlock k, s => steps M i k s

section Steps

variable (M : Machine Res ι σ) (i : ι)

theorem steps_bind (p : Prog Res α) (f : α → Prog Res β) (s : σ) :
    (p >>= f).steps M i s = p.steps M i s + (f (p.run M i s).1).steps M i (p.run M i s).2 := by
  induction p generalizing s with
  | ret a => exact (Nat.zero_add _).symm
  | op o k ih => exact (congrArg (· + 1) (ih _ _)).trans (Nat.add_right_comm _ _ _)
  | lock k ih => exact ih _
  | unlock k ih => exact ih _

theorem steps_le_bind (p : Prog Res α) (f : α → Prog Res β) (s : σ) :
    p.steps M i s ≤ (p >>= f).steps M i s := by
  rw [steps_bind]
  exact Nat.le_add_right _ _

/-- A sequence that dies in its second part. -/
theorem cut_bind_steps (p : Prog Res α) (f : α → Prog Res β) (n : Nat) (s : σ) :
    (p >>= f).cut M i (p.steps M i s + n) s =
      (f (p.run M i s).1).cut M i n (p.run M i s).2 := by
  induction p generalizing s with
  | ret a => exact congrArg ((f a).cut M i · s) (Nat.zero_add n)
  | op o k ih =>
      rw [steps, Nat.add_right_comm]
      exact ih _ _
  | lock k ih => exact ih _
  | unlock k ih => exact ih _

/-- A sequence that dies in its first part. -/
theorem cut_bind_of_lt {p : Prog Res α} (f : α → Prog Res β) {n : Nat} {s : σ}
    (h : n < p.steps M i s) : (p >>= f).cut M i n s = p.cut M i n s := by
  induction p generalizing n s with
  | ret a => exact absurd h (Nat.not_lt_zero n)
  | op o k ih =>
      cases n with
      | zero => rfl
      | succ n => exact ih _ (Nat.lt_of_succ_lt_succ h)
  | lock k ih => exact ih h
  | unlock k ih => exact ih h

end Steps

/-! ## Programs that may fail -/

/-- A program that returned an error fails with it. -/
def orFail (p : Prog Res (Option ε)) : ExceptT ε (Prog Res) Unit :=
  ExceptT.mk (p >>= fun
    | some e => .ret (.error e)
    | none => .ret (.ok ()))

/-- A result that is an error fails with it. -/
def ofExcept (r : Except ε α) : ExceptT ε (Prog Res) α := ExceptT.mk (.ret r)

section Except

variable {M : Machine Res ι σ} {i : ι} {I : σ → Prop} {s : σ}

/-- **The rule for sequences of programs that may fail.** -/
theorem Safe.bindExcept {Q : Except ε α → σ → Prop} {R : Except ε β → σ → Prop}
    {p : ExceptT ε (Prog Res) α} {f : α → ExceptT ε (Prog Res) β} (hp : Safe M i I Q p.run s)
    (hok : ∀ a s', Q (.ok a) s' → Safe M i I R (f a).run s')
    (herr : ∀ e s', Q (.error e) s' → I s' ∧ R (.error e) s') :
    Safe M i I R (p >>= f).run s := by
  refine Safe.bind (p := p.run) hp fun r s' hr => ?_
  cases r with
  | ok a => exact hok a s' hr
  | error e => exact .ret (herr e s' hr).1 (herr e s' hr).2

theorem Safe.orFail {Q : Option ε → σ → Prop} {R : Except ε Unit → σ → Prop}
    {p : Prog Res (Option ε)} (hp : Safe M i I Q p s)
    (hnone : ∀ s', Q none s' → I s' ∧ R (.ok ()) s')
    (hsome : ∀ e s', Q (some e) s' → I s' ∧ R (.error e) s') :
    Safe M i I R (orFail p).run s := by
  refine Safe.bind hp fun r s' hr => ?_
  cases r with
  | none => exact .ret (hnone s' hr).1 (hnone s' hr).2
  | some e => exact .ret (hsome e s' hr).1 (hsome e s' hr).2

/-- Where a sequence of programs that may fail dies. -/
theorem cut_bindExcept_steps {p : ExceptT ε (Prog Res) α} (f : α → ExceptT ε (Prog Res) β) {a : α}
    (h : (p.run.run M i s).1 = .ok a) (n : Nat) :
    (p >>= f).run.cut M i (p.run.steps M i s + n) s =
      (f a).run.cut M i n (p.run.run M i s).2 := by
  have hcont : (f a).run = ExceptT.bindCont f (p.run.run M i s).1 := by rw [h]; rfl
  rw [hcont]
  exact cut_bind_steps M i p.run (ExceptT.bindCont f) n s

theorem steps_bindExcept {p : ExceptT ε (Prog Res) α} (f : α → ExceptT ε (Prog Res) β) {a : α}
    (h : (p.run.run M i s).1 = .ok a) :
    (p >>= f).run.steps M i s =
      p.run.steps M i s + (f a).run.steps M i (p.run.run M i s).2 := by
  have hcont : (f a).run = ExceptT.bindCont f (p.run.run M i s).1 := by rw [h]; rfl
  rw [hcont]
  exact steps_bind M i p.run (ExceptT.bindCont f) s

/-- An error that is put into other words. -/
theorem Safe.adapt {Q : Except ε α → σ → Prop} {p : ExceptT ε (Prog Res) α} (g : ε → ε)
    (hp : Safe M i I Q p.run s) (hI : ∀ r s', Q r s' → I s') :
    Safe M i I (fun r s' => ∃ r', Q r' s' ∧ r = r'.mapError g) (p.adapt g).run s := by
  refine Safe.bind hp fun r s' hr => ?_
  exact .ret (hI r s' hr) ⟨r, hr, rfl⟩

end Except

end Prog

/-! ## Files written one after the other -/

section Partly

variable {κ β : Type} [DecidableEq κ]

/-- What writes of `xs` leave behind when they may stop at any point and a file is emptied
before it is written: what was there, some of the files written, or one emptied besides. -/
inductive Partly (empty : β) : List (κ × β) → (κ → Option β) → (κ → Option β) → Prop
  | untouched {xs : List (κ × β)} {files : κ → Option β} : Partly empty xs files files
  | emptied {x : κ × β} {xs : List (κ × β)} {files : κ → Option β} :
      Partly empty (x :: xs) files (Function.update files x.1 (some empty))
  | written {x : κ × β} {xs : List (κ × β)} {files files' : κ → Option β}
      (h : Partly empty xs (Function.update files x.1 (some x.2)) files') :
      Partly empty (x :: xs) files files'

/-- What they leave when they all go through. -/
def writeAll (xs : List (κ × β)) (files : κ → Option β) : κ → Option β :=
  xs.foldl (fun files x => Function.update files x.1 (some x.2)) files

variable {empty : β}

theorem Partly.cons_of_singleton {x : κ × β} (xs : List (κ × β)) {files files' : κ → Option β}
    (h : Partly empty [x] files files') : Partly empty (x :: xs) files files' := by
  cases h with
  | untouched => exact .untouched
  | emptied => exact .emptied
  | written h =>
      cases h with
      | untouched => exact .written .untouched

namespace Prog

variable {Op : Type} {Res : Op → Type} {ε ι σ : Type} {M : Machine Res ι σ} {i : ι}

/-- **The rule for the loop that writes them**: what the program for one of them leaves, and
what its result says, `E`, are those of the loop. -/
theorem Safe.each_partly {view : σ → κ → Option β} {E : Option ε → Prop} (hE : E none)
    {f : κ × β → Prog Res (Option ε)}
    (hf : ∀ x s, Safe M i (fun s' => Partly empty [x] (view s) (view s'))
      (fun r s' => Partly empty [x] (view s) (view s') ∧ E r ∧
        (r = none → view s' = Function.update (view s) x.1 (some x.2))) (f x) s)
    (xs : List (κ × β)) (s : σ) :
    Safe M i (fun s' => Partly empty xs (view s) (view s'))
      (fun r s' => Partly empty xs (view s) (view s') ∧ E r ∧
        (r = none → view s' = writeAll xs (view s))) (Prog.each f xs) s := by
  induction xs generalizing s with
  | nil => exact .ret .untouched ⟨.untouched, hE, fun _ => rfl⟩
  | cons x xs ih =>
      refine Safe.bind ((hf x s).mono (fun _ h => h.cons_of_singleton xs) fun _ _ h => h) ?_
      rintro r s' ⟨hpart, hr, hdone⟩
      cases r with
      | some e =>
          have hpart' := hpart.cons_of_singleton xs
          exact .ret hpart' ⟨hpart', hr, nofun⟩
      | none =>
          have hrest := ih s'
          rw [hdone rfl] at hrest
          exact hrest.mono (fun _ h => .written h) fun _ _ h => ⟨.written h.1, h.2⟩

end Prog

end Partly

end Effect
