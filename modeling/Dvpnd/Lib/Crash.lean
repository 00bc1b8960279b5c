import Dvpnd.Lib.Prog

/-!
# Programs that may be cut off

A program that is run alone may stop between any two of its operations and leave the state
as it is then.  What such a program is proved to do has two parts: **what holds wherever it
stops**, and what holds at its end.

* `Prog.cut` — the state a run that is cut off leaves behind.
* `Prog.Safe` — the two parts, with a rule for each way programs are put together:
  `Safe.ret`, `Safe.op`, `Safe.bind`.
* `Prog.outcome`, `Safe.outcome` — a run that may or may not be cut off.
* `Prog.each`, `Safe.each` — a loop that stops at the first error, and its rule, with an
  invariant about the items that are done; `Prog.andThen` — one program after another that
  returned no error.
* `Prog.Visits` — a state in which a run is at some time, where taking the lock changes nothing.
* `Uses.cut_rel` — what each operation keeps, a run keeps wherever it stops.
* `Machine.copies`, `Prog.at`, `Safe.at` — many copies of a machine side by side: a program
  for one of them leaves the others alone.
* `Machine.beside`, `Prog.inner`, `Safe.inner` — a machine with further operations beside its
  own: a program of its own leaves their state alone.
-/

namespace Effect

namespace Prog

variable {Op : Type} {Res : Op → Type} {α β ι σ : Type}

/-- The state in which a run stops after `n` operations, or its last. -/
def cut (M : Machine Res ι σ) (i : ι) : Prog Res α → Nat → σ → σ
  | .ret _, _, s => s
  | .op _ _, 0, s => s
  | .op o k, n + 1, s => cut M i (k (M.exec o s).1) n (M.exec o s).2
  | .lock k, n, s => cut M i k n (M.acquire i s)
  | .unlock k, n, s => cut M i k n s

variable (M : Machine Res ι σ) (i : ι)

/-- Cut off from `s` on wherever it may be, the program leaves a state with `I`; run to its
end, it returns a result and leaves a state with `Q`. -/
structure Safe (I : σ → Prop) (Q : α → σ → Prop) (p : Prog Res α) (s : σ) : Prop where
  cut : ∀ n, I (p.cut M i n s)
  run : Q (p.run M i s).1 (p.run M i s).2

variable {M i} {I : σ → Prop} {Q : α → σ → Prop}

theorem Safe.ret {a : α} {s : σ} (hI : I s) (hQ : Q a s) : Safe M i I Q (.ret a) s :=
  ⟨fun _ => hI, hQ⟩

theorem Safe.op {o : Op} {k : Res o → Prog Res α} {s : σ} (hI : I s)
    (h : Safe M i I Q (k (M.exec o s).1) (M.exec o s).2) : Safe M i I Q (.op o k) s where
  cut n := by
    cases n with
    | zero => exact hI
    | succ n => exact h.cut n
  run := h.run

theorem Safe.mono {I' : σ → Prop} {Q' : α → σ → Prop} {p : Prog Res α} {s : σ}
    (h : Safe M i I Q p s) (hI : ∀ s, I s → I' s) (hQ : ∀ a s, Q a s → Q' a s) :
    Safe M i I' Q' p s :=
  ⟨fun n => hI _ (h.cut n), hQ _ _ h.run⟩

/-- A sequence that is cut off is so in its first part or in the second. -/
theorem cut_bind (p : Prog Res α) (f : α → Prog Res β) (n : Nat) (s : σ) :
    (∃ m, (p >>= f).cut M i n s = p.cut M i m s) ∨
      ∃ m, (p >>= f).cut M i n s = (f (p.run M i s).1).cut M i m (p.run M i s).2 := by
  induction p generalizing n s with
  | ret a => exact .inr ⟨n, rfl⟩
  | op o k ih =>
      cases n with
      | zero => exact .inl ⟨0, rfl⟩
      | succ n =>
          rcases ih (M.exec o s).1 n (M.exec o s).2 with ⟨m, hm⟩ | ⟨m, hm⟩
          · exact .inl ⟨m + 1, hm⟩
          · exact .inr ⟨m, hm⟩
  | lock k ih => exact ih n (M.acquire i s)
  | unlock k ih => exact ih n s

/-- **The rule for sequences.** -/
theorem Safe.bind {R : β → σ → Prop} {p : Prog Res α} {f : α → Prog Res β} {s : σ}
    (hp : Safe M i I Q p s) (hf : ∀ a s', Q a s' → Safe M i I R (f a) s') :
    Safe M i I R (p >>= f) s where
  cut n := by
    rcases cut_bind (M := M) (i := i) p f n s with ⟨m, hm⟩ | ⟨m, hm⟩
    · rw [hm]
      exact hp.cut m
    · rw [hm]
      exact (hf _ _ hp.run).cut m
  run := by
    rw [run_bind]
    exact (hf _ _ hp.run).run

variable (M i) in
/-- Run a program to its end, with its result, or up to where it stops. -/
def outcome (p : Prog Res α) (stop : Option Nat) (s : σ) : Option α × σ :=
  match stop with
  | none => (some (p.run M i s).1, (p.run M i s).2)
  | some n => (none, p.cut M i n s)

theorem Safe.outcome {p : Prog Res α} {s : σ} (h : Safe M i I Q p s) (hQ : ∀ a s, Q a s → I s)
    (stop : Option Nat) : I (p.outcome M i stop s).2 ∧
      (∀ a, (p.outcome M i stop s).1 = some a → Q a (p.outcome M i stop s).2) ∧
      (stop = none → ∃ a, (p.outcome M i stop s).1 = some a) := by
  cases stop with
  | none => exact ⟨hQ _ _ h.run, fun a ha => Option.some.inj ha ▸ h.run, fun _ => ⟨_, rfl⟩⟩
  | some n => exact ⟨h.cut n, nofun, nofun⟩

/-! ## Errors and loops -/

/-- Go on with a second program unless the first returned an error. -/
def andThen {ε : Type} (p q : Prog Res (Option ε)) : Prog Res (Option ε) :=
  p >>= fun
    | some e => .ret (some e)
    | none => q

/-- Run a program for each item, up to the first error. -/
def each {ε γ : Type} (f : γ → Prog Res (Option ε)) : List γ → Prog Res (Option ε)
  | [] => .ret none
  | x :: xs => (f x).andThen (each f xs)

variable {ε γ : Type}

/-- The program returns no error and leaves a state with `J`. -/
def Fine (J : σ → Prop) : Option ε → σ → Prop := fun r s => r = none ∧ J s

theorem Safe.andThen {J J' : σ → Prop} {p q : Prog Res (Option ε)} {s : σ}
    (hp : Safe M i I (Fine J) p s) (hq : ∀ s', J s' → Safe M i I (Fine J') q s') :
    Safe M i I (Fine J') (p.andThen q) s := by
  refine hp.bind fun r s' h => ?_
  obtain ⟨rfl, hJ⟩ := h
  exact hq s' hJ

/-- **The rule for loops**: `J done` holds when the items of `done` have had their turn. -/
theorem Safe.each {J : List γ → σ → Prop} {f : γ → Prog Res (Option ε)} {xs : List γ} {s : σ}
    (hI : ∀ s, J xs s → I s) (hs : J [] s)
    (hstep : ∀ done x rest s, xs = done ++ x :: rest → J done s →
      Safe M i I (Fine (J (done ++ [x]))) (f x) s) :
    Safe M i I (Fine (J xs)) (each f xs) s := by
  suffices h : ∀ done rest s, xs = done ++ rest → J done s →
      Safe M i I (Fine (J xs)) (Prog.each f rest) s from h [] xs s rfl hs
  intro done rest s heq hJ
  induction rest generalizing done s with
  | nil =>
      rw [List.append_nil] at heq
      exact .ret (hI s (heq ▸ hJ)) ⟨rfl, heq ▸ hJ⟩
  | cons x rest ih =>
      refine (hstep done x rest s heq hJ).andThen fun s' hJ' => ?_
      exact ih (done ++ [x]) s' (by rw [heq, List.append_assoc]; rfl) hJ'

/-! ## States in between -/

section Visits

variable (M i) in
/-- The run is in the state at some time: before an operation, or at its end. -/
def Visits (p : Prog Res α) (s s' : σ) : Prop := ∃ n, p.cut M i n s = s'

variable (hacq : ∀ s, M.acquire i s = s)

include hacq

theorem cut_zero (p : Prog Res α) (s : σ) : p.cut M i 0 s = s := by
  induction p with
  | ret a | op o k _ => rfl
  | lock k ih =>
      rw [cut, hacq]
      exact ih
  | unlock k ih => exact ih

/-- What the first part of a sequence visits. -/
theorem Visits.left {p : Prog Res α} {s s' : σ} (h : Visits M i p s s') (f : α → Prog Res β) :
    Visits M i (p >>= f) s s' := by
  obtain ⟨n, rfl⟩ := h
  induction p generalizing n s with
  | ret a => exact ⟨0, cut_zero hacq (f a) s⟩
  | op o k ih =>
      cases n with
      | zero => exact ⟨0, rfl⟩
      | succ n =>
          obtain ⟨m, hm⟩ := ih (M.exec o s).1 n
          exact ⟨m + 1, hm⟩
  | lock k ih => exact ih n
  | unlock k ih => exact ih n

omit hacq in
/-- What the second part visits. -/
theorem Visits.right {p : Prog Res α} {f : α → Prog Res β} {s s' : σ}
    (h : Visits M i (f (p.run M i s).1) (p.run M i s).2 s') : Visits M i (p >>= f) s s' := by
  induction p generalizing s with
  | ret a => exact h
  | op o k ih =>
      obtain ⟨m, hm⟩ := ih (M.exec o s).1 h
      exact ⟨m + 1, hm⟩
  | lock k ih => exact ih h
  | unlock k ih => exact ih h

omit hacq in
/-- The state at the end. -/
theorem Visits.run (p : Prog Res α) (s : σ) : Visits M i p s (p.run M i s).2 := by
  induction p generalizing s with
  | ret a => exact ⟨0, rfl⟩
  | op o k ih =>
      obtain ⟨m, hm⟩ := ih (M.exec o s).1 (M.exec o s).2
      exact ⟨m + 1, hm⟩
  | lock k ih => exact ih _
  | unlock k ih => exact ih _

end Visits

/-! ## What the operations keep -/

section Uses

variable {P : Op → Prop}

/-- What each operation does to the state, and any two in turn, so does a run that is cut
off. -/
theorem Uses.cut_rel (M : Machine Res ι σ) (i : ι) {R : σ → σ → Prop} (hrefl : ∀ s, R s s)
    (htrans : ∀ {a b c}, R a b → R b c → R a c) (hacq : ∀ s, R s (M.acquire i s))
    (hop : ∀ o s, P o → R s (M.exec o s).2) {p : Prog Res α} (h : Uses P p) (n : Nat) (s : σ) :
    R s (p.cut M i n s) := by
  induction p generalizing n s with
  | ret a => exact hrefl s
  | op o k ih =>
      cases n with
      | zero => exact hrefl s
      | succ n => exact htrans (hop o s h.1) (ih _ (h.2 _) n _)
  | lock k ih => exact htrans (hacq s) (ih h n _)
  | unlock k ih => exact ih h n s

theorem Uses.mono {P' : Op → Prop} {p : Prog Res α} (h : Uses P p) (hP : ∀ o, P o → P' o) :
    Uses P' p := by
  induction p with
  | ret a => trivial
  | op o k ih => exact ⟨hP o h.1, fun r => ih r (h.2 r)⟩
  | lock k ih => exact ih h
  | unlock k ih => exact ih h

theorem Uses.andThen {p q : Prog Res (Option ε)} (hp : Uses P p) (hq : Uses P q) :
    Uses P (p.andThen q) := by
  refine hp.bind fun r => ?_
  cases r with
  | none => exact hq
  | some e => trivial

theorem Uses.each {f : γ → Prog Res (Option ε)} {xs : List γ} (h : ∀ x ∈ xs, Uses P (f x)) :
    Uses P (each f xs) := by
  induction xs with
  | nil => trivial
  | cons x xs ih =>
      exact (h x List.mem_cons_self).andThen (ih fun y hy => h y (List.mem_cons_of_mem _ hy))

end Uses

end Prog

/-! ## Copies of a machine -/

section Copies

variable {Op ρ κ ι σ α : Type} [DecidableEq κ]

/-- Copies of a machine, each operation being for one of them. -/
def Machine.copies (M : Machine (fun _ : Op => ρ) ι σ) :
    Machine (fun _ : κ × Op => ρ) ι (κ → σ) where
  exec o w := ((M.exec o.2 (w o.1)).1, Function.update w o.1 (M.exec o.2 (w o.1)).2)
  acquire i w := fun c => M.acquire i (w c)

/-- A program for one copy. -/
def Prog.at (c : κ) : Prog (fun _ : Op => ρ) α → Prog (fun _ : κ × Op => ρ) α
  | .ret a => .ret a
  | .op o k => .op (c, o) fun r => (k r).at c
  | .lock k => .lock (k.at c)
  | .unlock k => .unlock (k.at c)

omit [DecidableEq κ] in
theorem Prog.Uses.at {P : Op → Prop} {p : Prog (fun _ : Op => ρ) α} (h : Uses P p) (c : κ) :
    Uses (fun o : κ × Op => P o.2) (p.at c) := by
  induction p with
  | ret a => trivial
  | op o k ih => exact ⟨h.1, fun r => ih r (h.2 r)⟩
  | lock k ih => exact ih h
  | unlock k ih => exact ih h

variable {M : Machine (fun _ : Op => ρ) ι σ} {i : ι} (hacq : ∀ s, M.acquire i s = s)

include hacq

theorem Prog.cut_at (c : κ) (p : Prog (fun _ : Op => ρ) α) (n : Nat) (w : κ → σ) :
    (p.at c).cut M.copies i n w = Function.update w c (p.cut M i n (w c)) := by
  induction p generalizing n w with
  | ret a => exact (Function.update_eq_self c w).symm
  | op o k ih =>
      cases n with
      | zero => exact (Function.update_eq_self c w).symm
      | succ n =>
          refine (ih _ n _).trans ?_
          simp only [Machine.copies, Function.update_self, Function.update_idem, cut]
  | lock k ih =>
      have hall : M.copies.acquire i w = w := funext fun d => hacq (w d)
      simp only [Prog.at, cut, hall, hacq]
      exact ih n w
  | unlock k ih => exact ih n w

theorem Prog.run_at (c : κ) (p : Prog (fun _ : Op => ρ) α) (w : κ → σ) :
    (p.at c).run M.copies i w = ((p.run M i (w c)).1, Function.update w c (p.run M i (w c)).2) := by
  induction p generalizing w with
  | ret a => exact congrArg (Prod.mk a) (Function.update_eq_self c w).symm
  | op o k ih =>
      refine (ih _ _).trans ?_
      simp only [Machine.copies, Function.update_self, Function.update_idem, run_op]
  | lock k ih =>
      have hall : M.copies.acquire i w = w := funext fun d => hacq (w d)
      simp only [Prog.at, run_lock, hall, hacq]
      exact ih w
  | unlock k ih => exact ih w

/-- **A program for one copy leaves the others alone.** -/
theorem Prog.Safe.at {I : σ → Prop} {Q : α → σ → Prop} {p : Prog (fun _ : Op => ρ) α} {c : κ}
    {w : κ → σ} (h : Safe M i I Q p (w c)) :
    Safe M.copies i (fun w' => (∀ d, d ≠ c → w' d = w d) ∧ I (w' c))
      (fun a w' => (∀ d, d ≠ c → w' d = w d) ∧ Q a (w' c)) (p.at c) w where
  cut n := by
    rw [cut_at hacq, Function.update_self]
    exact ⟨fun d hd => Function.update_of_ne hd _ _, h.cut n⟩
  run := by
    rw [run_at hacq]
    refine ⟨fun d hd => Function.update_of_ne hd _ _, ?_⟩
    dsimp only
    rw [Function.update_self]
    exact h.run

/-- **A loop over copies**, each of which has a turn: `K x` holds of its copy until then, `I x`
at any time, and `P x` once its program has run. -/
theorem Prog.Safe.each_at {ε γ : Type} {K I P : γ → σ → Prop} {key : γ → κ}
    {p : γ → Prog (fun _ : Op => ρ) (Option ε)} {xs : List γ} (hkeys : (xs.map key).Nodup)
    (hK : ∀ x s, K x s → I x s) (hP : ∀ x s, P x s → I x s)
    (hp : ∀ x ∈ xs, ∀ s, K x s → Safe M i (I x) (Fine (P x)) (p x) s) {w : κ → σ}
    (hw : ∀ x ∈ xs, K x (w (key x))) :
    Safe M.copies i (fun w => ∀ x ∈ xs, I x (w (key x)))
      (Fine fun w => ∀ x ∈ xs, P x (w (key x))) (Prog.each (fun x => (p x).at (key x)) xs) w := by
  have hinj := List.inj_on_of_nodup_map hkeys
  have hnodup : xs.Nodup := hkeys.of_map key
  refine (Safe.each (J := fun done w => (∀ x ∈ done, P x (w (key x))) ∧
    ∀ x ∈ xs, x ∉ done → K x (w (key x))) (fun w hJ x hx => hP x _ (hJ.1 x hx))
    ⟨fun _ h => absurd h List.not_mem_nil, fun x hx _ => hw x hx⟩ ?_).mono (fun _ h => h)
    fun _ _ h => ⟨h.1, h.2.1⟩
  intro done x rest w' heq hJ
  have hx : x ∈ xs := heq ▸ List.mem_append_right _ List.mem_cons_self
  have hnew : x ∉ done := by
    rw [heq] at hnodup
    exact fun hin => List.disjoint_of_nodup_append hnodup hin List.mem_cons_self
  have hdone : ∀ y ∈ done, y ∈ xs := fun y hy => heq ▸ List.mem_append_left _ hy
  refine ((hp x hx _ (hJ.2 x hx hnew)).at hacq).mono ?_ ?_
  · rintro w'' ⟨hframe, hIx⟩ y hy
    by_cases hyx : y = x
    · exact hyx ▸ hIx
    · rw [hframe _ fun hkey => hyx (hinj hy hx hkey)]
      by_cases hyd : y ∈ done
      · exact hP y _ (hJ.1 y hyd)
      · exact hK y _ (hJ.2 y hy hyd)
  · rintro r w'' ⟨hframe, hr, hPx⟩
    refine ⟨hr, fun y hy => ?_, fun y hy hnot => ?_⟩
    · rcases List.mem_append.1 hy with hyd | hyx
      · rw [hframe _ fun hkey => hnew (hinj (hdone y hyd) hx hkey ▸ hyd)]
        exact hJ.1 y hyd
      · exact List.mem_singleton.1 hyx ▸ hPx
    · have hyx : y ≠ x := fun h => hnot (h ▸ List.mem_append_right _ List.mem_cons_self)
      rw [hframe _ fun hkey => hyx (hinj hy hx hkey)]
      exact hJ.2 y hy fun hyd => hnot (List.mem_append_left _ hyd)

/-- **A loop over copies visits what the program of each one visits**, if none returns an
error. -/
theorem Prog.Visits.each_at {ε γ : Type} (key : γ → κ) (p : γ → Prog (fun _ : Op => ρ) (Option ε))
    {xs : List γ} {w : κ → σ} (hkeys : (xs.map key).Nodup)
    (hfine : ∀ x ∈ xs, ((p x).run M i (w (key x))).1 = none) {x : γ} (hx : x ∈ xs) {s' : σ}
    (h : Visits M i (p x) (w (key x)) s') :
    ∃ w', Visits M.copies i (Prog.each (fun x => (p x).at (key x)) xs) w w' ∧ w' (key x) = s' := by
  have hall : ∀ w : κ → σ, M.copies.acquire i w = w := fun w => funext fun d => hacq (w d)
  induction xs generalizing w with
  | nil => exact absurd hx List.not_mem_nil
  | cons y ys ih =>
      obtain ⟨hnew, hkeys'⟩ := List.nodup_cons.1 hkeys
      have hrun := run_at hacq (key y) (p y) w
      rcases List.mem_cons.1 hx with rfl | hxs
      · obtain ⟨n, hn⟩ := h
        refine ⟨Function.update w (key x) s', Visits.left hall ⟨n, ?_⟩ _, Function.update_self ..⟩
        rw [cut_at hacq, hn]
      · -- the others are as they were when their turn comes
        have hframe : ∀ z ∈ ys, (((p y).at (key y)).run M.copies i w).2 (key z) = w (key z) := by
          intro z hz
          have hne : key z ≠ key y := fun heq => hnew (heq ▸ List.mem_map_of_mem hz)
          rw [hrun]
          exact Function.update_of_ne hne _ _
        have hfine' : ∀ z ∈ ys,
            ((p z).run M i ((((p y).at (key y)).run M.copies i w).2 (key z))).1 = none := by
          intro z hz
          rw [hframe z hz]
          exact hfine z (List.mem_cons_of_mem _ hz)
        have hx' : Visits M i (p x) ((((p y).at (key y)).run M.copies i w).2 (key x)) s' := by
          rwa [hframe x hxs]
        obtain ⟨w', hvisits, hw'⟩ := ih hkeys' hfine' hxs hx'
        refine ⟨w', Visits.right ?_, hw'⟩
        have hnone : (((p y).at (key y)).run M.copies i w).1 = none := by
          rw [hrun]
          exact hfine y List.mem_cons_self
        rw [hnone]
        exact hvisits

end Copies

/-! ## Other operations beside a machine -/

section Beside

variable {Op κ ρ ι σ τ α : Type}

/-- A machine with further operations.  They have a state of their own, and may act on the
machine's too. -/
def Machine.beside (M : Machine (fun _ : Op => ρ) ι σ) (other : κ → σ × τ → ρ × σ × τ) :
    Machine (fun _ : Op ⊕ κ => ρ) ι (σ × τ) where
  exec o s :=
    match o with
    | .inl o => ((M.exec o s.1).1, (M.exec o s.1).2, s.2)
    | .inr k => other k s
  acquire i s := (M.acquire i s.1, s.2)

/-- A program of the machine. -/
def Prog.inner : Prog (fun _ : Op => ρ) α → Prog (fun _ : Op ⊕ κ => ρ) α
  | .ret a => .ret a
  | .op o k => .op (.inl o) fun r => (k r).inner
  | .lock k => .lock k.inner
  | .unlock k => .unlock k.inner

/-- One of the further operations. -/
def Prog.outer (k : κ) : Prog (fun _ : Op ⊕ κ => ρ) ρ := Prog.perform (.inr k)

variable {M : Machine (fun _ : Op => ρ) ι σ} {i : ι} {other : κ → σ × τ → ρ × σ × τ}

theorem Prog.cut_inner (p : Prog (fun _ : Op => ρ) α) (n : Nat) (s : σ) (t : τ) :
    p.inner.cut (M.beside other) i n (s, t) = (p.cut M i n s, t) := by
  induction p generalizing n s with
  | ret a => rfl
  | op o k ih =>
      cases n with
      | zero => rfl
      | succ n => exact ih (M.exec o s).1 n (M.exec o s).2
  | lock k ih => exact ih n (M.acquire i s)
  | unlock k ih => exact ih n s

theorem Prog.run_inner (p : Prog (fun _ : Op => ρ) α) (s : σ) (t : τ) :
    p.inner.run (M.beside other) i (s, t) = ((p.run M i s).1, (p.run M i s).2, t) := by
  induction p generalizing s with
  | ret a => rfl
  | op o k ih => exact ih (M.exec o s).1 (M.exec o s).2
  | lock k ih => exact ih (M.acquire i s)
  | unlock k ih => exact ih s

/-- **A program of the machine leaves the other state alone.** -/
theorem Prog.Safe.inner {I : σ → Prop} {Q : α → σ → Prop} {p : Prog (fun _ : Op => ρ) α} {s : σ}
    (h : Safe M i I Q p s) (t : τ) :
    Safe (M.beside other) i (fun x => I x.1 ∧ x.2 = t) (fun a x => Q a x.1 ∧ x.2 = t) p.inner
      (s, t) where
  cut n := by
    rw [cut_inner]
    exact ⟨h.cut n, rfl⟩
  run := by
    rw [run_inner]
    exact ⟨h.run, rfl⟩

end Beside

end Effect
