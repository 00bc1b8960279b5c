import Mathlib.Data.List.Forall2

/-!
# Reading a string of bytes from its front

A parser takes bytes from the front and leaves the rest.  What a parser does should depend on
the bytes it takes and on nothing behind them; then bytes that end too early are refused, since
they could still go on either way.

* `Accepts` — the parser takes exactly these bytes, whatever follows.
* `Takes` — it does so under a condition, and refuses them, whatever follows, without it.
* `Reads` — every success is of this kind; `Takes.cut_off` — **what is cut off inside such
  bytes is refused**.
* `consumeAll` — a loop over the whole string: `consumeAll_chain` follows it over pieces that
  are accepted, `consumeAll_ends` bounds its rounds, and `consumeAll_cut_off` is about a last
  piece that is not complete.
-/

namespace Parsing

/-- A parser, with its errors. -/
abbrev Parser (ε α : Type) := StateT (List UInt8) (Except ε) α

variable {ε α β σ : Type}

/-! ## One parser -/

/-- Exactly these bytes are taken, whatever follows. -/
def Accepts (p : Parser ε α) (b : List UInt8) (a : α) : Prop :=
  ∀ rest, p.run (b ++ rest) = .ok (a, rest)

/-- These bytes are taken if `ok`, and refused otherwise. -/
def Takes (ok : Prop) (p : Parser ε α) (b : List UInt8) (a : α) : Prop :=
  Accepts p b a ∨ ¬ ok ∧ ∀ rest, ∃ e, p.run (b ++ rest) = .error e

/-- What is taken decides alone. -/
def Reads (p : Parser ε α) : Prop :=
  ∀ b a rest, p.run b = .ok (a, rest) → ∃ used, b = used ++ rest ∧ Accepts p used a

/-- A byte at least is taken. -/
def Advances (p : Parser ε α) : Prop :=
  ∀ b a rest, p.run b = .ok (a, rest) → rest.length < b.length

/-- The error `stuck` does not come up on up to `n` bytes. -/
def Ends (stuck : ε) (n : Nat) (p : Parser ε α) : Prop :=
  ∀ b, b.length ≤ n → p.run b ≠ .error stuck

/-- A sequence that succeeds does so step by step. -/
theorem run_bind_ok {p : Parser ε α} {f : α → Parser ε β} {b rest : List UInt8} {x : β}
    (h : (p >>= f).run b = .ok (x, rest)) :
    ∃ a mid, p.run b = .ok (a, mid) ∧ (f a).run mid = .ok (x, rest) := by
  rw [StateT.run_bind] at h
  cases hp : p.run b with
  | error e =>
      rw [hp] at h
      cases h
  | ok r =>
      rw [hp] at h
      exact ⟨r.1, r.2, rfl, h⟩

theorem run_bind_of_ok {p : Parser ε α} {f : α → Parser ε β} {b mid : List UInt8} {a : α}
    (h : p.run b = .ok (a, mid)) : (p >>= f).run b = (f a).run mid := by
  rw [StateT.run_bind, h]
  rfl

theorem run_bind_of_error {p : Parser ε α} {f : α → Parser ε β} {b : List UInt8} {e : ε}
    (h : p.run b = .error e) : (p >>= f).run b = .error e := by
  rw [StateT.run_bind, h]
  rfl

/-! ### Accepted bytes -/

theorem accepts_pure (a : α) : Accepts (pure a : Parser ε α) [] a := fun _ => rfl

theorem Accepts.bind {p : Parser ε α} {f : α → Parser ε β} {b b' : List UInt8} {a : α} {x : β}
    (hp : Accepts p b a) (hf : Accepts (f a) b' x) : Accepts (p >>= f) (b ++ b') x := by
  intro rest
  rw [List.append_assoc, run_bind_of_ok (hp (b' ++ rest)), hf rest]

theorem Accepts.takes {ok : Prop} {p : Parser ε α} {b : List UInt8} {a : α} (h : Accepts p b a) :
    Takes ok p b a :=
  .inl h

theorem Takes.accepts {ok : Prop} {p : Parser ε α} {b : List UInt8} {a : α} (h : Takes ok p b a)
    (hok : ok) : Accepts p b a :=
  h.resolve_right fun hno => hno.1 hok

theorem Takes.mono {ok ok' : Prop} {p : Parser ε α} {b : List UInt8} {a : α} (h : Takes ok p b a)
    (himp : ok' → ok) : Takes ok' p b a :=
  h.imp_right fun hno => ⟨fun hok => hno.1 (himp hok), hno.2⟩

theorem Takes.bind {ok : Prop} {p : Parser ε α} {f : α → Parser ε β} {b b' : List UInt8} {a : α}
    {x : β} (hp : Takes ok p b a) (hf : Takes ok (f a) b' x) : Takes ok (p >>= f) (b ++ b') x := by
  rcases hp with hp | ⟨hno, hp⟩
  · rcases hf with hf | ⟨hno, hf⟩
    · exact .inl (hp.bind hf)
    · refine .inr ⟨hno, fun rest => ?_⟩
      rw [List.append_assoc, run_bind_of_ok (hp (b' ++ rest))]
      exact hf rest
  · refine .inr ⟨hno, fun rest => ?_⟩
    obtain ⟨e, he⟩ := hp (b' ++ rest)
    rw [List.append_assoc]
    exact ⟨e, run_bind_of_error he⟩

theorem Takes.bind_pure {ok : Prop} {p : Parser ε α} {b : List UInt8} {a : α}
    (h : Takes ok p b a) (f : α → β) : Takes ok (p >>= fun x => pure (f x)) b (f a) := by
  have hbind := h.bind (f := fun x => pure (f x)) (accepts_pure (f a)).takes
  rwa [List.append_nil] at hbind

theorem Accepts.bind_pure {p : Parser ε α} {b : List UInt8} {a : α} (h : Accepts p b a)
    (f : α → β) : Accepts (p >>= fun x => pure (f x)) b (f a) :=
  (h.takes.bind_pure f).accepts trivial

/-! ### What decides -/

theorem reads_pure (a : α) : Reads (pure a : Parser ε α) := by
  intro b x rest h
  cases h
  exact ⟨[], rfl, accepts_pure a⟩

theorem reads_throw (e : ε) : Reads (throw e : Parser ε α) := by
  intro b x rest h
  cases h

theorem Reads.bind {p : Parser ε α} {f : α → Parser ε β} (hp : Reads p) (hf : ∀ a, Reads (f a)) :
    Reads (p >>= f) := by
  intro b x rest h
  obtain ⟨a, mid, hfirst, hsecond⟩ := run_bind_ok h
  obtain ⟨used, rfl, haccepts⟩ := hp b a mid hfirst
  obtain ⟨used', rfl, haccepts'⟩ := hf a mid x rest hsecond
  exact ⟨used ++ used', (List.append_assoc _ _ _).symm, haccepts.bind haccepts'⟩

theorem Reads.length_le {p : Parser ε α} (h : Reads p) {b rest : List UInt8} {a : α}
    (hrun : p.run b = .ok (a, rest)) : rest.length ≤ b.length := by
  obtain ⟨used, rfl, -⟩ := h b a rest hrun
  simp

/-- **Cut off is refused.**  A parser that decides by what it takes does not accept the front of
bytes it takes or refuses as a whole. -/
theorem Takes.cut_off {ok : Prop} {p : Parser ε α} {b cut : List UInt8} {a : α}
    (h : Takes ok p (b ++ cut) a) (hp : Reads p) (hcut : cut ≠ []) : ∃ e, p.run b = .error e := by
  cases hrun : p.run b with
  | error e => exact ⟨e, rfl⟩
  | ok r =>
      obtain ⟨used, rfl, haccepts⟩ := hp b r.1 r.2 hrun
      have hwhole := haccepts (r.2 ++ cut)
      rw [← List.append_assoc] at hwhole
      rcases h with h | ⟨-, h⟩
      · have hall := h []
        rw [List.append_nil, hwhole] at hall
        have hrest := (Prod.mk.inj (Except.ok.inj hall)).2
        exact absurd (List.append_eq_nil_iff.1 hrest).2 hcut
      · obtain ⟨e, he⟩ := h []
        rw [List.append_nil, hwhole] at he
        cases he

/-! ### Progress -/

theorem Advances.bind {p : Parser ε α} {f : α → Parser ε β} (hp : Advances p)
    (hf : ∀ a, Reads (f a)) : Advances (p >>= f) := by
  intro b x rest h
  obtain ⟨a, mid, hfirst, hsecond⟩ := run_bind_ok h
  exact Nat.lt_of_le_of_lt ((hf a).length_le hsecond) (hp b a mid hfirst)

theorem ends_pure {stuck : ε} {n : Nat} (a : α) : Ends stuck n (pure a : Parser ε α) := by
  intro b _ h
  cases h

theorem ends_throw {stuck e : ε} {n : Nat} (h : e ≠ stuck) : Ends stuck n (throw e : Parser ε α) := by
  intro b _ herr
  cases herr
  exact h rfl

/-- What follows may depend on what was read. -/
theorem Ends.bind_of {stuck : ε} {n : Nat} {p : Parser ε α} {f : α → Parser ε β}
    (hp : Ends stuck n p) (hreads : Reads p)
    (hf : ∀ b a rest, b.length ≤ n → p.run b = .ok (a, rest) → Ends stuck n (f a)) :
    Ends stuck n (p >>= f) := by
  intro b hb h
  cases hrun : p.run b with
  | error e =>
      rw [run_bind_of_error hrun] at h
      cases h
      exact hp b hb hrun
  | ok r =>
      obtain ⟨a, rest⟩ := r
      rw [run_bind_of_ok hrun] at h
      exact hf b a rest hb hrun rest (Nat.le_trans (hreads.length_le hrun) hb) h

theorem Ends.bind {stuck : ε} {n : Nat} {p : Parser ε α} {f : α → Parser ε β}
    (hp : Ends stuck n p) (hreads : Reads p) (hf : ∀ a, Ends stuck n (f a)) :
    Ends stuck n (p >>= f) :=
  hp.bind_of hreads fun _ a _ _ _ => hf a

/-- Behind a parser that takes a byte there is one less. -/
theorem Ends.bind_lt {stuck : ε} {n : Nat} {p : Parser ε α} {f : α → Parser ε β}
    (hp : Ends stuck (n + 1) p) (hadvances : Advances p) (hf : ∀ a, Ends stuck n (f a)) :
    Ends stuck (n + 1) (p >>= f) := by
  intro b hb h
  cases hrun : p.run b with
  | error e =>
      rw [run_bind_of_error hrun] at h
      cases h
      exact hp b hb hrun
  | ok r =>
      obtain ⟨a, rest⟩ := r
      rw [run_bind_of_ok hrun] at h
      have hlt := hadvances b a rest hrun
      exact hf a rest (by omega) h

/-! ### A result in between -/

theorem reads_lift (r : Except ε α) : Reads (StateT.lift r : Parser ε α) := by
  cases r with
  | ok a => exact reads_pure a
  | error e => exact reads_throw e

theorem ends_lift {stuck : ε} {n : Nat} {r : Except ε α} (h : r ≠ .error stuck) :
    Ends stuck n (StateT.lift r : Parser ε α) := by
  cases r with
  | ok a => exact ends_pure a
  | error e => exact ends_throw fun heq => h (heq ▸ rfl)

/-! ## The loop -/

/-- A step repeated until nothing is left, at most as often as the fuel says. -/
def consumeAll (step : σ → Parser ε σ) (stuck : ε) : Nat → σ → List UInt8 → Except ε σ
  | _, s, [] => .ok s
  | 0, _, _ :: _ => .error stuck
  | fuel + 1, s, b :: bs =>
      match (step s).run (b :: bs) with
      | .error e => .error e
      | .ok (s', rest) => consumeAll step stuck fuel s' rest

variable {step : σ → Parser ε σ} {stuck : ε}

/-- One round. -/
theorem consumeAll_succ {fuel : Nat} {s : σ} {b : List UInt8} (h : b ≠ []) :
    consumeAll step stuck (fuel + 1) s b =
      match (step s).run b with
      | .error e => .error e
      | .ok (s', rest) => consumeAll step stuck fuel s' rest := by
  cases b with
  | nil => exact absurd rfl h
  | cons x xs => rfl

theorem consumeAll_accepts {fuel : Nat} {s s' : σ} {b : List UInt8} (h : Accepts (step s) b s')
    (hb : b ≠ []) (rest : List UInt8) :
    consumeAll step stuck (fuel + 1) s (b ++ rest) = consumeAll step stuck fuel s' rest := by
  rw [consumeAll_succ (by simp [hb]), h rest]

/-- Pieces that are accepted one after the other. -/
inductive Chain (step : σ → Parser ε σ) : σ → List (List UInt8) → σ → Prop
  | nil (s : σ) : Chain step s [] s
  | cons {s s' s'' : σ} {b : List UInt8} {bs : List (List UInt8)} :
      Accepts (step s) b s' → b ≠ [] → Chain step s' bs s'' → Chain step s (b :: bs) s''

theorem consumeAll_chain {s s' : σ} {bs : List (List UInt8)} (h : Chain step s bs s') {fuel : Nat}
    (hfuel : bs.flatten.length ≤ fuel) : consumeAll step stuck fuel s bs.flatten = .ok s' := by
  induction h generalizing fuel with
  | nil s => simp [consumeAll]
  | @cons s s' s'' b bs haccepts hb _ ih =>
      have hpos : 0 < b.length := List.length_pos_iff.2 hb
      rw [List.flatten_cons, List.length_append] at hfuel
      obtain ⟨fuel, rfl⟩ : ∃ k, fuel = k + 1 := ⟨fuel - 1, by omega⟩
      rw [List.flatten_cons, consumeAll_accepts haccepts hb]
      exact ih (by omega)

/-- Pieces that stand for something each, when a step does with its piece what that says. -/
theorem chain_foldl {φ : Type} {R : φ → List UInt8 → Prop} {apply : σ → φ → σ} {xs : List φ}
    {bs : List (List UInt8)} (h : List.Forall₂ R xs bs) {n : Nat} (hn : bs.flatten.length ≤ n)
    (hR : ∀ {x b}, R x b → b ≠ [] ∧ (b.length ≤ n → ∀ s, Accepts (step s) b (apply s x))) (s : σ) :
    Chain step s bs (xs.foldl apply s) := by
  induction h generalizing s with
  | nil => exact .nil s
  | @cons x b xs bs hx _ ih =>
      rw [List.flatten_cons, List.length_append] at hn
      exact .cons ((hR hx).2 (by omega) s) (hR hx).1 (ih (by omega) (apply s x))

/-- **The loop ends**: there are no more rounds than bytes. -/
theorem consumeAll_ends {n : Nat} (hstep : ∀ s, Ends stuck n (step s))
    (hadvances : ∀ s, Advances (step s)) {fuel : Nat} {b : List UInt8} (hfuel : b.length ≤ fuel)
    (hn : b.length ≤ n) (s : σ) : consumeAll step stuck fuel s b ≠ .error stuck := by
  induction fuel generalizing b s with
  | zero =>
      rw [List.length_eq_zero_iff.1 (Nat.le_zero.1 hfuel)]
      simp [consumeAll]
  | succ fuel ih =>
      by_cases hb : b = []
      · subst hb
        simp [consumeAll]
      · rw [consumeAll_succ hb]
        cases hrun : (step s).run b with
        | error e =>
            intro h
            cases h
            exact hstep s b hn hrun
        | ok r =>
            have hlt := hadvances s b r.1 r.2 hrun
            exact ih (by omega) (by omega) r.1

/-- **A last piece that is cut off is refused**, after any pieces that are complete. -/
theorem consumeAll_cut_off (hreads : ∀ s, Reads (step s)) {ok : Prop} {bs : List (List UInt8)}
    (hbs : ∀ b ∈ bs, ∀ s, ∃ s', Takes ok (step s) b s') {b cut : List UInt8}
    (hb : ∀ s, ∃ s', Takes ok (step s) (b ++ cut) s') (hne : b ≠ []) (hcut : cut ≠ [])
    (fuel : Nat) (s : σ) : ∃ e, consumeAll step stuck fuel s (bs.flatten ++ b) = .error e := by
  induction bs generalizing fuel s with
  | nil =>
      rw [List.flatten_nil, List.nil_append]
      cases fuel with
      | zero =>
          obtain ⟨x, xs, rfl⟩ := List.exists_cons_of_ne_nil hne
          exact ⟨stuck, rfl⟩
      | succ fuel =>
          obtain ⟨s', htakes⟩ := hb s
          obtain ⟨e, he⟩ := htakes.cut_off (hreads s) hcut
          rw [consumeAll_succ hne, he]
          exact ⟨e, rfl⟩
  | cons first bs ih =>
      rw [List.forall_mem_cons] at hbs
      rw [List.flatten_cons, List.append_assoc]
      have hlong : first ++ (bs.flatten ++ b) ≠ [] := by simp [hne]
      cases fuel with
      | zero =>
          obtain ⟨x, xs, hx⟩ := List.exists_cons_of_ne_nil hlong
          rw [hx]
          exact ⟨stuck, rfl⟩
      | succ fuel =>
          rw [consumeAll_succ hlong]
          obtain ⟨s', haccepts | ⟨-, hrefuses⟩⟩ := hbs.1 s
          · rw [haccepts]
            exact ih hbs.2 fuel s'
          · obtain ⟨e, he⟩ := hrefuses (bs.flatten ++ b)
            rw [he]
            exact ⟨e, rfl⟩

end Parsing
