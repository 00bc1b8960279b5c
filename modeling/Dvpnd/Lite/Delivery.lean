import Dvpnd.Lite.Tx

/-!
# What became of a transaction

**A remote that took a transaction and did not say what became of it leaves it open whether
the messages were executed**, and the next attempt may execute them once more.  If the remotes
do not lie, everything else is settled: a call that returns no error has executed its messages,
and what no remote has left open is executed only if the call returned it.

* `Decides` — a program returns a transaction exactly if a remote said it was executed;
  `Hears`, `Makes` — which transactions it hears of.  Each has a rule for sequences, and the
  functions of `lite/tx.go` are taken one by one.
* `waitForTx_returns` — the loop that waits for a transaction ends.
* `unsettled`, `leftOpen` — what a call leaves open.
* `tx_outcome` — one call, on any network with `Lawful` and `Honest`, and whatever happens later.
* `txs_accounted` — **over any number of calls, the executed transactions are at least as many
  as the calls that returned no error, and at most those and the ones left open**.
-/

namespace Dvpnd.Lite

open Effect Ledger

variable {M W : Type}

/-! ## What the client makes of what it hears -/

section Decisions

variable {α β : Type} {N : Network M W} {t : SignedTx M}

/-- The result names a transaction exactly if a remote said that it was executed. -/
def Decides (N : Network M W) (view : α → Option (SignedTx M)) (p : TxM M α) : Prop :=
  ∀ w t, view (result N p w) = some t ↔ ∃ remote, .included remote t true ∈ story N p w

/-- Everything a run hears has the property `P`. -/
def Hears (N : Network M W) (P : Heard M → Prop) (p : TxM M α) : Prop :=
  ∀ w, ∀ h ∈ story N p w, P h

/-- The transaction a response is about. -/
def returned (r : Except (TxError M) (TxResponse M)) : Option (SignedTx M) :=
  r.toOption.map TxResponse.hash

/-- The same where the response may be nil. -/
def returned? (r : Except (TxError M) (Option (TxResponse M))) : Option (SignedTx M) :=
  r.toOption.join.map TxResponse.hash

@[simp] theorem returned_ok (res : TxResponse M) : returned (.ok res) = some res.hash := rfl

@[simp] theorem returned_error (e : TxError M) : returned (.error e) = none := rfl

/-- A call that is not about blocks. -/
def Op.Mute : Op M → Prop
  | .queryTx _ _ => False
  | _ => True

variable {view : α → Option (SignedTx M)} {view' : β → Option (SignedTx M)}

theorem Decides.ret {a : α} (h : view a = none) : Decides N view (.ret a) := by
  intro w t
  simp [h]

theorem heard_mute {o : Op M} (ho : o.Mute) (r : o.Res) {remote : String} {ok : Bool} :
    heard ⟨o, r⟩ ≠ some (.included remote t ok) := by
  cases o with
  | queryTx _ _ => exact absurd ho id
  | broadcast _ _ =>
      cases r with
      | error e => exact fun h => by cases h
      | ok resp =>
          simp only [heard]
          split <;> exact fun h => by cases h
  | account _ _ | simulate _ _ _ | sign _ | now | sleep _ | pause => exact fun h => by cases h

theorem Decides.op {o : Op M} {k : o.Res → TxM M α} (ho : o.Mute)
    (hk : ∀ r, Decides N view (k r)) : Decides N view (.op o k) := by
  intro w t
  rw [result_op, hk, story_op]
  refine exists_congr fun remote => ?_
  rw [List.mem_append]
  refine ⟨.inr, fun h => h.resolve_left fun hnow => ?_⟩
  exact heard_mute ho _ (Option.mem_toList.1 hnow)

/-- A sequence decides if its second part returns what the first has decided on, and decides
where that has not. -/
theorem Decides.bind {p : TxM M α} {f : α → TxM M β} (hp : Decides N view p)
    (hsome : ∀ a t, view a = some t → ∃ b, f a = .ret b ∧ view' b = some t)
    (hnone : ∀ a, view a = none → Decides N view' (f a)) : Decides N view' (p >>= f) := by
  intro w t
  rw [result_bind, story_bind]
  cases hv : view (result N p w) with
  | some u =>
      obtain ⟨b, hb, hvb⟩ := hsome _ u hv
      have hp' := hp w t
      rw [hv] at hp'
      simp only [hb, result_ret, story_ret, List.append_nil, hvb]
      exact hp'
  | none =>
      rw [hnone _ hv]
      refine exists_congr fun remote => ?_
      rw [List.mem_append]
      refine ⟨.inr, fun h => h.resolve_left fun hfirst => ?_⟩
      have hpu := (hp w t).2 ⟨remote, hfirst⟩
      rw [hv] at hpu
      cases hpu

variable {P : Heard M → Prop}

theorem Hears.ret (a : α) : Hears N P (.ret a) := fun _ _ h => absurd h List.not_mem_nil

theorem Hears.op {o : Op M} {k : o.Res → TxM M α} (ho : ∀ r h, heard ⟨o, r⟩ = some h → P h)
    (hk : ∀ w, Hears N P (k (N o w).1)) : Hears N P (.op o k) := by
  intro w h hmem
  rw [story_op] at hmem
  rcases List.mem_append.1 hmem with hnow | hlater
  · exact ho _ h (Option.mem_toList.1 hnow)
  · exact hk w _ h hlater

theorem Hears.bind {p : TxM M α} {f : α → TxM M β} (hp : Hears N P p)
    (hf : ∀ a, Hears N P (f a)) : Hears N P (p >>= f) := by
  intro w h hmem
  rw [story_bind] at hmem
  rcases List.mem_append.1 hmem with hfirst | hsecond
  · exact hp w h hfirst
  · exact hf _ _ h hsecond

/-! ### The loop over the remotes -/

theorem tryRemotes_decides {f : String → TxM M (Except (TxError M) (TxResponse M))}
    (hf : ∀ remote, Decides N returned (f remote)) (remotes : List String)
    (errs : List (String × TxError M)) :
    Decides N returned? (Client.tryRemotes f remotes errs) := by
  induction remotes generalizing errs with
  | nil =>
      cases errs with
      | nil => exact .ret rfl
      | cons e errs => exact .ret rfl
  | cons remote rest ih =>
      refine (hf remote).bind ?_ ?_
      · intro r u hr
        cases r with
        | error e => cases hr
        | ok res => exact ⟨_, rfl, hr⟩
      · intro r hr
        cases r with
        | error e => exact ih _
        | ok res => cases hr

theorem tryRemotes_hears {γ : Type} {f : String → TxM M (Except (TxError M) γ)}
    (hf : ∀ remote, Hears N P (f remote)) (remotes : List String)
    (errs : List (String × TxError M)) : Hears N P (Client.tryRemotes f remotes errs) := by
  induction remotes generalizing errs with
  | nil =>
      cases errs with
      | nil => exact .ret _
      | cons e errs => exact .ret _
  | cons remote rest ih =>
      refine (hf remote).bind fun r => ?_
      cases r with
      | error e => exact ih _
      | ok res => exact .ret _

/-! ### Waiting for a transaction -/

variable (c : Client) {chain : W → Chain (SignedTx M)} (hH : Honest N chain)

include hH in
theorem waitLoop_decides (remote : String) (hash : SignedTx M) (deadline rounds : Nat) :
    Decides N returned (c.waitLoop remote hash deadline rounds) := by
  induction rounds with
  | zero => exact .ret rfl
  | succ rounds ih =>
      intro w u
      simp only [Client.waitLoop, Prog.perform_bind, Prog.pure_eq]
      rw [result_op, story_op]
      cases hq : (N (.queryTx remote hash) w).1 with
      | error e =>
          -- nothing is said: the loop goes round again, or gives up
          have hrest : Decides N returned (.op .now fun now =>
              if deadline < now then .ret (.error (.notIncluded hash c.txTimeout))
              else .op (.sleep (2 * second)) fun _ => c.waitLoop remote hash deadline rounds) := by
            refine Decides.op trivial fun now => ?_
            split
            · exact .ret rfl
            · exact .op trivial fun _ => ih
          exact hrest _ u
      | ok res =>
          have hhash : res.hash = hash := (hH.finds remote hash w res hq).1
          by_cases hcode : res.code = codeTypeOK
          · simp [heard, hcode, hhash, eq_comm]
          · simp [heard, hcode]

include hH in
theorem waitForTx_decides (remote : String) (hash : SignedTx M) :
    Decides N returned (c.waitForTx remote hash) :=
  .op trivial fun _ => waitLoop_decides c hH remote hash _ _

theorem waitForTx_hears (remote : String) : Hears N (·.tx = t) (c.waitForTx remote t) := by
  refine Hears.op (fun r h hh => by cases hh) fun w => ?_
  generalize (N .now w).1 + c.txTimeout * second = deadline
  induction c.txTimeout / 2 + 2 with
  | zero => exact .ret _
  | succ rounds ih =>
      simp only [Client.waitLoop, Prog.perform_bind, Prog.pure_eq]
      refine Hears.op ?_ fun w => ?_
      · intro r h hh
        cases r with
        | error e => cases hh
        | ok res => cases hh; rfl
      · cases (N (.queryTx remote t) w).1 with
        | error e =>
            refine Hears.op (fun r h hh => by cases hh) fun w => ?_
            split
            · exact .ret _
            · exact Hears.op (fun r h hh => by cases hh) fun _ => ih
        | ok res =>
            dsimp only
            split
            · exact .ret _
            · exact .ret _

/-- The loop is left when its rounds take it past the deadline. -/
theorem waitLoop_returns {time : W → Nat} (hT : Timed N time) (remote : String) (hash : SignedTx M)
    {deadline : Nat} (rounds : Nat) {w : W} (h : deadline < time w + 2 * second * rounds) :
    result N (c.waitLoop remote hash deadline (rounds + 1)) w ≠ .error .unfinished := by
  induction rounds generalizing w with
  | zero =>
      simp only [Client.waitLoop, Prog.perform_bind, Prog.pure_eq]
      rw [result_op]
      cases (N (.queryTx remote hash) w).1 with
      | ok res =>
          dsimp only
          split <;> exact fun hr => by cases hr
      | error e =>
          have hq := hT.later (.queryTx remote hash) w
          have hn := hT.later .now (N (.queryTx remote hash) w).2
          dsimp only
          rw [result_op, hT.now, if_pos (by omega)]
          exact fun hr => by cases hr
  | succ rounds ih =>
      simp only [Client.waitLoop, Prog.perform_bind, Prog.pure_eq]
      rw [result_op]
      cases (N (.queryTx remote hash) w).1 with
      | ok res =>
          dsimp only
          split <;> exact fun hr => by cases hr
      | error e =>
          have hq := hT.later (.queryTx remote hash) w
          have hn := hT.later .now (N (.queryTx remote hash) w).2
          dsimp only
          rw [result_op, hT.now]
          split
          · exact fun hr => by cases hr
          · rw [result_op]
            refine ih ?_
            have hs := hT.sleeps (2 * second) (N .now (N (.queryTx remote hash) w).2).2
            rw [Nat.mul_succ] at h
            omega

/-- **Waiting for a transaction ends**, with what became of it or past the deadline. -/
theorem waitForTx_returns {time : W → Nat} (hT : Timed N time) (remote : String) (hash : SignedTx M)
    (w : W) : result N (c.waitForTx remote hash) w ≠ .error .unfinished := by
  simp only [Client.waitForTx, Prog.perform_bind]
  rw [result_op, hT.now]
  refine waitLoop_returns c hT remote hash (c.txTimeout / 2 + 1) ?_
  have hrounds : c.txTimeout * second < 2 * second * (c.txTimeout / 2 + 1) := by
    have hs : 0 < second := by decide
    calc c.txTimeout * second < (2 * (c.txTimeout / 2 + 1)) * second :=
          Nat.mul_lt_mul_of_pos_right (by omega) hs
      _ = 2 * second * (c.txTimeout / 2 + 1) := by
          rw [Nat.mul_assoc, Nat.mul_assoc, Nat.mul_comm second]
  omega

/-! ### Handing a transaction to the remotes -/

include hH

theorem broadcastTxAt_decides (t : SignedTx M) (remote : String) :
    Decides N returned (c.broadcastTxAt t remote) := by
  refine Decides.op trivial fun r => ?_
  cases r with
  | error e => exact .ret rfl
  | ok resp =>
      simp only [Prog.pure_eq]
      show Decides N returned (if _ then _ else _)
      split
      · exact waitForTx_decides c hH remote resp.hash
      · exact .ret rfl

theorem broadcastTxAt_hears (t : SignedTx M) (remote : String) :
    Hears N (·.tx = t) (c.broadcastTxAt t remote) := by
  refine Hears.op ?_ fun w => ?_
  · intro r h hh
    cases r with
    | error e => cases hh; rfl
    | ok resp =>
        simp only [heard] at hh
        split at hh <;> (cases hh; rfl)
  · cases hb : (N (.broadcast remote t) w).1 with
    | error e => exact .ret _
    | ok resp =>
        -- the remote names the transaction it was handed
        have hhash : resp.hash = t := hH.names remote t w resp hb
        show Hears N _ (if _ then _ else _)
        split
        · rw [hhash]
          exact waitForTx_hears c remote
        · exact .ret _

theorem broadcastTx_decides (t : SignedTx M) : Decides N returned? (c.broadcastTx t) :=
  tryRemotes_decides (broadcastTxAt_decides c hH t) _ _

theorem broadcastTx_hears (t : SignedTx M) : Hears N (·.tx = t) (c.broadcastTx t) :=
  tryRemotes_hears (broadcastTxAt_hears c hH t) _ _

omit hH

/-! ### Preparing a transaction -/

theorem queryAccount_hears : Hears N P c.queryAccount := by
  refine (tryRemotes_hears (fun remote => ?_) _ _).bind fun r => ?_
  · refine Hears.op (fun r h hh => by cases hh) fun w => ?_
    cases (N (.account remote c.fromAddress) w).1 <;> exact .ret _
  · cases r <;> exact .ret _

/-- The number that is used is one a remote has named. -/
theorem tryRemotes_account_named (remotes : List String) (errs : List (String × TxError M))
    (w : W) {acc : Account}
    (h : result N (Client.tryRemotes c.queryAccountAt remotes errs) w = .ok (some (some acc))) :
    acc.sequence ∈ numbers N (Client.tryRemotes c.queryAccountAt remotes errs) w := by
  induction remotes generalizing errs w with
  | nil => cases errs <;> cases h
  | cons remote rest ih =>
      simp only [Client.tryRemotes, Client.queryAccountAt, Prog.perform_bind, Prog.pure_eq,
        Prog.op_bind] at h ⊢
      rw [result_op] at h
      rw [numbers_op]
      cases hq : (N (.account remote c.fromAddress) w).1 with
      | ok found =>
          rw [hq] at h
          have hfound : found = some acc := by
            simpa only [Prog.ret_bind, result_ret, Except.ok.injEq, Option.some.injEq] using h
          rw [hfound]
          exact List.mem_append_left _ (List.mem_singleton.2 rfl)
      | error e =>
          rw [hq] at h
          exact List.mem_append_right _ (ih _ _ h)

theorem queryAccount_named (w : W) {acc : Account}
    (h : result N c.queryAccount w = .ok (some acc)) :
    acc.sequence ∈ numbers N c.queryAccount w := by
  unfold Client.queryAccount at h ⊢
  rw [result_bind] at h
  rw [numbers_bind]
  refine List.mem_append_left _ ?_
  cases hr : result N (Client.tryRemotes c.queryAccountAt c.remotes []) w with
  | error e => rw [hr] at h; cases h
  | ok found =>
      rw [hr] at h
      have hjoin : found.join = some acc := by
        simpa only [Prog.pure_eq, result_ret, Except.ok.injEq] using h
      refine tryRemotes_account_named c c.remotes [] w ?_
      rw [hr, Option.join_eq_some_iff.1 hjoin]

theorem calculateGas_hears (txf : Factory) (messages : List (TxMsg M)) :
    Hears N P (c.calculateGas txf messages) := by
  refine (tryRemotes_hears (fun remote => ?_) _ _).bind fun r => ?_
  · refine Hears.op (fun r h hh => by cases hh) fun w => ?_
    cases (N (.simulate remote txf messages) w).1 <;> exact .ret _
  · cases r <;> exact .ret _

theorem prepareTxFactory_hears (messages : List (TxMsg M)) :
    Hears N P (c.prepareTxFactory messages) := by
  refine (queryAccount_hears c).bind fun r => ?_
  rcases r with e | (_ | acc)
  · exact .ret _
  · exact .ret _
  · dsimp only
    split
    · refine (calculateGas_hears c _ messages).bind fun r => ?_
      cases r <;> exact .ret _
    · exact .ret _

/-- The factory has the client's fee granter and a sequence number a remote has named. -/
theorem prepareTxFactory_named (messages : List (TxMsg M)) (w : W) {txf : Factory}
    (h : result N (c.prepareTxFactory messages) w = .ok txf) :
    txf.feeGranter = c.granter ∧
      txf.sequence ∈ numbers N (c.prepareTxFactory messages) w := by
  unfold Client.prepareTxFactory at h ⊢
  rw [result_bind] at h
  rw [numbers_bind]
  rcases hacc : result N c.queryAccount w with e | (_ | acc)
  · rw [hacc] at h; cases h
  · rw [hacc] at h; cases h
  · have hnamed := queryAccount_named c w hacc
    rw [hacc] at h
    suffices hsuff : txf.feeGranter = c.granter ∧ txf.sequence = acc.sequence from
      ⟨hsuff.1, List.mem_append_left _ (hsuff.2 ▸ hnamed)⟩
    dsimp only at h
    split at h
    · rw [result_bind] at h
      cases hgas : result N (c.calculateGas (M := M)
          ⟨acc.number, acc.sequence, c.gas, c.granter⟩ messages) (after N c.queryAccount w) with
      | error e => rw [hgas] at h; cases h
      | ok gas =>
          rw [hgas] at h
          cases h
          exact ⟨rfl, rfl⟩
    · cases h
      exact ⟨rfl, rfl⟩

/-! ### Attempts -/

/-- A transaction the client makes of the messages: it carries them, the granter pays, and its
number is one of `named`. -/
structure Made (c : Client) (messages : List (TxMsg M)) (named : List Nat) (t : SignedTx M) :
    Prop where
  messages : t.messages = messages
  feeGranter : t.factory.feeGranter = c.granter
  named : t.number ∈ named

theorem Made.mono {messages : List (TxMsg M)} {ns ns' : List Nat} (hsub : ns ⊆ ns')
    (h : Made c messages ns t) : Made c messages ns' t :=
  ⟨h.messages, h.feeGranter, hsub h.named⟩

/-- A run hears of at most `n` transactions, all made of the messages. -/
def Makes (N : Network M W) (c : Client) (messages : List (TxMsg M)) (n : Nat) (p : TxM M α) :
    Prop :=
  ∀ w, ∃ ts : List (SignedTx M), ts.length ≤ n ∧
    (∀ t ∈ ts, Made c messages (numbers N p w) t) ∧ ∀ h ∈ story N p w, h.tx ∈ ts

variable {c} {messages : List (TxMsg M)}

theorem Makes.of_hears {p : TxM M α} (h : Hears N (fun _ => False) p) (n : Nat) :
    Makes N c messages n p :=
  fun w => ⟨[], Nat.zero_le n, nofun, fun x hx => (h w x hx).elim⟩

theorem Makes.bind {p : TxM M α} {f : α → TxM M β} {n k : Nat} (hp : Makes N c messages n p)
    (hf : ∀ a, Makes N c messages k (f a)) : Makes N c messages (k + n) (p >>= f) := by
  intro w
  obtain ⟨ts, hlen, hmade, hall⟩ := hp w
  obtain ⟨us, hlen', hmade', hall'⟩ := hf (result N p w) (after N p w)
  rw [numbers_bind, story_bind]
  refine ⟨us ++ ts, ?_, ?_, ?_⟩
  · rw [List.length_append]
    exact Nat.add_le_add hlen' hlen
  · intro t ht
    rcases List.mem_append.1 ht with ht | ht
    · exact (hmade' t ht).mono c (List.subset_append_right _ _)
    · exact (hmade t ht).mono c (List.subset_append_left _ _)
  · intro h hh
    rcases List.mem_append.1 hh with hh | hh
    · exact List.mem_append_right _ (hall h hh)
    · exact List.mem_append_left _ (hall' h hh)

variable (c)

theorem Hears.decides {p : TxM M α} (h : Hears N (fun _ => False) p) :
    Decides N (fun _ => none) p :=
  fun w _ => ⟨nofun, fun hin => (h w _ hin.choose_spec).elim⟩

variable (messages)

include hH

theorem attempt_decides : Decides N returned? (c.attempt messages) := by
  refine (Hears.decides (prepareTxFactory_hears c messages)).bind (fun _ _ h => by cases h) ?_
  intro r _
  cases r with
  | error e => exact .ret rfl
  | ok txf =>
      refine Decides.op trivial fun signed => ?_
      cases signed with
      | some e => exact .ret rfl
      | none => exact broadcastTx_decides c hH _

/-- One attempt hears of one transaction at most. -/
theorem attempt_makes : Makes N c messages 1 (c.attempt messages) := by
  intro w
  have hquiet : story N (c.prepareTxFactory messages) w = [] :=
    List.eq_nil_iff_forall_not_mem.2 (prepareTxFactory_hears (P := fun _ => False) c messages w)
  unfold Client.attempt
  rw [story_bind, numbers_bind, hquiet, List.nil_append]
  cases hr : result N (c.prepareTxFactory messages) w with
  | error e => exact ⟨[], Nat.zero_le 1, nofun, nofun⟩
  | ok txf =>
      obtain ⟨hgranter, hnamed⟩ := prepareTxFactory_named c messages w hr
      refine ⟨[⟨messages, txf⟩], le_rfl, ?_, ?_⟩
      · intro t ht
        obtain rfl := List.mem_singleton.1 ht
        exact ⟨rfl, hgranter, List.mem_append_left _ hnamed⟩
      · intro h hh
        refine List.mem_singleton.2
          (Hears.op (P := (·.tx = ⟨messages, txf⟩)) (fun r h hh => by cases hh) (fun w => ?_) _ h hh)
        cases (N (.sign ⟨messages, txf⟩) w).1 with
        | some e => exact .ret _
        | none => exact broadcastTx_hears c hH _

omit hH in
theorem delay_hears (left : Nat) : Hears N P (Client.delay (M := M) left) := by
  unfold Client.delay
  split
  · exact .ret _
  · exact Hears.op (fun r h hh => by cases hh) fun _ => .ret _

theorem retry_decides (left : Nat) (errs : List (TxError M)) :
    Decides N returned (c.retry messages left errs) := by
  induction left generalizing errs with
  | zero => exact .ret rfl
  | succ left ih =>
      refine (attempt_decides c hH messages).bind ?_ ?_
      · intro r t hr
        rcases r with e | (_ | res)
        · cases hr
        · cases hr
        · exact ⟨_, rfl, hr⟩
      · intro r hr
        rcases r with e | (_ | res)
        · exact (Hears.decides (delay_hears left)).bind (fun _ _ h => by cases h) fun _ _ => ih _
        · exact .ret rfl
        · cases hr

theorem retry_makes (left : Nat) (errs : List (TxError M)) :
    Makes N c messages left (c.retry messages left errs) := by
  induction left generalizing errs with
  | zero => exact .of_hears (.ret _) 0
  | succ left ih =>
      refine (attempt_makes c hH messages).bind fun r => ?_
      rcases r with e | (_ | res)
      · exact (Makes.of_hears (delay_hears left) 0).bind fun _ => ih _
      · exact .of_hears (.ret _) left
      · exact .of_hears (.ret _) left

end Decisions

/-! ## Whole calls -/

section Calls

variable [DecidableEq M] {N : Network M W} {c : Client} {w : W} {t : SignedTx M}

/-- A remote took the transaction, or may have, and did not say what became of it. -/
def unsettled (hs : List (Heard M)) (t : SignedTx M) : Bool :=
  hs.any fun
    | .silent _ u => u = t
    | .took remote u =>
        u = t && !hs.contains (.included remote t true) && !hs.contains (.included remote t false)
    | .refused _ _ | .included _ _ _ => false

/-- The transactions a run has left open. -/
def leftOpen (hs : List (Heard M)) : List (SignedTx M) :=
  (hs.map Heard.tx).dedup.filter (unsettled hs)

theorem unsettled_silent {hs : List (Heard M)} {remote : String} (h : .silent remote t ∈ hs) :
    unsettled hs t = true :=
  List.any_eq_true.2 ⟨_, h, decide_eq_true rfl⟩

theorem unsettled_took {hs : List (Heard M)} {remote : String} (h : .took remote t ∈ hs)
    (hnone : ∀ ok, .included remote t ok ∉ hs) : unsettled hs t = true := by
  refine List.any_eq_true.2 ⟨_, h, ?_⟩
  simp [hnone]

theorem mem_leftOpen {hs : List (Heard M)} : t ∈ leftOpen hs ↔ unsettled hs t = true := by
  refine ⟨fun h => (List.mem_filter.1 h).2, fun h => List.mem_filter.2 ⟨?_, h⟩⟩
  obtain ⟨x, hx, ht⟩ := List.any_eq_true.1 h
  refine List.mem_dedup.2 (List.mem_map.2 ⟨x, hx, ?_⟩)
  cases x with
  | silent remote u => exact of_decide_eq_true ht
  | took remote u =>
      simp only [Bool.and_eq_true, decide_eq_true_eq] at ht
      exact ht.1.1
  | refused remote u => cases ht
  | included remote u ok => cases ht

variable (N c w) in
omit [DecidableEq M] in
/-- The lock adds nothing to a run. -/
theorem tx_eq_retry (messages : List M) :
    result N (c.tx messages) w = result N (c.retry (c.execMessages messages) 5 []) w ∧
    after N (c.tx messages) w = after N (c.retry (c.execMessages messages) 5 []) w ∧
    story N (c.tx messages) w = story N (c.retry (c.execMessages messages) 5 []) w ∧
    numbers N (c.tx messages) w = numbers N (c.retry (c.execMessages messages) 5 []) w := by
  have htrace : (c.tx messages).trace (machine N) () w =
      (c.retry (c.execMessages messages) 5 []).trace (machine N) () w := by
    refine (Prog.trace_bind (machine N) () _ (fun a => .unlock (.ret a)) w).trans ?_
    exact List.append_nil _
  refine ⟨?_, ?_, ?_, ?_⟩
  · simp only [result, Client.tx, Prog.run_withLock, machine]
  · simp only [after, Client.tx, Prog.run_withLock, machine]
  · rw [story, htrace, story]
  · rw [numbers, htrace, numbers]

variable {chain : W → Chain (SignedTx M)} (hN : Lawful N chain) (hH : Honest N chain)

include hH

omit [DecidableEq M] in
theorem tx_decides (messages : List M) : Decides N returned (c.tx messages) := by
  intro w t
  obtain ⟨hresult, -, hstory, -⟩ := tx_eq_retry N c w messages
  rw [hresult, hstory]
  exact retry_decides c hH _ 5 [] w t

variable (c) in
omit [DecidableEq M] in
theorem tx_makes (messages : List M) :
    Makes N c (c.execMessages messages) 5 (c.tx messages) := by
  intro w
  obtain ⟨-, -, hstory, hnumbers⟩ := tx_eq_retry N c w messages
  rw [hstory, hnumbers]
  exact retry_makes c hH _ 5 [] w

include hN

/-- What becomes effective was left open, or is what the call returns. -/
theorem tx_effective (messages : List M) (hwf : (chain w).WF SignedTx.number)
    (h : (chain (after N (c.tx messages) w)).Effective SignedTx.number t) :
    (chain w).Effective SignedTx.number t ∨
      unsettled (story N (c.tx messages) w) t = true ∨
      returned (result N (c.tx messages) w) = some t := by
  rcases run_effective hN hH _ w h with hold | ⟨remote, hsilent | htook⟩
  · exact .inl hold
  · exact .inr (.inl (unsettled_silent hsilent))
  · by_cases htrue : .included remote t true ∈ story N (c.tx messages) w
    · exact .inr (.inr ((tx_decides hH messages w t).2 ⟨remote, htrue⟩))
    · by_cases hfalse : .included remote t false ∈ story N (c.tx messages) w
      · -- it failed in a block, so it is not effective
        have hwf' := (hN.run (c.tx messages) w).2 hwf
        exact absurd h (hwf'.not_effective_of_failed (run_included hN hH _ w hfalse))
      · refine .inr (.inl (unsettled_took htook fun ok => ?_))
        cases ok with
        | true => exact htrue
        | false => exact hfalse

omit [DecidableEq M] in
theorem tx_executed (messages : List M) {res : TxResponse M}
    (h : result N (c.tx messages) w = .ok res) :
    (chain (after N (c.tx messages) w)).Executed res.hash ∧
      Made c (c.execMessages messages) (numbers N (c.tx messages) w) res.hash := by
  have hret : returned (result N (c.tx messages) w) = some res.hash := by rw [h]; rfl
  obtain ⟨remote, hmem⟩ := (tx_decides hH messages w res.hash).1 hret
  obtain ⟨ts, -, hmade, hall⟩ := tx_makes c hH messages w
  exact ⟨run_included hN hH _ w hmem, hmade _ (hall _ hmem)⟩

omit hN hH

/-- **One call**, on a chain that keeps to the sequence numbers and through remotes that do not
lie.  If it returns no error, a transaction with exactly its messages has been executed.
Whatever calls are made later, at most five transactions of this one are ever executed, and
only what it returned and what a remote left open. -/
theorem tx_outcome (N : Network M W) (chain : W → Chain (SignedTx M)) (hN : Lawful N chain)
    (hH : Honest N chain) (c : Client) (messages : List M) (w : W)
    (hwf : (chain w).WF SignedTx.number) :
    (∀ res, result N (c.tx messages) w = .ok res →
      (chain (after N (c.tx messages) w)).Executed res.hash ∧
      res.hash.messages = c.execMessages messages ∧ res.hash.factory.feeGranter = c.granter) ∧
    ∃ ts : List (SignedTx M), ts.length ≤ 5 ∧
      (∀ t ∈ ts, t.messages = c.execMessages messages ∧ t.factory.feeGranter = c.granter) ∧
      ∀ (later : TxM M Unit) t,
        (chain (after N later (after N (c.tx messages) w))).Executed t →
          (chain w).Effective SignedTx.number t ∨
          (t ∈ ts ∧ (unsettled (story N (c.tx messages) w) t = true ∨
            returned (result N (c.tx messages) w) = some t)) ∨
          Handed t (story N later (after N (c.tx messages) w)) := by
  refine ⟨?_, ?_⟩
  · intro res hres
    obtain ⟨hexec, hmade⟩ := tx_executed hN hH messages hres
    exact ⟨hexec, hmade.messages, hmade.feeGranter⟩
  · obtain ⟨ts, hlen, hmade, hall⟩ := tx_makes c hH messages w
    refine ⟨ts, hlen, fun t ht => ⟨(hmade t ht).messages, (hmade t ht).feeGranter⟩, ?_⟩
    intro later t hexec
    rcases run_effective hN hH later _ (.inl hexec) with heff | hhanded
    · refine (tx_effective hN hH messages hwf heff).imp id fun hopen => .inl ⟨?_, hopen⟩
      rcases hopen with hopen | hret
      · obtain ⟨h, hh, rfl⟩ := List.mem_map.1
          (List.mem_dedup.1 (List.mem_filter.1 (mem_leftOpen.2 hopen)).1)
        exact hall h hh
      · obtain ⟨remote, hmem⟩ := (tx_decides hH messages w t).1 hret
        exact hall _ hmem
    · exact .inr (.inr hhanded)

/-! ## Calls one after another -/

/-- What a call comes to: the transaction it returns, and those it leaves open. -/
structure Call (M : Type) where
  returned : Option (SignedTx M)
  leftOpen : List (SignedTx M)

/-- Calls one after another, as the client's mutex has them. -/
def Client.txs (c : Client) (N : Network M W) : List (List M) → W → List (Call M) × W
  | [], w => ([], w)
  | messages :: rest, w =>
      let later := c.txs N rest (after N (c.tx messages) w)
      (⟨Lite.returned (result N (c.tx messages) w),
        Lite.leftOpen (story N (c.tx messages) w)⟩ :: later.1, later.2)

/-- No remote names a sequence number from before the call it is asked in. -/
def Client.Fresh (c : Client) (N : Network M W) (chain : W → Chain (SignedTx M)) :
    List (List M) → W → Prop
  | [], _ => True
  | messages :: rest, w =>
      (∀ n ∈ numbers N (c.tx messages) w, (chain w).sequence ≤ n) ∧
        c.Fresh N chain rest (after N (c.tx messages) w)

section Txs

include hN

variable (c) in
theorem txs_chain (calls : List (List M)) (w : W) :
    Chain.Later (chain w) (chain (c.txs N calls w).2) ∧
    ((chain w).WF SignedTx.number → (chain (c.txs N calls w).2).WF SignedTx.number) := by
  induction calls generalizing w with
  | nil => exact ⟨.refl _, id⟩
  | cons messages rest ih =>
      obtain ⟨hlater, hwf⟩ := hN.run (c.tx messages) w
      obtain ⟨hlater', hwf'⟩ := ih (after N (c.tx messages) w)
      exact ⟨hlater.trans hlater', hwf' ∘ hwf⟩

include hH

/-- What becomes effective in a run of calls, one of them returned or left open. -/
theorem txs_effective (calls : List (List M)) (hwf : (chain w).WF SignedTx.number)
    (h : (chain (c.txs N calls w).2).Effective SignedTx.number t) :
    (chain w).Effective SignedTx.number t ∨
      t ∈ (c.txs N calls w).1.flatMap fun call => call.returned.toList ++ call.leftOpen := by
  induction calls generalizing w with
  | nil => exact .inl h
  | cons messages rest ih =>
      have hwf' := (hN.run (c.tx messages) w).2 hwf
      rcases ih hwf' h with heff | hlater
      · rcases tx_effective hN hH messages hwf heff with hold | hopen | hret
        · exact .inl hold
        · refine .inr (List.mem_flatMap.2 ⟨_, List.mem_cons_self, ?_⟩)
          exact List.mem_append_right _ (mem_leftOpen.2 hopen)
        · refine .inr (List.mem_flatMap.2 ⟨_, List.mem_cons_self, ?_⟩)
          exact List.mem_append_left _ (Option.mem_toList.2 hret)
      · obtain ⟨call, hcall, ht⟩ := List.mem_flatMap.1 hlater
        exact .inr (List.mem_flatMap.2 ⟨call, List.mem_cons_of_mem _ hcall, ht⟩)

omit [DecidableEq M] in
/-- A call that returns no error executes a transaction that was not executed before. -/
theorem tx_executes (messages : List M) (hwf : (chain w).WF SignedTx.number)
    (hfresh : ∀ n ∈ numbers N (c.tx messages) w, (chain w).sequence ≤ n) :
    (chain w).executions + (returned (result N (c.tx messages) w)).toList.length ≤
      (chain (after N (c.tx messages) w)).executions := by
  have hlater := (hN.run (c.tx messages) w).1
  cases hres : result N (c.tx messages) w with
  | error e => exact hlater.executions
  | ok res =>
      obtain ⟨hexec, hmade⟩ := tx_executed hN hH messages hres
      refine hlater.executions_lt hexec fun hold => ?_
      exact absurd (hwf.below _ hold) (Nat.not_lt.2 (hfresh _ hmade.named))

theorem txs_executes (calls : List (List M)) (hwf : (chain w).WF SignedTx.number)
    (hfresh : c.Fresh N chain calls w) :
    (chain w).executions + ((c.txs N calls w).1.map fun call => call.returned.toList.length).sum ≤
      (chain (c.txs N calls w).2).executions := by
  induction calls generalizing w with
  | nil => exact le_rfl
  | cons messages rest ih =>
      have hfirst := tx_executes hN hH messages hwf hfresh.1
      have hrest := ih ((hN.run (c.tx messages) w).2 hwf) hfresh.2
      simp only [Client.txs, List.map_cons, List.sum_cons] at hrest ⊢
      omega

end Txs

/-- **Calls accounted for.**  On a chain that keeps to the sequence numbers and where nothing
of the account waits, and with remotes that do not lie and are not behind the calls: the
executed transactions are at least as many as the calls that returned no error, and at most
those and the ones left open. -/
theorem txs_accounted (N : Network M W) (chain : W → Chain (SignedTx M)) (hN : Lawful N chain)
    (hH : Honest N chain) (c : Client) (calls : List (List M)) (w : W)
    (hwf : (chain w).WF SignedTx.number)
    (hidle : ∀ t ∈ (chain w).pool, t.number < (chain w).sequence)
    (hfresh : c.Fresh N chain calls w) :
    (chain w).executions + ((c.txs N calls w).1.map fun call => call.returned.toList.length).sum ≤
      (chain (c.txs N calls w).2).executions ∧
    (chain (c.txs N calls w).2).executions ≤ (chain w).executions +
      ((c.txs N calls w).1.map fun call => call.returned.toList.length).sum +
      ((c.txs N calls w).1.map fun call => call.leftOpen.length).sum := by
  refine ⟨txs_executes hN hH calls hwf hfresh, ?_⟩
  obtain ⟨hlater, hwf'⟩ := txs_chain c hN calls w
  have hle : (chain (c.txs N calls w).2).executions ≤ (chain w).executions +
      ((c.txs N calls w).1.flatMap fun call => call.returned.toList ++ call.leftOpen).length := by
    refine hlater.executions_le (hwf' hwf) fun t ht => ?_
    rcases txs_effective hN hH calls hwf (.inl ht) with (hexec | ⟨hpool, hnum⟩) | hmem
    · exact .inl hexec
    · exact absurd (hidle t hpool) (Nat.not_lt.2 hnum)
    · exact .inr hmem
  have hsum : ((c.txs N calls w).1.flatMap
      fun call => call.returned.toList ++ call.leftOpen).length =
      ((c.txs N calls w).1.map fun call => call.returned.toList.length).sum +
        ((c.txs N calls w).1.map fun call => call.leftOpen.length).sum := by
    rw [List.length_flatMap, ← List.sum_map_add]
    simp only [List.length_append]
  omega

/-! ## A late block -/

/-- A client with one remote. -/
def oneRemote : Client := ⟨["rpc"], "sent1node", none, 200000, false, 1⟩

/-- A moment at which nothing happens and every call succeeds. -/
def calm : Moment Nat where
  events := []
  elapsed := 0
  account := .ok (some (3, 0))
  simulate := .ok 0
  sign := none
  broadcast := .ok (codeTypeOK, "")
  queryTx := .ok ""

/-- The message `7` under a sequence number. -/
def sevenAt (sequence : Nat) : SignedTx Nat := ⟨[.plain 7], ⟨3, sequence, 200000, none⟩⟩

/-- The remote takes the transaction and cannot say what became of it; a block includes it when
the client has given up, and then the one of the second attempt. -/
def lateBlock : Env Nat := fun k =>
  if k = 4 then { calm with queryTx := .error "transaction indexing is disabled" }
  else if k = 5 then { calm with elapsed := 2 * second }
  else if k = 6 then { calm with events := [.included (sevenAt 5) true] }
  else if k = 11 then { calm with events := [.included (sevenAt 6) true] }
  else calm

/-- One call that returns no error and has executed its message twice: what the first attempt
left open makes up the difference. -/
theorem lateBlock_accounted :
    (oneRemote.txs (exec lateBlock) [[7]] ⟨⟨5, [], []⟩, 0, 0⟩).2.chain.executions = 2 ∧
    (oneRemote.txs (exec lateBlock) [[7]] ⟨⟨5, [], []⟩, 0, 0⟩).2.chain.executions ≤ 0 +
      ((oneRemote.txs (exec lateBlock) [[7]] ⟨⟨5, [], []⟩, 0, 0⟩).1.map
        fun call => call.returned.toList.length).sum +
      ((oneRemote.txs (exec lateBlock) [[7]] ⟨⟨5, [], []⟩, 0, 0⟩).1.map
        fun call => call.leftOpen.length).sum :=
  ⟨by decide +kernel, (txs_accounted (exec lateBlock) World.chain (exec_lawful lateBlock)
    (exec_honest lateBlock) oneRemote [[7]] ⟨⟨5, [], []⟩, 0, 0⟩ ⟨nofun, List.nodup_nil⟩ nofun
    ⟨by decide +kernel, trivial⟩).2⟩

/-- The same call, and a moment later: what it returned and what it left open are the two
transactions. -/
theorem lateBlock_outcome :
    (result (exec lateBlock) (oneRemote.tx [7]) ⟨⟨5, [], []⟩, 0, 0⟩).toOption.map TxResponse.hash =
      some (sevenAt 6) ∧
    ∀ t, (after (exec lateBlock) (.op .pause fun _ => .ret ()) (after (exec lateBlock)
        (oneRemote.tx [7]) ⟨⟨5, [], []⟩, 0, 0⟩)).chain.Executed t →
      t.messages = [TxMsg.plain 7] := by
  refine ⟨by decide +kernel, fun t ht => ?_⟩
  obtain ⟨-, ts, -, hmade, hall⟩ := tx_outcome (exec lateBlock) World.chain (exec_lawful lateBlock)
    (exec_honest lateBlock) oneRemote [7] ⟨⟨5, [], []⟩, 0, 0⟩ ⟨nofun, List.nodup_nil⟩
  rcases hall _ t ht with (hold | ⟨hpool, -⟩) | ⟨hmem, -⟩ | ⟨remote, hsaid | hsaid⟩
  · exact absurd hold List.not_mem_nil
  · exact absurd hpool List.not_mem_nil
  · exact (hmade t hmem).1
  · exact absurd hsaid List.not_mem_nil
  · exact absurd hsaid List.not_mem_nil

end Calls

end Dvpnd.Lite
