import Dvpnd.Lib.Ledger
import Dvpnd.Lib.Lists
import Dvpnd.Lib.Prog

/-!
# Sending a transaction

`lite/tx.go` sends the node's messages to the chain through several remotes that may fail
each on its own.  A remote that took a transaction is asked every two seconds whether a block
has it; when all remotes have failed, the client asks for the account's sequence number,
signs and sends again, up to five times.

* `Client.tx` — `Tx` with the functions it calls, over the calls they make (`Op`).
* `Network` — anything that answers these calls: the chain and the remotes.
* `heard`, `story` — what the remotes say of transactions in a run.
* `Lawful`, `Honest` — what is asked of the chain, and of the remotes, as it shows in the chain.
  The client believes a remote that names a hash or says that a block has a transaction, so
  **everything about its outcome rests on `Honest`**.
* `run_effective`, `run_included` — under these, only what a program hands to a remote can be
  executed, and what a remote says of a block is so.
* `exec` — a network that has both, over a chain that may do anything between two calls and
  remotes that may lag, fail or lose an answer.
-/

namespace Dvpnd.Lite

open Effect Ledger

/-! ## Messages, transactions and errors -/

/-- A message as the client sends it: the node's own, or its messages wrapped in one
`MsgExec`. -/
inductive TxMsg (M : Type) where
  | plain (message : M)
  | exec (grantee : String) (messages : List M)
  deriving DecidableEq

/-- What the client sets of a `tx.Factory`. -/
structure Factory where
  accountNumber : Nat
  sequence : Nat
  gas : Nat
  feeGranter : Option String
  deriving DecidableEq

/-- A signed transaction; signing is deterministic, so these say what its bytes and its hash
are. -/
structure SignedTx (M : Type) where
  messages : List (TxMsg M)
  factory : Factory
  deriving DecidableEq

/-- The sequence number a transaction is signed with. -/
def SignedTx.number {M : Type} (t : SignedTx M) : Nat := t.factory.sequence

/-- `authtypes.AccountI`, the two numbers the client reads. -/
structure Account where
  number : Nat
  sequence : Nat
  deriving DecidableEq

/-- `sdk.TxResponse`; the hash names the transaction. -/
structure TxResponse (M : Type) where
  hash : SignedTx M
  code : Nat
  rawLog : String

/-- `abcitypes.CodeTypeOK`. -/
def codeTypeOK : Nat := 0

/-- `sdkerrors.ErrTxInMempoolCache.ABCICode()`. -/
def codeTxInMempoolCache : Nat := 19

/-- The errors of the client. -/
inductive TxError (M : Type) where
  /-- A message from the outside, or the log of a transaction that failed. -/
  | external (msg : String)
  /-- "account %s does not exist" -/
  | accountMissing (address : String)
  /-- "transaction %s was not included within %d seconds" -/
  | notIncluded (hash : SignedTx M) (seconds : Nat)
  /-- `errors.Join` of "%s: %w" for each remote. -/
  | remotes (errs : List (String × TxError M))
  /-- `retry.Error`, one error for each attempt. -/
  | attempts (errs : List (TxError M))
  /-- A nil response is read, which is a panic. -/
  | nilResponse
  /-- The loop that waits for the transaction was cut off. -/
  | unfinished

/-! ## The calls -/

/-- The calls `Tx` makes. -/
inductive Op (M : Type) where
  /-- The `Account` query at one remote. -/
  | account (remote address : String)
  /-- `tx.CalculateGas` at one remote. -/
  | simulate (remote : String) (txf : Factory) (messages : List (TxMsg M))
  /-- `BuildUnsignedTx`, `tx.Sign` and the encoder. -/
  | sign (t : SignedTx M)
  | broadcast (remote : String) (t : SignedTx M)
  | queryTx (remote : String) (hash : SignedTx M)
  | now
  | sleep (nanoseconds : Nat)
  /-- The delay between two attempts. -/
  | pause

/-- What a call returns. -/
@[reducible] def Op.Res {M : Type} : Op M → Type
  | .account _ _ => Except String (Option Account)
  | .simulate _ _ _ => Except String Nat
  | .sign _ => Option String
  | .broadcast _ _ => Except String (TxResponse M)
  | .queryTx _ _ => Except String (TxResponse M)
  | .now => Nat
  | .sleep _ => Unit
  | .pause => Unit

abbrev TxM (M : Type) := Prog (Op.Res (M := M))

/-- `time.Second`. -/
def second : Nat := 1000000000

/-- What `lite.Client` is configured with. -/
structure Client where
  remotes : List String
  fromAddress : String
  granter : Option String
  gas : Nat
  simulateAndExecute : Bool
  /-- In seconds. -/
  txTimeout : Nat

variable {M : Type}

namespace Client

variable (c : Client)

/-- `execMessages`: wrapped in one `MsgExec` when the client acts for a granter. -/
def execMessages (messages : List M) : List (TxMsg M) :=
  match c.granter with
  | none => messages.map .plain
  | some _ => [.exec c.fromAddress messages]

/-- The loop of `query`, `BroadcastTx` and `CalculateGas`: the first remote that succeeds.
`errors.Join` of no errors is nil, so without remotes there is neither a result nor an
error. -/
def tryRemotes {α : Type} (f : String → TxM M (Except (TxError M) α)) :
    List String → List (String × TxError M) → TxM M (Except (TxError M) (Option α))
  | [], [] => return .ok none
  | [], errs => return .error (.remotes errs)
  | remote :: rest, errs => do
      match ← f remote with
      | .ok a => return .ok (some a)
      | .error e => tryRemotes f rest (errs ++ [(remote, e)])

/-- The account at one remote: what `QueryAccount` hands to `query`. -/
def queryAccountAt (remote : String) : TxM M (Except (TxError M) (Option Account)) := do
  match ← Prog.perform (Op.account (M := M) remote c.fromAddress) with
  | .ok result => return .ok result
  | .error e => return .error (.external e)

/-- `QueryAccount`; nil when the chain does not have the account. -/
def queryAccount : TxM M (Except (TxError M) (Option Account)) := do
  match ← tryRemotes c.queryAccountAt c.remotes [] with
  | .ok result => return .ok result.join
  | .error e => return .error e

/-- `calculateGas` at one remote. -/
def calculateGasAt (txf : Factory) (messages : List (TxMsg M)) (remote : String) :
    TxM M (Except (TxError M) Nat) := do
  match ← Prog.perform (Op.simulate remote txf messages) with
  | .ok gas => return .ok gas
  | .error e => return .error (.external e)

/-- `CalculateGas`. -/
def calculateGas (txf : Factory) (messages : List (TxMsg M)) :
    TxM M (Except (TxError M) Nat) := do
  match ← tryRemotes (calculateGasAt txf messages) c.remotes [] with
  | .ok gas => return .ok (gas.getD 0)
  | .error e => return .error e

/-- `PrepareTxFactory`. -/
def prepareTxFactory (messages : List (TxMsg M)) : TxM M (Except (TxError M) Factory) := do
  match ← c.queryAccount with
  | .error e => return .error e
  | .ok none => return .error (.accountMissing c.fromAddress)
  | .ok (some acc) =>
      let txf : Factory := ⟨acc.number, acc.sequence, c.gas, c.granter⟩
      if c.simulateAndExecute then
        match ← c.calculateGas txf messages with
        | .error e => return .error e
        | .ok gas => return .ok { txf with gas := gas }
      else return .ok txf

/-- The loop of `waitForTx`, with a bound on its rounds. -/
def waitLoop (remote : String) (hash : SignedTx M) (deadline : Nat) :
    Nat → TxM M (Except (TxError M) (TxResponse M))
  | 0 => return .error .unfinished
  | rounds + 1 => do
      match ← Prog.perform (Op.queryTx remote hash) with
      | .ok res =>
          if res.code ≠ codeTypeOK then return .error (.external res.rawLog) else return .ok res
      | .error _ =>
          let now ← Prog.perform (Op.now (M := M))
          if deadline < now then return .error (.notIncluded hash c.txTimeout)
          else do
            Prog.perform (Op.sleep (M := M) (2 * second))
            waitLoop remote hash deadline rounds

/-- `waitForTx`.  Every round but the last takes two seconds (`waitForTx_returns`). -/
def waitForTx (remote : String) (hash : SignedTx M) :
    TxM M (Except (TxError M) (TxResponse M)) := do
  let now ← Prog.perform (Op.now (M := M))
  c.waitLoop remote hash (now + c.txTimeout * second) (c.txTimeout / 2 + 2)

/-- `broadcastTx` at one remote. -/
def broadcastTxAt (t : SignedTx M) (remote : String) :
    TxM M (Except (TxError M) (TxResponse M)) := do
  match ← Prog.perform (Op.broadcast remote t) with
  | .error e => return .error (.external e)
  | .ok resp =>
      if resp.code = codeTypeOK ∨ resp.code = codeTxInMempoolCache then
        c.waitForTx remote resp.hash
      else return .error (.external resp.rawLog)

/-- `BroadcastTx`. -/
def broadcastTx (t : SignedTx M) : TxM M (Except (TxError M) (Option (TxResponse M))) :=
  tryRemotes (c.broadcastTxAt t) c.remotes []

/-- `tx`, one attempt. -/
def attempt (messages : List (TxMsg M)) :
    TxM M (Except (TxError M) (Option (TxResponse M))) := do
  match ← c.prepareTxFactory messages with
  | .error e => return .error e
  | .ok txf =>
      match ← Prog.perform (Op.sign ⟨messages, txf⟩) with
      | some e => return .error (.external e)
      | none => c.broadcastTx ⟨messages, txf⟩

/-- The delay before the next attempt; there is none after the last. -/
def delay (left : Nat) : TxM M Unit :=
  if left = 0 then pure () else Prog.perform (Op.pause (M := M))

/-- `retry.Do`, with the attempts that are left and the errors so far.  Before the result is
returned, it is logged: a nil response does not get past that. -/
def retry (messages : List (TxMsg M)) :
    Nat → List (TxError M) → TxM M (Except (TxError M) (TxResponse M))
  | 0, errs => return .error (.attempts errs)
  | left + 1, errs => do
      match ← c.attempt messages with
      | .ok (some res) => return .ok res
      | .ok none => return .error .nilResponse
      | .error e => do
          let _ ← delay (M := M) left
          retry messages left (errs ++ [e])

/-- `Tx`: five attempts, one call at a time. -/
def tx (messages : List M) : TxM M (Except (TxError M) (TxResponse M)) :=
  Prog.withLock (c.retry (c.execMessages messages) 5 [])

end Client

/-! ## The network -/

/-- What answers the calls, with a state of its own. -/
abbrev Network (M W : Type) := (o : Op M) → W → o.Res × W

variable {W : Type}

/-- The client's calls, one after another: the client's mutex keeps others away. -/
def machine (N : Network M W) : Machine (Op.Res (M := M)) Unit W where
  exec := N
  acquire _ w := w

/-! ## What the client hears -/

/-- A remote's code says that it has the transaction, now or before. -/
def TxResponse.Taken (resp : TxResponse M) : Prop :=
  resp.code = codeTypeOK ∨ resp.code = codeTxInMempoolCache

instance TxResponse.decidableTaken (resp : TxResponse M) : Decidable resp.Taken :=
  inferInstanceAs (Decidable (_ ∨ _))

/-- What a remote said of a transaction. -/
inductive Heard (M : Type) where
  /-- Handing it over failed. -/
  | silent (remote : String) (t : SignedTx M)
  /-- It was taken, now or before. -/
  | took (remote : String) (t : SignedTx M)
  | refused (remote : String) (t : SignedTx M)
  /-- It is in a block, executed or not. -/
  | included (remote : String) (t : SignedTx M) (ok : Bool)
  deriving DecidableEq

def Heard.tx : Heard M → SignedTx M
  | .silent _ t | .took _ t | .refused _ t | .included _ t _ => t

/-- What one call says of a transaction. -/
def heard : (Σ o : Op M, o.Res) → Option (Heard M)
  | ⟨.broadcast remote t, .error _⟩ => some (.silent remote t)
  | ⟨.broadcast remote t, .ok resp⟩ =>
      if resp.Taken then some (.took remote t) else some (.refused remote t)
  | ⟨.queryTx remote t, .ok resp⟩ => some (.included remote t (resp.code = codeTypeOK))
  | _ => none

/-- The sequence number one call names. -/
def named : (Σ o : Op M, o.Res) → Option Nat
  | ⟨.account _ _, .ok (some acc)⟩ => some acc.sequence
  | _ => none

section Stories

variable {α β : Type} (N : Network M W) (p : TxM M α) (w : W)

/-- Where a run ends. -/
def after : W := (p.run (machine N) () w).2

/-- What a run returns. -/
def result : α := (p.run (machine N) () w).1

/-- What the remotes say of transactions in a run. -/
def story : List (Heard M) := (p.trace (machine N) () w).filterMap heard

/-- The sequence numbers they name. -/
def numbers : List Nat := (p.trace (machine N) () w).filterMap named

variable (o : Op M) (k : o.Res → TxM M α) (f : α → TxM M β) (a : α)

omit p

@[simp] theorem after_ret : after N (.ret a) w = w := rfl
@[simp] theorem result_ret : result N (.ret a) w = a := rfl
@[simp] theorem story_ret : story N (.ret a) w = [] := rfl
@[simp] theorem numbers_ret : numbers N (.ret a) w = [] := rfl

theorem result_op : result N (.op o k) w = result N (k (N o w).1) (N o w).2 := rfl

theorem story_op : story N (.op o k) w =
    (heard ⟨o, (N o w).1⟩).toList ++ story N (k (N o w).1) (N o w).2 :=
  Lists.filterMap_cons_toList heard _ _

theorem numbers_op : numbers N (.op o k) w =
    (named ⟨o, (N o w).1⟩).toList ++ numbers N (k (N o w).1) (N o w).2 :=
  Lists.filterMap_cons_toList named _ _

variable (p : TxM M α)

theorem result_bind :
    result N (p >>= f) w = result N (f (result N p w)) (after N p w) := by
  simp only [after, result, Prog.run_bind]

theorem story_bind : story N (p >>= f) w =
    story N p w ++ story N (f (result N p w)) (after N p w) := by
  simp only [story, after, result, Prog.trace_bind, List.filterMap_append]

theorem numbers_bind : numbers N (p >>= f) w =
    numbers N p w ++ numbers N (f (result N p w)) (after N p w) := by
  simp only [numbers, after, result, Prog.trace_bind, List.filterMap_append]

end Stories

/-! ## The chain, and remotes that do not lie -/

/-- The chain keeps to an account's sequence numbers, at every call: it only grows, it uses a
number once, and it executes nothing that was not handed in. -/
structure Lawful (N : Network M W) (chain : W → Chain (SignedTx M)) : Prop where
  later : ∀ o w, Chain.Later (chain w) (chain (N o w).2)
  wf : ∀ o w, (chain w).WF SignedTx.number → (chain (N o w).2).WF SignedTx.number
  effective : ∀ o w t, (chain (N o w).2).Effective SignedTx.number t →
    (chain w).Effective SignedTx.number t ∨ ∃ remote, o = .broadcast remote t

/-- The remotes do not lie: one that was handed a transaction names it, one that refused it
has not taken it, and one that says that a transaction is in a block, executed or not, is
right. -/
structure Honest (N : Network M W) (chain : W → Chain (SignedTx M)) : Prop where
  names : ∀ remote t w resp, (N (.broadcast remote t) w).1 = .ok resp → resp.hash = t
  refuses : ∀ remote t w resp, (N (.broadcast remote t) w).1 = .ok resp → ¬ resp.Taken →
    (chain (N (.broadcast remote t) w).2).Effective SignedTx.number t →
      (chain w).Effective SignedTx.number t
  finds : ∀ remote t w resp, (N (.queryTx remote t) w).1 = .ok resp →
    resp.hash = t ∧
      (t, decide (resp.code = codeTypeOK)) ∈ (chain (N (.queryTx remote t) w).2).blocks

/-- Time goes on, also while the client sleeps. -/
structure Timed (N : Network M W) (time : W → Nat) : Prop where
  now : ∀ w, (N .now w).1 = time (N .now w).2
  later : ∀ o w, time w ≤ time (N o w).2
  sleeps : ∀ d w, time w + d ≤ time (N (.sleep d) w).2

section Runs

variable {α : Type} {N : Network M W} {chain : W → Chain (SignedTx M)} {t : SignedTx M}

/-- A remote may have taken the transaction. -/
def Handed (t : SignedTx M) (hs : List (Heard M)) : Prop :=
  ∃ remote, .silent remote t ∈ hs ∨ .took remote t ∈ hs

theorem Handed.append_left {hs : List (Heard M)} (h : Handed t hs) (hs' : List (Heard M)) :
    Handed t (hs ++ hs') := by
  obtain ⟨remote, hr⟩ := h
  exact ⟨remote, hr.imp (List.mem_append_left _) (List.mem_append_left _)⟩

theorem Handed.append_right {hs : List (Heard M)} (h : Handed t hs) (hs' : List (Heard M)) :
    Handed t (hs' ++ hs) := by
  obtain ⟨remote, hr⟩ := h
  exact ⟨remote, hr.imp (List.mem_append_right _) (List.mem_append_right _)⟩

theorem Lawful.run (hN : Lawful N chain) (p : TxM M α) (w : W) :
    Chain.Later (chain w) (chain (after N p w)) ∧
    ((chain w).WF SignedTx.number → (chain (after N p w)).WF SignedTx.number) := by
  induction p generalizing w with
  | ret a => exact ⟨.refl _, id⟩
  | op o k ih =>
      obtain ⟨hlater, hwf⟩ := ih (N o w).1 (N o w).2
      exact ⟨(hN.later o w).trans hlater, hwf ∘ hN.wf o w⟩
  | lock k ih => exact ih w
  | unlock k ih => exact ih w

/-- **What a call makes effective, it was asked to hand in.** -/
theorem exec_effective (hN : Lawful N chain) (hH : Honest N chain) (o : Op M) (w : W)
    (h : (chain (N o w).2).Effective SignedTx.number t) :
    (chain w).Effective SignedTx.number t ∨ Handed t (heard ⟨o, (N o w).1⟩).toList := by
  rcases hN.effective o w t h with hold | ⟨remote, rfl⟩
  · exact .inl hold
  · cases hr : (N (.broadcast remote t) w).1 with
    | error e => exact .inr ⟨remote, .inl (by simp [heard])⟩
    | ok resp =>
        by_cases htaken : resp.Taken
        · exact .inr ⟨remote, .inr (by simp [heard, htaken])⟩
        · exact .inl (hH.refuses remote t w resp hr htaken h)

/-- What a call says of the blocks is so. -/
theorem exec_included (hH : Honest N chain) (o : Op M) (w : W) {remote : String} {ok : Bool}
    (h : heard ⟨o, (N o w).1⟩ = some (.included remote t ok)) :
    (t, ok) ∈ (chain (N o w).2).blocks := by
  cases o with
  | queryTx r u =>
      cases hr : (N (.queryTx r u) w).1 with
      | error e =>
          rw [hr] at h
          cases h
      | ok resp =>
          rw [hr] at h
          cases h
          exact (hH.finds remote t w resp hr).2
  | broadcast r u =>
      rcases hr : (N (.broadcast r u) w).1 with e | resp
      · rw [hr] at h
        cases h
      · rw [hr] at h
        simp only [heard] at h
        split at h <;> cases h
  | account _ _ | simulate _ _ _ | sign _ | now | sleep _ | pause => cases h

/-- What a run makes effective, a remote has heard of. -/
theorem run_effective (hN : Lawful N chain) (hH : Honest N chain) (p : TxM M α) (w : W)
    (h : (chain (after N p w)).Effective SignedTx.number t) :
    (chain w).Effective SignedTx.number t ∨ Handed t (story N p w) := by
  induction p generalizing w with
  | ret a => exact .inl h
  | op o k ih =>
      rw [story_op]
      rcases ih _ _ h with hexec | hlater
      · exact (exec_effective hN hH o w hexec).imp id fun hh => hh.append_left _
      · exact .inr (hlater.append_right _)
  | lock k ih => exact ih w h
  | unlock k ih => exact ih w h

/-- What the remotes say of the blocks in a run is so at its end. -/
theorem run_included (hN : Lawful N chain) (hH : Honest N chain) (p : TxM M α) (w : W)
    {remote : String} {ok : Bool} (h : .included remote t ok ∈ story N p w) :
    (t, ok) ∈ (chain (after N p w)).blocks := by
  induction p generalizing w with
  | ret a => exact absurd h List.not_mem_nil
  | op o k ih =>
      rw [story_op] at h
      rcases List.mem_append.1 h with hnow | hlater
      · have hmem := exec_included hH o w (Option.mem_toList.1 hnow)
        exact (hN.run (k _) _).1.blocks.subset hmem
      · exact ih _ _ hlater
  | lock k ih => exact ih w h
  | unlock k ih => exact ih w h

end Runs

/-! ## A network that has the laws -/

/-- What happens from one call to the next, and what the remote that is then called makes of
it. -/
structure Moment (M : Type) where
  /-- What the chain does first. -/
  events : List (Event (SignedTx M))
  /-- How long it takes, in nanoseconds. -/
  elapsed : Nat
  /-- An error, no such account, or its number and how far the remote lags behind. -/
  account : Except String (Option (Nat × Nat))
  simulate : Except String Nat
  sign : Option String
  /-- An error, after which the remote may have taken the transaction all the same, or a code
  with its log: the remote has taken it exactly if the code says so. -/
  broadcast : Except (String × Bool) (Nat × String)
  /-- An error, or the log of the answer. -/
  queryTx : Except String String

/-- What the chain and the remotes do at each call. -/
abbrev Env (M : Type) := Nat → Moment M

/-- The chain, the time and the number of calls so far. -/
structure World (M : Type) where
  chain : Chain (SignedTx M)
  time : Nat
  calls : Nat

variable [DecidableEq M]

/-- What has happened when a call is made. -/
def World.advance (env : Env M) (w : World M) : World M where
  chain := w.chain.evolve SignedTx.number (env w.calls).events
  time := w.time + (env w.calls).elapsed
  calls := w.calls + 1

/-- What such a remote answers when it is asked for a transaction. -/
def lookup (chain : Chain (SignedTx M)) (hash : SignedTx M) :
    Except String String → Except String (TxResponse M)
  | .error e => .error e
  | .ok rawLog =>
      if (hash, true) ∈ chain.blocks then .ok ⟨hash, codeTypeOK, rawLog⟩
      else if (hash, false) ∈ chain.blocks then .ok ⟨hash, codeTypeOK + 1, rawLog⟩
      else .error "tx not found"

/-- What it makes of a transaction it is handed. -/
def receive (chain : Chain (SignedTx M)) (t : SignedTx M) :
    Except (String × Bool) (Nat × String) →
      Except String (TxResponse M) × Chain (SignedTx M)
  | .error (e, taken) => (.error e, if taken then chain.take t else chain)
  | .ok (code, rawLog) =>
      (.ok ⟨t, code, rawLog⟩, if code = codeTypeOK then chain.take t else chain)

/-- One call. -/
def exec (env : Env M) : Network M (World M)
  | .account _ _, w =>
      let w' := w.advance env
      ((env w.calls).account.map fun found =>
        found.map fun a => ⟨a.1, w'.chain.sequence - a.2⟩, w')
  | .simulate _ _ _, w => ((env w.calls).simulate, w.advance env)
  | .sign _, w => ((env w.calls).sign, w.advance env)
  | .broadcast _ t, w =>
      let w' := w.advance env
      let r := receive w'.chain t (env w.calls).broadcast
      (r.1, { w' with chain := r.2 })
  | .queryTx _ hash, w =>
      let w' := w.advance env
      (lookup w'.chain hash (env w.calls).queryTx, w')
  | .now, w => ((w.advance env).time, w.advance env)
  | .sleep d, w =>
      let w' := w.advance env
      ((), { w' with time := w'.time + d })
  | .pause, w => ((), w.advance env)

section Exec

variable {env : Env M} {chain : Chain (SignedTx M)} {t : SignedTx M}

omit [DecidableEq M] in
/-- The chain after a transaction was handed over is as before, or has taken it. -/
theorem receive_chain (chain : Chain (SignedTx M)) (t : SignedTx M)
    (answer : Except (String × Bool) (Nat × String)) :
    (receive chain t answer).2 = chain ∨ (receive chain t answer).2 = chain.take t := by
  rcases answer with ⟨e, _ | _⟩ | ⟨code, rawLog⟩
  · exact .inl rfl
  · exact .inr rfl
  · simp only [receive]
    split
    · exact .inr rfl
    · exact .inl rfl

omit [DecidableEq M] in
theorem receive_ok {answer : Except (String × Bool) (Nat × String)} {resp : TxResponse M}
    (h : (receive chain t answer).1 = .ok resp) :
    resp.hash = t ∧ (¬ resp.Taken → (receive chain t answer).2 = chain) := by
  rcases answer with ⟨e, taken⟩ | ⟨code, rawLog⟩
  · cases h
  · cases h
    exact ⟨rfl, fun hnot => if_neg fun hcode => hnot (.inl hcode)⟩

theorem lookup_ok {answer : Except String String} {resp : TxResponse M}
    (h : lookup chain t answer = .ok resp) :
    resp.hash = t ∧ (t, decide (resp.code = codeTypeOK)) ∈ chain.blocks := by
  cases answer with
  | error e => cases h
  | ok rawLog =>
      simp only [lookup] at h
      split at h
      · cases h
        exact ⟨rfl, by assumption⟩
      · split at h
        · cases h
          exact ⟨rfl, by assumption⟩
        · cases h

variable (env) in
/-- The chain keeps to the numbers, whatever happens between two calls. -/
theorem exec_lawful : Lawful (exec env) World.chain where
  later o w := by
    have hlater : Chain.Later w.chain (w.advance env).chain := Chain.evolve_later _
    cases o with
    | broadcast remote u =>
        refine hlater.trans ?_
        show Chain.Later _ (receive _ _ _).2
        rcases receive_chain (w.advance env).chain u (env w.calls).broadcast with h | h <;> rw [h]
        · exact .refl _
        · exact Chain.take_later u
    | account _ _ | simulate _ _ _ | sign _ | queryTx _ _ | now | sleep _ | pause => exact hlater
  wf o w hwf := by
    have hwf' : (w.advance env).chain.WF SignedTx.number := hwf.evolve _
    cases o with
    | broadcast remote u =>
        show Chain.WF _ (receive _ _ _).2
        rcases receive_chain (w.advance env).chain u (env w.calls).broadcast with h | h <;> rw [h]
        · exact hwf'
        · exact hwf'.take u
    | account _ _ | simulate _ _ _ | sign _ | queryTx _ _ | now | sleep _ | pause => exact hwf'
  effective o w t h := by
    cases o with
    | broadcast remote u =>
        have h' : (receive (w.advance env).chain u (env w.calls).broadcast).2.Effective
          SignedTx.number t := h
        rcases receive_chain (w.advance env).chain u (env w.calls).broadcast with hr | hr <;>
          rw [hr] at h'
        · exact .inl (Chain.effective_of_evolve _ h')
        · rcases Chain.effective_of_take h' with hold | rfl
          · exact .inl (Chain.effective_of_evolve _ hold)
          · exact .inr ⟨remote, rfl⟩
    | account _ _ | simulate _ _ _ | sign _ | queryTx _ _ | now | sleep _ | pause =>
        exact .inl (Chain.effective_of_evolve _ h)

variable (env) in
/-- The remotes say what is so. -/
theorem exec_honest : Honest (exec env) World.chain where
  names remote t w resp h := (receive_ok h).1
  refuses remote t w resp h hnot heff := by
    have hsame : (exec env (.broadcast remote t) w).2.chain = (w.advance env).chain :=
      (receive_ok h).2 hnot
    rw [hsame] at heff
    exact Chain.effective_of_evolve _ heff
  finds remote t w resp h := lookup_ok h

variable (env) in
theorem exec_timed : Timed (exec env) World.time where
  now _ := rfl
  later o w := by
    cases o with
    | sleep d => exact (Nat.le_add_right _ _).trans (Nat.le_add_right _ _)
    | account _ _ | simulate _ _ _ | sign _ | broadcast _ _ | queryTx _ _ | now | pause =>
        exact Nat.le_add_right _ _
  sleeps _ _ := Nat.add_le_add_right (Nat.le_add_right _ _) _

end Exec

end Dvpnd.Lite
