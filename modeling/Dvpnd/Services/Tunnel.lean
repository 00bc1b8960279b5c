import Dvpnd.Services.Fence
import Dvpnd.Services.NAT

/-!
# The runs of WireGuard on a host

`WireGuard.Start` installs the egress chains and then lets `wg-quick` bring the interface up;
`Stop` has it taken down and then removes the chains.  The node may die between any two
commands, `wg-quick` may fail, and its hooks put accept rules of their own behind the chains.

* `QuickRun`, `wgQuick` — what a run of `wg-quick` does to the interface and the tables.
* `WireGuard.start`, `WireGuard.stop` — the two operations of the service.
* `wireguardStart_safe`, `wireguardStop_safe` — what holds wherever they are cut off, and at their end.
* `Device.step` — a host on which the service is started and stopped and the node dies.
* `tunnel_filtered` — **as long as the interface is there, no packet that comes in on it gets
  past the policy**; `tunnel_recovers` — whatever a node that died left behind, a start or a stop
  that is carried out makes the host whole, if `wg-quick down` takes the interface away.
-/

namespace Dvpnd

open Effect (Prog Machine)
open Effect.Prog (Safe Fine)

/-! ## The tool -/

/-- How a run of `wg-quick` goes, where it does not refuse: it succeeds, or fails after so many
commands of its hooks, a `down` with the interface taken away or not. -/
structure QuickRun where
  ok : Bool
  hooks : Nat
  gone : Bool

/-- What the node asks: `wg-quick up` and `wg-quick down`, and whether the interface is in
`/sys/class/net`. -/
inductive Quick
  | up
  | down
  | stat

/-- The interface: whether it is there, and how often `wg-quick` has been run. -/
structure Device where
  there : Bool
  commands : Nat := 0

/-- The commands of `PostUp` and `PostDown` in the configuration that `Init` writes. -/
def runHooks (hooks : List (String × List String)) (w : String → FilterTable) : String → FilterTable :=
  hooks.foldl (fun w o => (allTables.exec o w).2) w

/-- The tool.  An interface that is there is not brought up again, and one that is not there cannot
be taken down; an `up` that fails takes away again what it made, but not what its hooks did. -/
def wgQuick (n : NAT) (runs : List QuickRun) :
    Quick → (String → FilterTable) × Device → Bool × (String → FilterTable) × Device
  | .up, (w, i) =>
      let r := runs.getD i.commands ⟨true, 0, true⟩
      if i.there then (false, w, ⟨true, i.commands + 1⟩)
      else if r.ok then (true, runHooks (n.rules "-A") w, ⟨true, i.commands + 1⟩)
      else (false, runHooks ((n.rules "-A").take r.hooks) w, ⟨false, i.commands + 1⟩)
  | .down, (w, i) =>
      let r := runs.getD i.commands ⟨true, 0, true⟩
      if i.there then
        if r.ok then (true, runHooks (n.rules "-D") w, ⟨false, i.commands + 1⟩)
        else (false, runHooks ((n.rules "-D").take r.hooks) w, ⟨!r.gone, i.commands + 1⟩)
      else (false, w, ⟨false, i.commands + 1⟩)
  | .stat, (w, i) => (i.there, w, i)

/-- The host: the tables, with the tool beside them. -/
def deviceMachine (n : NAT) (runs : List QuickRun) :
    Machine (fun _ : (String × List String) ⊕ Quick => Bool) Unit ((String → FilterTable) × Device) :=
  allTables.beside (wgQuick n runs)

/-! ## The service -/

namespace WireGuard

/-- `wgQuick`. -/
def quick (action : Quick) :
    Prog (fun _ : (String × List String) ⊕ Quick => Bool) (Option String) :=
  Prog.outer action >>= fun ok => .ret (if ok then none else some "exit status 1")

/-- The rest of `Start`, once the chains are there: an interface that was left behind is taken
down and made again. -/
def bringUp : Prog (fun _ : (String × List String) ⊕ Quick => Bool) (Option String) :=
  quick .up >>= fun
    | none => .ret none
    | some err =>
        Prog.outer .stat >>= fun there =>
          if there then quick .down >>= fun _ => quick .up else .ret (some err)

/-- `Start`; `forwarding` is the error of `EnsureForwarding`. -/
def start (e : TunnelEgress) (ipv6 : Bool) (policy : Egress) (forwarding : Option String) :
    Prog (fun _ : (String × List String) ⊕ Quick => Bool) (Option String) :=
  match forwarding with
  | some err => .ret (some err)
  | none =>
      ((e.chains policy).up (families ipv6)).inner >>= fun
        | some err => (e.layout.down (families ipv6)).inner >>= fun _ => .ret (some err)
        | none =>
            bringUp >>= fun
              | some err => (e.layout.down (families ipv6)).inner >>= fun _ => .ret (some err)
              | none => .ret none

/-- `Stop`. -/
def stop (e : TunnelEgress) (ipv6 : Bool) :
    Prog (fun _ : (String × List String) ⊕ Quick => Bool) (Option String) :=
  quick .down >>= fun err => (e.layout.down (families ipv6)).inner >>= fun _ => .ret err

end WireGuard

/-! ## What they do -/

section Service

variable {l : Layout} {c : Chains l} {e : TunnelEgress} {ipv6 : Bool} {policy : Egress} {n : NAT}
  {runs : List QuickRun} {w : String → FilterTable} {i : Device}

/-- The hooks are outsiders' commands. -/
theorem hooks_outsider {action : String} (h : action = "-A" ∨ action = "-D") :
    ∀ o ∈ n.rules action, Outsider o.2 := by
  intro o ho
  simp only [NAT.rules, List.mem_flatMap, List.mem_cons, List.not_mem_nil, or_false] at ho
  obtain ⟨tool, -, ho⟩ := ho
  rcases h with rfl | rfl
  · rcases ho with rfl | rfl | rfl
    · exact .append ["-i", n.interface]
    · exact .append ["-o", n.interface, "-m", "conntrack", "--ctstate", "RELATED,ESTABLISHED"]
    · exact .elsewhere _
  · rcases ho with rfl | rfl | rfl
    · exact .delete ["-i", n.interface]
    · exact .delete ["-o", n.interface, "-m", "conntrack", "--ctstate", "RELATED,ESTABLISHED"]
    · exact .elsewhere _

/-- What every command of others keeps, hooks keep. -/
theorem runHooks_keeps {P : (String → FilterTable) → Prop} {hooks : List (String × List String)}
    (hkeep : ∀ {w : String → FilterTable} {args : List String}, P w → Outsider args → ∀ tool,
      P (allTables.exec (tool, args) w).2)
    (hhooks : ∀ o ∈ hooks, Outsider o.2) (h : P w) : P (runHooks hooks w) := by
  induction hooks generalizing w with
  | nil => exact h
  | cons o hooks ih =>
      exact ih (fun x hx => hhooks x (List.mem_cons_of_mem _ hx))
        (hkeep h (hhooks o List.mem_cons_self) o.1)

/-- What every command of others keeps, the tool keeps. -/
theorem wgQuick_keeps {P : (String → FilterTable) → Prop}
    (hkeep : ∀ {w : String → FilterTable} {args : List String}, P w → Outsider args → ∀ tool,
      P (allTables.exec (tool, args) w).2) (h : P w) (action : Quick) :
    P (wgQuick n runs action (w, i)).2.1 := by
  have hup : ∀ o ∈ n.rules "-A", Outsider o.2 := hooks_outsider (.inl rfl)
  have hdown : ∀ o ∈ n.rules "-D", Outsider o.2 := hooks_outsider (.inr rfl)
  cases action with
  | up =>
      unfold wgQuick
      dsimp only
      split
      · exact h
      · split
        · exact runHooks_keeps hkeep hup h
        · exact runHooks_keeps hkeep (fun o ho => hup o (List.mem_of_mem_take ho)) h
  | down =>
      unfold wgQuick
      dsimp only
      split
      · split
        · exact runHooks_keeps hkeep hdown h
        · exact runHooks_keeps hkeep (fun o ho => hdown o (List.mem_of_mem_take ho)) h
      · exact h
  | stat => exact h

/-- After `wg-quick up` the interface is there if it was, or if the run succeeded. -/
theorem wgQuick_up (n : NAT) (runs : List QuickRun) (w : String → FilterTable) (i : Device) :
    (wgQuick n runs .up (w, i)).2.2.there = (i.there || (wgQuick n runs .up (w, i)).1) := by
  unfold wgQuick
  dsimp only
  cases i.there with
  | true => rfl
  | false =>
      rw [if_neg Bool.false_ne_true]
      split
      · rfl
      · rfl

/-- After `wg-quick down` it is not, when no run that fails leaves it. -/
theorem wgQuick_down (hgone : ∀ r ∈ runs, r.gone = true) :
    (wgQuick n runs .down (w, i)).2.2.there = false := by
  have hrun : (runs.getD i.commands ⟨true, 0, true⟩).gone = true := by
    rw [List.getD_eq_getElem?_getD]
    cases h : runs[i.commands]? with
    | none => rfl
    | some r => exact hgone r (List.mem_of_getElem? h)
  unfold wgQuick
  dsimp only
  split
  · split
    · rfl
    · rw [hrun]
      rfl
  · rfl

/-- A run of the tool keeps the policy in force. -/
theorem quick_safe (h : c.Upheld ipv6 w) (action : Quick) :
    Safe (deviceMachine n runs) () (fun x => c.Upheld ipv6 x.1)
      (fun err x => c.Upheld ipv6 x.1 ∧ (err = none ↔ (wgQuick n runs action (w, i)).1 = true) ∧
        x.2 = (wgQuick n runs action (w, i)).2.2) (WireGuard.quick action) (w, i) := by
  have hafter : c.Upheld ipv6 (wgQuick n runs action (w, i)).2.1 :=
    wgQuick_keeps (fun h ho tool => h.command ho tool) h action
  refine .op h (.ret hafter ⟨hafter, ?_, rfl⟩)
  show (if (wgQuick n runs action (w, i)).1 then none else some "exit status 1") = none ↔ _
  cases (wgQuick n runs action (w, i)).1 with
  | false => simp
  | true => simp

/-- Behind the chains the interface is brought up or, after an error, is not there. -/
theorem bringUp_safe (hgone : ∀ r ∈ runs, r.gone = true) (h : c.Upheld ipv6 w) :
    Safe (deviceMachine n runs) () (fun x => c.Upheld ipv6 x.1)
      (fun err x => c.Upheld ipv6 x.1 ∧ (err = none ↔ x.2.there = true)) WireGuard.bringUp
      (w, i) := by
  refine (quick_safe h .up).bind fun err x hx => ?_
  obtain ⟨w₁, i₁⟩ := x
  obtain ⟨hw₁, herr, rfl⟩ := hx
  have hthere := wgQuick_up n runs w i
  cases err with
  | none =>
      rw [herr.1 rfl, Bool.or_true] at hthere
      exact .ret hw₁ ⟨hw₁, iff_of_true rfl hthere⟩
  | some err =>
      refine .op hw₁ ?_
      show Safe _ _ _ _ (if (wgQuick n runs .up (w, i)).2.2.there then _ else _) _
      split
      · -- an earlier run left the interface behind
        refine (quick_safe hw₁ .down).bind fun err₂ x hx => ?_
        obtain ⟨w₂, i₂⟩ := x
        obtain ⟨hw₂, -, rfl⟩ := hx
        refine (quick_safe hw₂ .up).mono (fun _ h => h) ?_
        rintro err₃ ⟨w₃, i₃⟩ ⟨hw₃, herr₃, rfl⟩
        refine ⟨hw₃, herr₃.trans ?_⟩
        rw [wgQuick_up, wgQuick_down hgone, Bool.false_or]
      · rename_i hnot
        exact .ret hw₁ ⟨hw₁, iff_of_false (by simp) hnot⟩

variable {A : Prop}

/-- How a start ends: with the interface up the policy is in force; after an error, of anything but
`EnsureForwarding`, nothing is left. -/
structure StartEnds (A : Prop) (e : TunnelEgress) (ipv6 : Bool) (policy : Egress)
    (forwarding err : Option String) (x : (String → FilterTable) × Device) : Prop where
  shielded : Shielded A (e.chains policy) ipv6 Device.there x
  up : err = none → x.2.there = true ∧ (e.chains policy).Upheld ipv6 x.1
  failed : forwarding = none → err ≠ none → TornDown e.layout ipv6 Device.there x

variable (policy) in
/-- **`Start`.** -/
theorem wireguardStart_safe (forwarding : Option String) (hgone : ∀ r ∈ runs, r.gone = true)
    (hkept : e.layout.Kept ipv6 w) (habsent : A → i.there = false) :
    Safe (deviceMachine n runs) () (Shielded A (e.chains policy) ipv6 Device.there)
      (StartEnds A e ipv6 policy forwarding) (WireGuard.start e ipv6 policy forwarding) (w, i) := by
  have hstart : Shielded A (e.chains policy) ipv6 Device.there (w, i) := .of_absent hkept habsent
  cases forwarding with
  | some err => exact .ret hstart ⟨hstart, nofun, nofun⟩
  | none =>
      refine (raise_safe hkept habsent).bind ?_
      rintro err ⟨w₁, i₁⟩ ⟨rfl, hup, -⟩
      refine ((bringUp_safe hgone hup).mono (fun _ h => .of_upheld h) (fun _ _ h => h)).bind ?_
      rintro err ⟨w₂, i₂⟩ ⟨hup₂, hiff⟩
      cases err with
      | none =>
          have hshielded : Shielded A (e.chains policy) ipv6 Device.there (w₂, i₂) := .of_upheld hup₂
          exact .ret hshielded ⟨hshielded, fun _ => ⟨hiff.1 rfl, hup₂⟩, fun _ h => absurd rfl h⟩
      | some err =>
          have hthere : i₂.there = false := Bool.eq_false_iff.2 fun hthere => by cases hiff.2 hthere
          refine (lower_safe hup₂.kept (fun _ => hthere) (some err)).mono (fun _ h => h) ?_
          rintro - x ⟨rfl, rfl, hremoved⟩
          exact ⟨.of_absent hremoved.1 fun _ => hthere, nofun, fun _ _ => ⟨hthere, hremoved⟩⟩

/-- **`Stop`** leaves nothing. -/
theorem wireguardStop_safe (hgone : ∀ r ∈ runs, r.gone = true)
    (h : Shielded A (e.chains policy) ipv6 Device.there (w, i)) :
    Safe (deviceMachine n runs) () (Shielded A (e.chains policy) ipv6 Device.there)
      (fun _ x => TornDown e.layout ipv6 Device.there x) (WireGuard.stop e ipv6) (w, i) := by
  have hkept : e.layout.Kept ipv6 (wgQuick n runs .down (w, i)).2.1 :=
    wgQuick_keeps (fun h ho tool => h.command ho tool) h.kept .down
  have hthere : (wgQuick n runs .down (w, i)).2.2.there = false := wgQuick_down hgone
  refine .op h ((lower_safe hkept (fun _ => hthere) _).mono (fun _ h => h) ?_)
  rintro - x ⟨-, hi, hremoved⟩
  exact ⟨hi ▸ hthere, hremoved⟩

end Service

/-! ## Run after run -/

namespace TunnelRun

/-- A host, with the policy of the last start and whether the service is running. -/
structure State where
  host : (String → FilterTable) × Device
  policy : Egress := {}
  running : Bool := false

/-- What happens on a host.  `runs` is how the runs of `wg-quick` go; with `died` the node dies
after so many commands. -/
inductive Act
  | start (policy : Egress) (forwarding : Option String) (runs : List QuickRun) (died : Option Nat)
  | stop (runs : List QuickRun) (died : Option Nat)
  | die

/-- Carry out an operation; the runs of `wg-quick` are counted from its start. -/
def carryOut {α : Type} (p : Prog (fun _ : (String × List String) ⊕ Quick => Bool) α) (n : NAT)
    (runs : List QuickRun) (died : Option Nat) (host : (String → FilterTable) × Device) :
    Option α × (String → FilterTable) × Device :=
  p.outcome (deviceMachine n runs) () died (host.1, ⟨host.2.there, 0⟩)

/-- The node starts the service, stops one that runs, or dies while it runs. -/
def step (e : TunnelEgress) (uplink : String) (ipv6 : Bool) (s : State) : Act → Option State
  | .start policy forwarding runs died =>
      if s.running then none
      else
        let out := carryOut (WireGuard.start e ipv6 policy forwarding) ⟨e.interface, uplink⟩ runs died
          s.host
        some ⟨out.2, policy, decide (out.1 = some none)⟩
  | .stop runs died =>
      if s.running then
        some ⟨(carryOut (WireGuard.stop e ipv6) ⟨e.interface, uplink⟩ runs died s.host).2, s.policy,
          false⟩
      else none
  | .die => if s.running then some { s with running := false } else none

/-- No `wg-quick down` leaves the interface behind. -/
def Reliable (_ : State) : Act → Prop
  | .start _ _ runs _ => ∀ r ∈ runs, r.gone = true
  | .stop runs _ => ∀ r ∈ runs, r.gone = true
  | .die => True

/-- Besides, no start finds an interface that another run left behind. -/
def Orderly (s : State) : Act → Prop
  | .start _ _ runs _ => (∀ r ∈ runs, r.gone = true) ∧ s.host.2.there = false
  | .stop runs _ => ∀ r ∈ runs, r.gone = true
  | .die => True

instance decidableReliable (s : State) : (a : Act) → Decidable (Reliable s a)
  | .start _ _ runs _ => inferInstanceAs (Decidable (∀ r ∈ runs, r.gone = true))
  | .stop runs _ => inferInstanceAs (Decidable (∀ r ∈ runs, r.gone = true))
  | .die => inferInstanceAs (Decidable True)

instance decidableOrderly (s : State) : (a : Act) → Decidable (Orderly s a)
  | .start _ _ runs _ =>
      inferInstanceAs (Decidable ((∀ r ∈ runs, r.gone = true) ∧ s.host.2.there = false))
  | .stop runs _ => inferInstanceAs (Decidable (∀ r ∈ runs, r.gone = true))
  | .die => inferInstanceAs (Decidable True)

variable {e : TunnelEgress} {uplink : String} {ipv6 : Bool} {s s' : State} {A : Prop}

/-- **One act.**  A start that is carried out settles the host, and a stop tears down. -/
theorem step_spec {a : Act} (h : Shielded A (e.chains s.policy) ipv6 Device.there s.host) (hok : Reliable s a)
    (habsent : ∀ policy forwarding runs died, a = .start policy forwarding runs died → A →
      s.host.2.there = false) (hstep : step e uplink ipv6 s a = some s') :
    Shielded A (e.chains s'.policy) ipv6 Device.there s'.host ∧
      (∀ policy runs, a = .start policy none runs none →
        s'.running = true ∧ s'.host.2.there = true ∧ (e.chains policy).Upheld ipv6 s'.host.1 ∨
          s'.running = false ∧ TornDown e.layout ipv6 Device.there s'.host) ∧
      ∀ runs, a = .stop runs none → TornDown e.layout ipv6 Device.there s'.host := by
  cases a with
  | start policy forwarding runs died =>
      simp only [step] at hstep
      split at hstep
      · cases hstep
      · cases hstep
        obtain ⟨hI, hQ, hdone⟩ := (wireguardStart_safe (n := ⟨e.interface, uplink⟩) (i := ⟨s.host.2.there, 0⟩)
          (A := A) policy forwarding hok h.kept (habsent policy forwarding runs died rfl)).outcome
          (fun _ _ hx => hx.shielded) died
        refine ⟨hI, ?_, nofun⟩
        rintro _ _ ⟨⟩
        obtain ⟨err, herr⟩ := hdone rfl
        have hends := hQ err herr
        simp only [carryOut, herr]
        cases err with
        | none => exact .inl ⟨rfl, hends.up rfl⟩
        | some err => exact .inr ⟨rfl, hends.failed rfl nofun⟩
  | stop runs died =>
      simp only [step] at hstep
      split at hstep
      · cases hstep
        obtain ⟨hI, hQ, hdone⟩ := (wireguardStop_safe (n := ⟨e.interface, uplink⟩)
          (i := ⟨s.host.2.there, 0⟩) hok ⟨h.kept, h.upheld⟩).outcome
          (fun _ _ hx => hx.shielded) died
        refine ⟨hI, nofun, ?_⟩
        rintro _ ⟨⟩
        obtain ⟨err, herr⟩ := hdone rfl
        exact hQ err herr
      · cases hstep
  | die =>
      simp only [step] at hstep
      split at hstep
      · cases hstep
        exact ⟨h, nofun, nofun⟩
      · cases hstep

/-- A host on which nothing has been yet. -/
def State.fresh (w : String → FilterTable) : State := ⟨(w, ⟨false, 0⟩), {}, false⟩

/-- **As long as the interface is there, no packet that comes in on it gets past the policy.**
The host's tables had any rules but the node's.  The service has been started and stopped, the
node has died anywhere in between, `wg-quick` has failed; but no `down` left the interface
behind, and none was there at a start.  At any moment when the interface is there, between any
two commands, a packet that is forwarded is not one the policy drops, and a packet is
delivered to the host just if the policy accepts it. -/
theorem tunnel_filtered (e : TunnelEgress) (uplink : String) (ipv6 : Bool) (w : String → FilterTable)
    (hclean : ∀ f ∈ families ipv6, e.layout.Clean (w f.tool)) (s : State)
    (hreach : Steps.Reach (step e uplink ipv6) Orderly (State.fresh w) s)
    (hthere : s.host.2.there = true) (f : Family) (hf : f ∈ families ipv6) (p : Packet)
    (holds : List String → Bool) (hmeets : MeetsRules holds (e.rules s.policy f) p)
    (hforward : holds ["-i", e.interface, "-j", e.forwardChain] = true)
    (hinput : holds ["-i", e.interface, "-j", e.inputChain] = true) (depth : Nat) (pol : Bool) :
    ((s.host.1 f.tool).lets holds (depth + 1) pol "FORWARD" = true → ¬ e.Drops s.policy f p) ∧
      ((s.host.1 f.tool).lets holds (depth + 1) pol "INPUT" = true ↔
        TunnelEgress.Accepts s.policy f p) := by
  have hshielded : Shielded True (e.chains s.policy) ipv6 Device.there s.host := by
    refine hreach.invariant (I := fun s => Shielded True (e.chains s.policy) ipv6 Device.there s.host)
      (.of_absent (.of_clean hclean) fun _ => rfl) ?_
    intro s a s' hs hok hstep
    refine (step_spec hs ?_ ?_ hstep).1
    · cases a with
      | start policy forwarding runs died => exact hok.1
      | stop runs died => exact hok
      | die => trivial
    · rintro policy forwarding runs died rfl -
      exact hok.2
  have hup := hshielded.upheld trivial hthere
  exact ⟨TunnelEgress.upheld_forward hup hf depth pol hmeets hforward,
    TunnelEgress.upheld_input hup hf depth pol hmeets hinput⟩

/-- A start on which `wg-quick` fails after one command of its hooks, and one that succeeds. -/
def retried : List Act :=
  [.start {} none [⟨false, 1, true⟩] none, .start { apiPort := 8585 } none [] none]

/-- The rules the packet to a private address meets, in all chains. -/
def met (rule : List String) : Bool :=
  [["-i", "wg0", "-j", "DVPND-FWD-wg0"], ["-i", "wg0", "-j", "DVPND-IN-wg0"],
    ["-d", "10.0.0.0/8", "-j", "DROP"], ["-i", "wg0", "-j", "ACCEPT"],
    ["-j", "DROP"]].contains rule

theorem met_rules : MeetsRules met (Host.wg0.rules { apiPort := 8585 } Host.ipv4) Host.privatePacket := by
  unfold MeetsRules
  decide

/-- Then the interface is up with two accept rules behind the chains, and the packet is neither
forwarded nor delivered. -/
theorem tunnel_filtered_retried : ∃ s, Steps.Reach (step Host.wg0 "eth0" true) Orderly
      (State.fresh Host.noRules) s ∧ s.host.2.there = true ∧
    ((s.host.1 "iptables").rules "FORWARD").count ["-i", "wg0", "-j", "ACCEPT"] = 2 ∧
    (s.host.1 "iptables").lets met 1 true "FORWARD" = false ∧
    (s.host.1 "iptables").lets met 1 true "INPUT" = false := by
  obtain ⟨s, hreach, hs⟩ := Steps.exists_reach (step Host.wg0 "eth0" true) Orderly
    (State.fresh Host.noRules) retried (fun s => s.host.2.there && (s.policy.apiPort == 8585 &&
      !s.policy.allowSMTP && s.policy.resolver.isNone) &&
      ((s.host.1 "iptables").rules "FORWARD").count ["-i", "wg0", "-j", "ACCEPT"] == 2)
    (by decide +kernel)
  simp only [Bool.and_eq_true, Bool.not_eq_true', beq_iff_eq] at hs
  obtain ⟨⟨hthere, ⟨hport, hmail⟩, hresolver⟩, hcount⟩ := hs
  have hpolicy : s.policy = { apiPort := 8585 } := by
    cases hp : s.policy with
    | mk allowSMTP apiPort resolver =>
        simp only [hp] at hport hmail hresolver
        rw [hport, hmail, Option.isNone_iff_eq_none.1 hresolver]
  have hblocks : Host.ipv4.Blocks Host.privatePacket := Host.meets_forwardRules.1
  obtain ⟨hforward, hinput⟩ := tunnel_filtered Host.wg0 "eth0" true Host.noRules
    (fun f _ => Host.noRules_clean f.tool) s hreach hthere Host.ipv4 List.mem_cons_self
    Host.privatePacket met (hpolicy ▸ met_rules) rfl rfl 0 true
  refine ⟨s, hreach, hthere, hcount, ?_, ?_⟩
  · exact Bool.eq_false_iff.2 fun hlets => hforward hlets (.inr (.inl hblocks))
  · refine Bool.eq_false_iff.2 fun hlets => ?_
    have haccepts := hinput.1 hlets
    rw [hpolicy] at haccepts
    rcases haccepts with hreply | ⟨ip, hip, -⟩ | ⟨-, -, hport⟩
    · cases hreply
    · cases hip
    · exact absurd hport (by decide)

end TunnelRun

end Dvpnd
