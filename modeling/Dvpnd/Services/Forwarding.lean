import Dvpnd.Services.NAT

/-!
# The runs of OpenVPN on a host

`OpenVPN.Start` puts the forwarding rules in last, after the egress chains and the server, and
takes everything out again when a step fails; `Stop` takes them out first.  What is left of the
rules depends on every run there has been: one that dies leaves a copy of each, and one that is
stopped takes out no more than its own.

* `OpenVPN.start`, `OpenVPN.stop` — the two operations of the service.
* `start_spec`, `stop_spec` — a start that succeeds adds one copy of each rule, one that fails
  because of one command leaves none, and a stop takes one out.
* `OpenVPN.step` — a host, on which any command may fail and the node may die at any time.
* `stopped_leaves_none` — **once a run has been stopped, rules are left if there were some when
  it started**; so none is if no run dies, and `crashed_run_leaves_rules`: all are after a run
  that did.
-/

namespace Dvpnd

open Effect (Prog Machine)

/-! ## The service -/

/-- What comes from elsewhere in `Start`: the errors of `ensureForwarding`, `StartProcess` and
`dialManagement`. -/
structure Outside where
  forwarding : Option String := none
  process : Option String := none
  dial : Option String := none

namespace OpenVPN

/-- `Start`.  Closing the management connection and stopping the server issue no commands. -/
def start (n : NAT) (e : TunnelEgress) (ipv6 : Bool) (policy : Egress) (o : Outside) :
    Prog (fun _ : String × List String => Bool) (Option String) :=
  match o.forwarding with
  | some err => .ret (some err)
  | none =>
      (e.chains policy).up (families ipv6) >>= fun
        | some err => e.layout.down (families ipv6) >>= fun _ => .ret (some err)
        | none =>
            match o.process with
            | some err => e.layout.down (families ipv6) >>= fun _ => .ret (some err)
            | none =>
                match o.dial with
                | some err => e.layout.down (families ipv6) >>= fun _ => .ret (some err)
                | none =>
                    n.up >>= fun
                      | some err => n.down >>= fun _ =>
                          e.layout.down (families ipv6) >>= fun _ => .ret (some err)
                      | none => .ret none

/-- `Stop`: `process` is what `Process.Stop` answers, and `none` when nothing was started. -/
def stop (n : NAT) (e : TunnelEgress) (ipv6 : Bool) (process : Option (Option String)) :
    Prog (fun _ : String × List String => Bool) (Option String) :=
  match process with
  | none => .ret (some "openvpn was not started")
  | some err => n.down >>= fun _ => e.layout.down (families ipv6) >>= fun _ => .ret err

end OpenVPN

/-! ## What a start and a stop do to the copies -/

section Service

open Effect.Prog

variable {n : NAT} {e : TunnelEgress} {ipv6 : Bool} {faults : List Nat} {s s₁ : Firewall}

/-- How a start ends: each rule is there once more; or it has failed, and no rule is left that was
not there, if it was one command that failed. -/
inductive Started (n : NAT) (faults : List Nat) (s : Firewall) : Option String × Firewall → Prop
  | up {s' : Firewall} (copies : ∀ x ∈ n.spots, s'.copies x = s.copies x + 1) :
      Started n faults s (none, s')
  | failed {s' : Firewall} {err : String}
      (none_left : faults.length ≤ 1 → ∀ x ∈ n.spots, s.copies x = 0 → s'.copies x = 0) :
      Started n faults s (some err, s')

/-- A start that fails before the rules are put in takes the egress chains out. -/
theorem Started.of_undisturbed (h : Undisturbed n s s₁) (err : String) :
    Started n faults s ((e.layout.down (families ipv6) >>= fun _ => Prog.ret (some err)).run
      (firewall faults) () s₁) := by
  rw [run_bind]
  have hdown : Undisturbed n s ((e.layout.down (families ipv6)).run (firewall faults) () s₁).2 :=
    h.trans (.of_uses (e.layout.down_uses _) s₁)
  exact .failed fun _ x hx h₀ => (hdown.copies x hx).trans h₀

/-- When one command can fail and has failed, none does later. -/
theorem faults_past {m k : Nat} (hlen : faults.length ≤ 1) (hm : m ∈ faults) (hlt : m < k) :
    ∀ m' ∈ faults, m' < k := by
  match faults, hlen, hm with
  | [a], _, hm =>
      intro m' hm'
      rw [List.mem_singleton] at hm hm'
      rwa [hm', ← hm]

/-- A start whose rules could not all be put in takes out those that were. -/
theorem Started.of_appended {s' : Firewall} (h₁ : Undisturbed n s s₁) (hwhole : s'.Whole)
    {done : List Spot} (hfirst : done <+: n.spots)
    (hcopies : ∀ y, s'.copies y = s₁.copies y + done.count y)
    (hfault : ∃ m ∈ faults, m < s'.commands) (err : String) :
    Started n faults s ((n.down >>= fun _ => e.layout.down (families ipv6) >>= fun _ =>
      Prog.ret (some err)).run (firewall faults) () s') := by
  have hdeleted := natDown_spec faults n.spots hwhole
  rw [run_bind, NAT.down, NAT.rules_eq]
  generalize (each natDrop (n.spots.map (·.command "-D"))).run (firewall faults) () s' = out at *
  rw [run_bind]
  have hdown : Undisturbed n out.2 ((e.layout.down (families ipv6)).run (firewall faults) () out.2).2 :=
    .of_uses (e.layout.down_uses _) out.2
  refine .failed fun hlen x hx h₀ => ?_
  obtain ⟨m, hm, hlt⟩ := hfault
  have hle : done.count x ≤ n.spots.count x := hfirst.sublist.count_le x
  calc _ = out.2.copies x := hdown.copies x hx
    _ = s'.copies x - n.spots.count x := hdeleted (faults_past hlen hm hlt) x
    _ = s.copies x + done.count x - n.spots.count x := by rw [hcopies x, h₁.copies x hx]
    _ = 0 := by omega

variable (n e ipv6 faults) in
theorem start_spec (policy : Egress) (o : Outside) (h : s.Whole) :
    Started n faults s ((OpenVPN.start n e ipv6 policy o).run (firewall faults) () s) := by
  unfold OpenVPN.start
  cases o.forwarding with
  | some err => exact .failed fun _ _ _ h₀ => h₀
  | none =>
      have hup : Undisturbed n s (((e.chains policy).up (families ipv6)).run (firewall faults) () s).2 :=
        .of_uses ((e.chains policy).up_uses _) s
      dsimp only
      rw [run_bind]
      generalize ((e.chains policy).up (families ipv6)).run (firewall faults) () s = out at hup
      obtain ⟨r, s₁⟩ := out
      cases r with
      | some err => exact .of_undisturbed hup err
      | none =>
          cases o.process with
          | some err => exact .of_undisturbed hup err
          | none =>
              cases o.dial with
              | some err => exact .of_undisturbed hup err
              | none =>
                  have hnat := natUp_spec faults n.spots (fun _ hx => hx) (hup.whole h)
                  dsimp only
                  rw [run_bind, NAT.up, NAT.rules_eq]
                  generalize (each natCommand (n.spots.map (·.command "-A"))).run
                    (firewall faults) () s₁ = out at hnat
                  cases hnat with
                  | all hcopies =>
                      refine .up fun x hx => ?_
                      rw [hcopies x, List.count_eq_one_of_mem n.spots_nodup hx, hup.copies x hx]
                  | some hwhole done hfirst hcopies hfault =>
                      exact .of_appended hup hwhole hfirst hcopies hfault _

/-- A stop takes out one copy of each rule. -/
theorem stop_spec (err : Option String) (h : s.Whole) : ∀ x ∈ n.spots,
    ((OpenVPN.stop n e ipv6 (some err)).run (firewall []) () s).2.copies x = s.copies x - 1 := by
  intro x hx
  have hdeleted := natDown_spec [] n.spots h fun _ hm => absurd hm List.not_mem_nil
  unfold OpenVPN.stop
  dsimp only
  rw [run_bind, NAT.down, NAT.rules_eq]
  generalize (each natDrop (n.spots.map (·.command "-D"))).run (firewall []) () s = out at *
  rw [run_bind]
  have hdown : Undisturbed n out.2 ((e.layout.down (families ipv6)).run (firewall []) () out.2).2 :=
    .of_uses (e.layout.down_uses _) out.2
  calc _ = out.2.copies x := hdown.copies x hx
    _ = s.copies x - n.spots.count x := hdeleted x
    _ = s.copies x - 1 := by rw [List.count_eq_one_of_mem n.spots_nodup hx]

end Service

/-! ## Run after run -/

namespace OpenVPN

/-- A host, and whether the service is running on it. -/
structure State where
  fw : Firewall
  running : Bool := false

/-- What happens on a host.  The commands of a start and of a stop whose numbers are among
`faults` fail; with `died` the node dies after so many of them. -/
inductive Act
  | start (policy : Egress) (o : Outside) (faults : List Nat) (died : Option Nat)
  | stop (process : Option String) (faults : List Nat) (died : Option Nat)
  | die

/-- Run some commands, with the result when the node does not die. -/
def attempt {α : Type} (p : Prog (fun _ : String × List String => Bool) α) (faults : List Nat)
    (died : Option Nat) (fw : Firewall) : Option α × Firewall :=
  match died with
  | none =>
      let out := p.run (firewall faults) () { fw with commands := 0 }
      (some out.1, out.2)
  | some k => (none, p.cut (firewall faults) () k { fw with commands := 0 })

/-- The node starts the service, stops one that runs, or dies while it runs.  It also dies, as far
as the rules go, where `cmd/start.go` returns after `Start` without `Stop`. -/
def step (n : NAT) (e : TunnelEgress) (ipv6 : Bool) (s : State) : Act → Option State
  | .start policy o faults died =>
      if s.running then none
      else
        let out := attempt (OpenVPN.start n e ipv6 policy o) faults died s.fw
        some ⟨out.2, decide (out.1 = some none)⟩
  | .stop process faults died =>
      if s.running then
        some ⟨(attempt (OpenVPN.stop n e ipv6 (some process)) faults died s.fw).2, false⟩
      else none
  | .die => if s.running then some ⟨s.fw, false⟩ else none

/-- The node does not die, a start fails because of one command at most, and every command of a
stop can be carried out. -/
def Orderly (_ : State) : Act → Prop
  | .start _ _ faults died => faults.length ≤ 1 ∧ died = none
  | .stop _ faults died => faults = [] ∧ died = none
  | .die => False

instance (s : State) : (a : Act) → Decidable (Orderly s a)
  | .start _ _ faults died => inferInstanceAs (Decidable (faults.length ≤ 1 ∧ died = none))
  | .stop _ faults died => inferInstanceAs (Decidable (faults = [] ∧ died = none))
  | .die => inferInstanceAs (Decidable False)

section Runs

open Effect.Prog

variable {n : NAT} {e : TunnelEgress} {ipv6 : Bool} {l : Layout} {fw : Firewall} {s s₁ s₂ : State}

/-- The commands of the service. -/
def Issues (n : NAT) (l : Layout) (o : String × List String) : Prop :=
  l.Issues o.2 ∨ ∃ x ∈ n.spots, o = x.command "-A" ∨ o = x.command "-D"

theorem Issues.whole {o : String × List String} (h : Issues n l o) (faults : List Nat)
    (hwhole : fw.Whole) : ((firewall faults).exec o fw).2.Whole := by
  rcases h with h | ⟨x, hx, rfl | rfl⟩
  · exact (h.exec (n := n) fw).whole hwhole
  · obtain ⟨ok, fw', hexec, hwhole', -⟩ := exec_append faults hwhole hx
    exact hexec ▸ hwhole'
  · exact (exec_delete faults hwhole x).1

theorem down_issues (n : NAT) (l : Layout) (fs : List Family) : Uses (Issues n l) (l.down fs) :=
  (l.down_uses fs).mono fun _ h => .inl h

theorem natDown_issues (n : NAT) (l : Layout) : Uses (Issues n l) n.down := by
  rw [NAT.down, NAT.rules_eq]
  refine Uses.each fun o ho => ?_
  obtain ⟨x, hx, rfl⟩ := List.mem_map.1 ho
  exact ⟨.inr ⟨x, hx, .inr rfl⟩, fun _ => trivial⟩

theorem natUp_issues (n : NAT) (l : Layout) : Uses (Issues n l) n.up := by
  rw [NAT.up, NAT.rules_eq]
  refine Uses.each fun o ho => ?_
  obtain ⟨x, hx, rfl⟩ := List.mem_map.1 ho
  exact ⟨.inr ⟨x, hx, .inl rfl⟩, fun _ => trivial⟩

theorem start_issues (policy : Egress) (o : Outside) :
    Uses (Issues n e.layout) (OpenVPN.start n e ipv6 policy o) := by
  have hdown : ∀ err : String, Uses (Issues n e.layout)
      (e.layout.down (families ipv6) >>= fun _ => Prog.ret (some err)) :=
    fun _ => (down_issues n e.layout _).bind fun _ => trivial
  unfold OpenVPN.start
  cases o.forwarding with
  | some err => trivial
  | none =>
      refine (((e.chains policy).up_uses _).mono fun _ h => .inl h).bind fun r => ?_
      cases r with
      | some err => exact hdown err
      | none =>
          cases o.process with
          | some err => exact hdown err
          | none =>
              cases o.dial with
              | some err => exact hdown err
              | none =>
                  refine (natUp_issues n _).bind fun r => ?_
                  cases r with
                  | some err => exact (natDown_issues n _).bind fun _ => hdown err
                  | none => trivial

theorem stop_issues (process : Option (Option String)) :
    Uses (Issues n e.layout) (OpenVPN.stop n e ipv6 process) := by
  cases process with
  | none => trivial
  | some err =>
      exact (natDown_issues n _).bind fun _ => (down_issues n e.layout _).bind fun _ => trivial

/-- No command takes FORWARD away, so neither does a run or a part of one. -/
theorem attempt_whole {α : Type} {p : Prog (fun _ : String × List String => Bool) α}
    (hp : Uses (Issues n l) p) (faults : List Nat) (died : Option Nat) (h : fw.Whole) :
    (attempt p faults died fw).2.Whole := by
  cases died with
  | none =>
      exact Uses.run_rel (firewall faults) () (R := fun fw fw' => fw.Whole → fw'.Whole) (fun _ => id)
        (fun h h' => h' ∘ h) (fun _ => id) (fun _ _ ho => ho.whole faults) hp _ h
  | some k =>
      exact Uses.cut_rel (firewall faults) () (R := fun fw fw' => fw.Whole → fw'.Whole) (fun _ => id)
        (fun h h' => h' ∘ h) (fun _ => id) (fun _ _ ho => ho.whole faults) hp k _ h

theorem step_start {policy : Egress} {o : Outside} {faults : List Nat} {died : Option Nat}
    (h : step n e ipv6 s (.start policy o faults died) = some s₁) : s.running = false ∧
      s₁.fw = (attempt (OpenVPN.start n e ipv6 policy o) faults died s.fw).2 ∧
      (s₁.running = true ↔ (attempt (OpenVPN.start n e ipv6 policy o) faults died s.fw).1 = some none) := by
  obtain ⟨hidle, heq⟩ := Option.ite_none_left_eq_some.1 h
  cases heq
  exact ⟨Bool.eq_false_iff.2 hidle, rfl, decide_eq_true_iff⟩

theorem step_stop {process : Option String} {faults : List Nat} {died : Option Nat}
    (h : step n e ipv6 s (.stop process faults died) = some s₁) : s.running = true ∧
      s₁.fw = (attempt (OpenVPN.stop n e ipv6 (some process)) faults died s.fw).2 ∧
      s₁.running = false := by
  obtain ⟨hrunning, heq⟩ := Option.ite_none_right_eq_some.1 h
  cases heq
  exact ⟨hrunning, rfl, rfl⟩

theorem step_whole {a : Act} (h : s.fw.Whole) (hstep : step n e ipv6 s a = some s₁) : s₁.fw.Whole := by
  cases a with
  | start policy o faults died =>
      rw [(step_start hstep).2.1]
      exact attempt_whole (start_issues policy o) faults died h
  | stop process faults died =>
      rw [(step_stop hstep).2.1]
      exact attempt_whole (stop_issues _) faults died h
  | die =>
      obtain ⟨-, heq⟩ := Option.ite_none_right_eq_some.1 hstep
      cases heq
      exact h

theorem reach_whole {w : Firewall} {ok : State → Act → Prop} (hw : w.Whole)
    (h : Steps.Reach (step n e ipv6) ok ⟨w, false⟩ s) : s.fw.Whole :=
  h.invariant (I := fun s => s.fw.Whole) hw fun hs _ hstep => step_whole hs hstep

/-- A start that is not cut short: the rules are there once more and the service runs, or it does
not. -/
theorem started_copies {policy : Egress} {o : Outside} {faults : List Nat} (hs : s.fw.Whole)
    (h : step n e ipv6 s (.start policy o faults none) = some s₁) :
    (s₁.running = true → ∀ x ∈ n.spots, s₁.fw.copies x = s.fw.copies x + 1) ∧
      (s₁.running = false → faults.length ≤ 1 → n.Gone s.fw → n.Gone s₁.fw) := by
  obtain ⟨-, hfw, hrunning⟩ := step_start h
  have hwhole : Firewall.Whole { s.fw with commands := 0 } := hs
  have hspec := start_spec n e ipv6 faults policy o hwhole
  rw [hfw, hrunning, ← Bool.not_eq_true, hrunning]
  unfold attempt
  dsimp only
  generalize (OpenVPN.start n e ipv6 policy o).run (firewall faults) () { s.fw with commands := 0 } = out
    at hspec
  cases hspec with
  | up hcopies => exact ⟨fun _ => hcopies, fun hnot => absurd rfl hnot⟩
  | failed hleft =>
      refine ⟨fun hup => absurd (Option.some.inj hup) (Option.some_ne_none _),
        fun _ hlen hgone => NAT.gone_iff.2 fun x hx => ?_⟩
      exact hleft hlen x hx (NAT.gone_iff.1 hgone x hx)

theorem stopped_copies {process : Option String} (hs : s.fw.Whole)
    (h : step n e ipv6 s (.stop process [] none) = some s₁) :
    ∀ x ∈ n.spots, s₁.fw.copies x = s.fw.copies x - 1 := by
  obtain ⟨-, hfw, -⟩ := step_stop h
  have hwhole : Firewall.Whole { s.fw with commands := 0 } := hs
  rw [hfw]
  exact stop_spec process hwhole

/-- While nothing goes wrong twice, the rules are there exactly while the service runs. -/
def Tidy (n : NAT) (s : State) : Prop :=
  s.fw.Whole ∧ (s.running = true → ∀ x ∈ n.spots, s.fw.copies x = 1) ∧
    (s.running = false → n.Gone s.fw)

theorem Tidy.step {a : Act} (h : Tidy n s) (hok : Orderly s a)
    (hstep : OpenVPN.step n e ipv6 s a = some s₁) : Tidy n s₁ := by
  refine ⟨step_whole h.1 hstep, ?_⟩
  cases a with
  | die => exact hok.elim
  | start policy o faults died =>
      obtain ⟨hlen, rfl⟩ := hok
      have hgone : n.Gone s.fw := h.2.2 (step_start hstep).1
      obtain ⟨hup, hfailed⟩ := started_copies h.1 hstep
      refine ⟨fun hrunning x hx => ?_, fun hidle => hfailed hidle hlen hgone⟩
      rw [hup hrunning x hx, NAT.gone_iff.1 hgone x hx]
  | stop process faults died =>
      obtain ⟨rfl, rfl⟩ := hok
      obtain ⟨hrunning, -, hidle⟩ := step_stop hstep
      refine ⟨fun h₁ => absurd (hidle.symm.trans h₁) Bool.false_ne_true, fun _ => ?_⟩
      refine NAT.gone_iff.2 fun x hx => ?_
      rw [stopped_copies h.1 hstep x hx, h.2.1 hrunning x hx]

end Runs

/-- Once a run has been stopped, rules are left if there were some when it started; so none is
left after any run, if the node never dies, one command of a start fails at most and none of a
stop does. -/
theorem stopped_leaves_none (n : NAT) (e : TunnelEgress) (ipv6 : Bool) (w : Firewall) (hw : w.Whole) :
    (∀ s, Steps.Reach (step n e ipv6) (fun _ _ => True) ⟨w, false⟩ s →
      ∀ policy o faults process s₁ s₂, step n e ipv6 s (.start policy o faults none) = some s₁ →
        step n e ipv6 s₁ (.stop process [] none) = some s₂ → (n.Gone s₂.fw ↔ n.Gone s.fw)) ∧
    (n.Gone w → ∀ s, Steps.Reach (step n e ipv6) Orderly ⟨w, false⟩ s → s.running = false →
      n.Gone s.fw) := by
  constructor
  · intro s hreach policy o faults process s₁ s₂ hstart hstop
    have hwhole : s.fw.Whole := reach_whole hw hreach
    have hup := (started_copies hwhole hstart).1 (step_stop hstop).1
    have hdown := stopped_copies (step_whole hwhole hstart) hstop
    rw [NAT.gone_iff, NAT.gone_iff]
    refine forall₂_congr fun x hx => ?_
    rw [hdown x hx, hup x hx, Nat.add_sub_cancel]
  · intro hgone s hreach
    have htidy : Tidy n ⟨w, false⟩ := ⟨hw, fun h => absurd h Bool.false_ne_true, fun _ => hgone⟩
    exact (hreach.invariant htidy fun h hok hstep => h.step hok hstep).2.2

/-- The rules of an interface. -/
def ovpn0 : NAT := ⟨"ovpn0", "eth0"⟩

/-- Its egress chains. -/
def ovpn0Egress : TunnelEgress := ⟨"ovpn0", by decide⟩

/-- A host with nothing on it. -/
def bare : Firewall := ⟨Host.noRules, fun _ => [], 0⟩

theorem bare_whole : bare.Whole := fun _ => List.mem_cons_self

/-- A start that fails while the rules go in, and a run that is stopped. -/
def retried : List Act := [.start {} {} [39] none, .start {} {} [] none, .stop none [] none]

/-- Nothing is left after them. -/
theorem stopped_leaves_none_retried : ∃ s, Steps.Reach (step ovpn0 ovpn0Egress true) Orderly
    ⟨bare, false⟩ s ∧ s.running = false ∧ ovpn0.Gone s.fw := by
  obtain ⟨s, hreach, hidle⟩ := Steps.exists_reach (step ovpn0 ovpn0Egress true) Orderly ⟨bare, false⟩
    retried (fun s => !s.running) (by decide +kernel)
  have hrunning : s.running = false := Bool.not_eq_true' s.running ▸ hidle
  have hgone : ovpn0.Gone bare := by decide
  exact ⟨s, hreach, hrunning, (stopped_leaves_none ovpn0 ovpn0Egress true bare bare_whole).2 hgone s
    hreach hrunning⟩

/-- A node that dies while the service runs, and a run after it. -/
def crashed : List Act := [.start {} {} [] none, .die, .start {} {} [] none]

/-- When that run is stopped, **each of the rules is still there once**. -/
theorem crashed_run_leaves_rules : ∃ s s', Steps.Reach (step ovpn0 ovpn0Egress true) (fun _ _ => True)
    ⟨bare, false⟩ s ∧ step ovpn0 ovpn0Egress true s (.stop none [] none) = some s' ∧
    ∀ x ∈ ovpn0.spots, s'.fw.copies x = 1 := by
  obtain ⟨s, hreach, hstop⟩ := Steps.exists_reach (step ovpn0 ovpn0Egress true) (fun _ _ => True)
    ⟨bare, false⟩ crashed (fun s => (step ovpn0 ovpn0Egress true s (.stop none [] none)).any
      fun s' : State => decide (∀ x ∈ ovpn0.spots, s'.fw.copies x = 1)) (by decide +kernel)
  obtain ⟨s', hstep, hcopies⟩ := (Option.any_eq_true _ _).1 hstop
  exact ⟨s, s', hreach, hstep, of_decide_eq_true hcopies⟩

end OpenVPN

end Dvpnd
