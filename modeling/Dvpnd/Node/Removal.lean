import Dvpnd.Node.Invariant
import Dvpnd.Node.Sweep
import Dvpnd.Services.Clients
import Dvpnd.Services.WireGuard

/-!
# When a removal fails

`retire` deletes a session's row once `RemovePeerIfExists` has returned no error,
and that is no error either when the service has no such peer.  So what becomes of
a client whose removal failed depends on the order in which its service forgets
the peer and makes its control call.

* `Protocol`, `Protocol.CallsFirst` — the registered protocols, and those that make
  the call first.
* `CutFirst` — rows have gone only for peers that are cut off;
  `passes_cutFirst`: any number of passes keeps to it on a lawful service.
* `rowsWait_iff` — so it is exactly for the protocols that call first.
* `failed_removal_keeps_peer_iff` — **a failed removal keeps the peer, and rows wait
  for it, exactly when the protocol calls first**.
* `forgotten_peer_loses_row` — on Hysteria2, two passes drop the row of a client
  that was never cut off.
-/

namespace Dvpnd

open Effect

/-! ## The protocols -/

/-- The registry (`services/registry.go`), with the settings the peers depend on. -/
inductive Protocol where
  | wireguard (enableIPv6 : Bool)
  | v2ray
  | xray
  | hysteria2
  | amneziawg (enableIPv6 v3On : Bool)
  | openvpn
  deriving DecidableEq, Repr

/-- The service a node of this type runs. -/
def Protocol.service : Protocol → Service
  | .wireguard enableIPv6 => Dvpnd.wireguard enableIPv6
  | .v2ray => Dvpnd.v2ray
  | .xray => Dvpnd.xray
  | .hysteria2 => Dvpnd.hysteria
  | .amneziawg enableIPv6 v3On => Dvpnd.amneziawg enableIPv6 v3On
  | .openvpn => Dvpnd.openvpn

/-- The protocols whose `RemovePeer` makes its control call before it forgets the
peer. -/
def Protocol.CallsFirst (p : Protocol) : Prop := p ≠ .hysteria2 ∧ p ≠ .openvpn

theorem Protocol.lawful {p : Protocol} (h : p.CallsFirst) : p.service.Lawful := by
  cases p with
  | wireguard enableIPv6 => exact wireguard_lawful enableIPv6
  | v2ray => exact v2ray_lawful
  | xray => exact xray_lawful
  | amneziawg enableIPv6 v3On => exact amneziawg_lawful enableIPv6 v3On
  | hysteria2 => exact absurd rfl h.1
  | openvpn => exact absurd rfl h.2

/-- A removal that fails keeps a registered peer on a protocol that calls first, and
loses it on any other. -/
theorem Protocol.hasPeer_after_failure (p : Protocol) {data : List UInt8} {c : p.service.Ctl}
    {s : p.service.State} {e : String} (h : Key.of data ∈ p.service.registered s)
    (hfail : (p.service.removePeer data c s).1 = some e) :
    p.service.hasPeer data (p.service.removePeer data c s).2 = true ↔ p.CallsFirst := by
  have hkeeps : p.CallsFirst →
      p.service.hasPeer data (p.service.removePeer data c s).2 = true := fun hfirst => by
    have hS := p.lawful hfirst
    rw [hS.hasPeer_iff, hS.keeps hfail]
    exact h
  refine ⟨fun hhas => ⟨?_, ?_⟩, hkeeps⟩
  · rintro rfl
    exact absurd (hhas.symm.trans (hysteria_forgets h c)) (by simp)
  · rintro rfl
    exact absurd (hhas.symm.trans (openvpn_forgets h c)) (by simp)

/-! ## Rows and the peers that are not cut off -/

variable {S : Service}

/-- The service is in order and knows every peer that is not cut off. -/
structure Attached (s : Node S) : Prop where
  wf : S.wf s.svc
  uncut : s.uncut ⊆ s.registered

/-- From `s` to `s'` no row has gone but those of peers that are cut off. -/
structure CutFirst (s s' : Node S) : Prop where
  attached : Attached s'
  uncut : s'.uncut ⊆ s.uncut
  rows : ∀ k ∈ s.table.keys, k ∉ s'.table.keys → k ∉ s'.uncut

theorem CutFirst.refl {s : Node S} (h : Attached s) : CutFirst s s :=
  ⟨h, Finset.Subset.refl _, fun _ hk hk' => absurd hk hk'⟩

theorem CutFirst.trans {a b c : Node S} (hab : CutFirst a b) (hbc : CutFirst b c) : CutFirst a c := by
  refine ⟨hbc.attached, hbc.uncut.trans hab.uncut, fun k hk hk' => ?_⟩
  by_cases hb : k ∈ b.table.keys
  · exact hbc.rows k hb hk'
  · exact fun hc => hab.rows k hk hb (hbc.uncut hc)

/-- One call: it adds no peer, and takes out only rows whose peer the service does
not have. -/
theorem CutFirst.exec (hS : S.Lawful) (env : Env S) {o : Op} {s : Node S} (h : Attached s)
    (hrows : ∀ x, TakesOut env o s x → x.key ∉ s.registered) (ho : o.AddsNoPeer) :
    CutFirst s (exec env o s).2 := by
  have hkeep : ∀ k ∈ s.table.keys, k ∉ (Dvpnd.exec env o s).2.table.keys → k ∉ s.uncut := by
    intro k hk hk' hu
    obtain ⟨x, hx, rfl⟩ := Table.mem_keys.1 hk
    exact hrows x ⟨hx, fun hx' => hk' (Table.mem_keys.2 ⟨x, hx', rfl⟩)⟩ (h.uncut hu)
  have hsub : (Dvpnd.exec env o s).2.uncut ⊆ s.uncut ∧
      (Dvpnd.exec env o s).2.uncut ⊆ (Dvpnd.exec env o s).2.registered := by
    rcases ho.cases env s with ⟨site, data, rfl⟩ | ⟨hsvc, huncut⟩
    · refine ⟨?_, execRemovePeer_uncut hS env site data h.wf h.uncut⟩
      show (if _ then s.uncut.erase _ else s.uncut) ⊆ s.uncut
      split
      · exact Finset.erase_subset _ _
      · exact Finset.Subset.refl _
    · rw [huncut, Node.registered, hsvc]
      exact ⟨Finset.Subset.refl _, h.uncut⟩
  exact ⟨⟨ho.wf hS.toSound env s h.wf, hsub.2⟩, hsub.1, fun k hk hk' hu => hkeep k hk hk' (hsub.1 hu)⟩

/-- One pass. -/
theorem pass_cutFirst (hS : S.Lawful) (env : Env S) {s : Node S} (h : Attached s) :
    CutFirst s (passRun env s).2 := by
  have hops : Prog.Always (machine env) .updateSessions (fun o t =>
      DropsEnded env s.table.rows s o t ∧ o.AddsNoPeer) updateSessions s :=
    (passRun_cases hS.toSound env h.wf).2.and (Prog.Always.of_uses (fun _ _ ho => ho)
      (updateSessions_bracketed.uses (fun _ ho => ho.addsNoPeer) fun _ ho => ho.addsNoPeer) s)
  refine hops.run_rel (R := fun s t => Attached s → CutFirst s t) (fun _ => CutFirst.refl)
    (fun hab hbc ha => (hab ha).trans (hbc (hab ha).attached)) (fun t ht => ?_)
    (fun o t ho ht => CutFirst.exec hS env ht (fun x hx => (ho.1 x hx).2.1) ho.2) h
  have hq := acquire_quiet env .updateSessions t
  refine ⟨⟨hq.svc.symm ▸ ht.wf, ?_⟩, ?_, fun k hk hk' => absurd (hq.table.symm ▸ hk) hk'⟩
  · rw [hq.uncut, hq.registered]; exact ht.uncut
  · rw [hq.uncut]

/-- The node after a number of passes. -/
def passes (env : Env S) (n : Nat) (s : Node S) : Node S := (fun t => (passRun env t).2)^[n] s

/-- **Any number of passes**: on a lawful service a row goes only after its peer has
been cut off. -/
theorem passes_cutFirst (hS : S.Lawful) (env : Env S) (n : Nat) {s : Node S} (h : Attached s) :
    CutFirst s (passes env n s) := by
  induction n generalizing s with
  | zero => exact CutFirst.refl h
  | succ n ih =>
      have hpass := pass_cutFirst hS env h
      exact hpass.trans (ih hpass.attached)

/-! ## Two passes over a client that stays connected -/

/-- A chain that has no session any more, and one answer to every control call. -/
def endedEnv (c : S.Ctl) : Env S where
  now t := t
  database _ := none
  peers _ := .ok []
  control _ _ := c
  querySession _ _ := .ok none
  querySubscription _ _ := .ok none
  queryAllocation _ _ _ := .ok none
  updateSessions _ _ := none

/-- The peer data of one client. -/
def zeroUUID : List UInt8 := List.replicate 16 0

/-- A node with one session, whose client is not cut off. -/
def oneClient (svc : S.State) : Node S :=
  { Node.fresh svc with
    table := ⟨[{ id := 1, key := Key.of zeroUUID, address := "client" }], by simp, by simp⟩
    uncut := {Key.of zeroUUID} }

/-- The client is registered with Hysteria2. -/
def hysteriaClient : Node hysteria := oneClient (S := hysteria) (Clients.empty.add zeroUUID rfl)

/-- Hysteria2's statistics API answers that it is not available. -/
def kickRefused : Env hysteria := endedEnv (S := hysteria) (.ok 503)

/-- The client is registered with OpenVPN, whose server is up. -/
def openvpnClient : Node openvpn :=
  oneClient (S := openvpn) ⟨Clients.empty.add zeroUUID rfl, true, true⟩

/-- OpenVPN's management interface does not answer. -/
def statusTimesOut : Env openvpn :=
  endedEnv (S := openvpn) ⟨.error "unused", .error "management command timed out", fun _ => none⟩

theorem hysteriaClient_loses_row :
    Key.of zeroUUID ∉ (passes kickRefused 2 hysteriaClient).table.keys ∧
      Key.of zeroUUID ∈ (passes kickRefused 2 hysteriaClient).uncut := by decide

theorem openvpnClient_loses_row :
    Key.of zeroUUID ∉ (passes statusTimesOut 2 openvpnClient).table.keys ∧
      Key.of zeroUUID ∈ (passes statusTimesOut 2 openvpnClient).uncut := by decide

/-- Passes delete rows only for peers that are cut off. -/
def RowsWait (S : Service) : Prop :=
  ∀ (env : Env S) (n : Nat) (s : Node S), Attached s →
    ∀ k ∈ s.table.keys, k ∉ (passes env n s).table.keys → k ∉ (passes env n s).uncut

theorem rowsWait_iff (p : Protocol) : RowsWait p.service ↔ p.CallsFirst := by
  constructor
  · intro h
    refine ⟨?_, ?_⟩
    · rintro rfl
      exact h kickRefused 2 hysteriaClient ⟨trivial, by decide⟩ (Key.of zeroUUID) (by decide)
        hysteriaClient_loses_row.1 hysteriaClient_loses_row.2
    · rintro rfl
      exact h statusTimesOut 2 openvpnClient ⟨trivial, by decide⟩ (Key.of zeroUUID) (by decide)
        openvpnClient_loses_row.1 openvpnClient_loses_row.2
  · intro h env n s hs
    exact (passes_cutFirst (p.lawful h) env n hs).rows

/-- **A failed removal keeps the peer exactly when the protocol calls first.**  For
every registered peer whose removal returns an error, in every state of the
service, the peer is still registered just for those protocols.  With them, and
only with them, a pass that follows tries again: over any number of passes a row
goes only after the control call that cuts its peer off.  The same holds when
handshakes and both jobs are interleaved in any way. -/
theorem failed_removal_keeps_peer_iff (p : Protocol) :
    (∀ (data : List UInt8) (c : p.service.Ctl) (s : p.service.State) (e : String),
      Key.of data ∈ p.service.registered s → (p.service.removePeer data c s).1 = some e →
      (p.service.hasPeer data (p.service.removePeer data c s).2 = true ↔ p.CallsFirst)) ∧
    (RowsWait p.service ↔ p.CallsFirst) ∧
    (p.CallsFirst → ∀ (cfg : Config) (env : Env p.service) (svc : p.service.State)
      (c : Effect.Config Op.Res Actor (Node p.service)), env.RollbackSucceeds →
      p.service.wf svc → p.service.registered svc = ∅ →
      Reach (nodeSystem cfg env) (fun _ _ _ => True) (Node.fresh svc) c → c.owner = none →
      c.state.uncut ⊆ c.state.table.keys) := by
  refine ⟨fun _ _ _ _ h hfail => p.hasPeer_after_failure h hfail, rowsWait_iff p, ?_⟩
  intro hfirst cfg env svc c hroll hwf hempty hreach hfree
  have hinv := admitted_of_reach (p.lawful hfirst) cfg hroll hwf hempty hreach hfree
  exact hinv.uncut.trans hinv.rows

/-- **Hysteria2 loses a client that is still connected**: the kick fails, and after
the first pass the peer is forgotten while its row is there; the second pass finds
no peer and deletes the row, and nothing has cut the client off. -/
theorem forgotten_peer_loses_row :
    hysteria.hasPeer zeroUUID hysteriaClient.svc = true ∧
      (hysteria.removePeer zeroUUID (.ok 503) hysteriaClient.svc).1 = some "kick: status 503" ∧
      hysteria.hasPeer zeroUUID (passes kickRefused 1 hysteriaClient).svc = false ∧
      Key.of zeroUUID ∈ (passes kickRefused 1 hysteriaClient).table.keys ∧
      Key.of zeroUUID ∉ (passes kickRefused 2 hysteriaClient).table.keys ∧
      Key.of zeroUUID ∈ (passes kickRefused 2 hysteriaClient).uncut :=
  ⟨by decide, by decide, by decide, by decide, hysteriaClient_loses_row⟩

end Dvpnd
