import Dvpnd.Types.Session

/-!
# A VPN service as the node drives it

`types/service.go` gives the node one interface over every protocol.  Here a
service is a state with the operations of that interface the node's bookkeeping
uses, each taking the outcome of the control call it makes to its daemon.

* `Peer` — one line of a service's usage report.
* `Service` — the interface.  `registered` is what a state means to the node: the
  set of keys the service knows.  `cutOff` says whether the control call that a
  removal makes has gone through.
* `Service.Sound` — the operations do to the registered set what their names
  say; a removal that fails may or may not have forgotten the peer.
* `Service.Lawful` — besides, **a removal that fails keeps the peer**, and one
  that succeeds has cut it off.
* `peerSet` — the service that only keeps a set of peers, with every outcome a
  call can have.
-/

namespace Dvpnd

/-- A registered peer with its counters, as `Peers` reports it.  A service knows
its peers by the base64 of their data, which is never empty. -/
structure Peer where
  key : Key
  upload : Int64
  download : Int64
  key_ne : key.text ≠ ""

/-- Sums that stay in range are sums. -/
theorem toInt_add_of_lt {a b : Int64} (ha : 0 ≤ a.toInt) (hb : 0 ≤ b.toInt)
    (h : a.toInt + b.toInt < 2 ^ 63) : (a + b).toInt = a.toInt + b.toInt := by
  rw [Int64.toInt_add]
  exact Int.bmod_eq_of_le (by omega) (by omega)

/-- A sum of two that are not negative is negative exactly when it leaves the range. -/
theorem toInt_add_nonneg_iff {a b : Int64} (ha : 0 ≤ a.toInt) (hb : 0 ≤ b.toInt) :
    0 ≤ (a + b).toInt ↔ a.toInt + b.toInt < 2 ^ 63 := by
  constructor
  · intro h
    by_contra hwrap
    have ha' := a.toInt_lt
    have hb' := b.toInt_lt
    rw [Int64.toInt_add, ← Int.sub_bmod_right, Int.bmod_eq_of_le (by omega) (by omega)] at h
    omega
  · intro h
    rw [toInt_add_of_lt ha hb h]
    omega

/-- A VPN service.  `Ctl` is what the outside (a tool, an API, a management
socket) answers to one call. -/
structure Service where
  /-- The service's own state. -/
  State : Type
  /-- The outcome of one control call. -/
  Ctl : Type
  /-- `AddPeer`: the material for the handshake, or an error. -/
  addPeer : List UInt8 → Ctl → State → Except String (List UInt8) × State
  /-- `HasPeer`. -/
  hasPeer : List UInt8 → State → Bool
  /-- `RemovePeer`: the error, if any. -/
  removePeer : List UInt8 → Ctl → State → Option String × State
  /-- `PeerCount`. -/
  peerCount : State → Nat
  /-- The control call that cuts the peer off goes through. -/
  cutOff : List UInt8 → Ctl → State → Bool
  /-- The keys of the registered peers. -/
  registered : State → Finset Key
  /-- The states the service can be in as long as it is never asked to add a
  peer it has. -/
  wf : State → Prop

namespace Service

variable (S : Service)

/-- The operations change the registered set as their names say. -/
structure Sound : Prop where
  hasPeer_iff : ∀ d s, S.hasPeer d s = true ↔ Key.of d ∈ S.registered s
  addPeer_ok : ∀ {d c s r}, (S.addPeer d c s).1 = .ok r →
    S.registered (S.addPeer d c s).2 = insert (Key.of d) (S.registered s)
  addPeer_error : ∀ {d c s e}, (S.addPeer d c s).1 = .error e →
    S.registered (S.addPeer d c s).2 = S.registered s
  removePeer_ok : ∀ {d c s}, S.wf s → (S.removePeer d c s).1 = none →
    S.registered (S.removePeer d c s).2 = (S.registered s).erase (Key.of d)
  removePeer_cases : ∀ d c s, S.registered (S.removePeer d c s).2 = S.registered s ∨
    S.registered (S.removePeer d c s).2 = (S.registered s).erase (Key.of d)
  wf_addPeer : ∀ {d c s}, S.wf s → Key.of d ∉ S.registered s → S.wf (S.addPeer d c s).2
  wf_removePeer : ∀ {d c s}, S.wf s → S.wf (S.removePeer d c s).2

/-- A failed call leaves the registered set as it was, and a removal succeeds
only when the peer has been cut off. -/
structure Lawful : Prop extends S.Sound where
  keeps : ∀ {d c s e}, (S.removePeer d c s).1 = some e →
    S.registered (S.removePeer d c s).2 = S.registered s
  cuts : ∀ {d c s}, (S.removePeer d c s).1 = none → S.cutOff d c s = true
  peerCount_eq : ∀ {s}, S.wf s → S.peerCount s = (S.registered s).card

variable {S}

/-- Whatever a removal returns, it adds no peer. -/
theorem Sound.removePeer_subset (h : S.Sound) (d : List UInt8) (c : S.Ctl) (s : S.State) :
    S.registered (S.removePeer d c s).2 ⊆ S.registered s := by
  rcases h.removePeer_cases d c s with heq | heq
  · rw [heq]
  · rw [heq]; exact Finset.erase_subset _ _

/-- Two cases for an addition and two for a removal are enough for `Sound`. -/
theorem Sound.of_cases (hhas : ∀ d s, S.hasPeer d s = true ↔ Key.of d ∈ S.registered s)
    (hadd : ∀ d c s, (∃ r, (S.addPeer d c s).1 = .ok r ∧
        S.registered (S.addPeer d c s).2 = insert (Key.of d) (S.registered s)) ∨
      ∃ e, (S.addPeer d c s).1 = .error e ∧ S.registered (S.addPeer d c s).2 = S.registered s)
    (hremove : ∀ d c s,
      S.registered (S.removePeer d c s).2 = (S.registered s).erase (Key.of d) ∨
      (S.registered (S.removePeer d c s).2 = S.registered s ∧
        ((S.removePeer d c s).1 = none → ¬ S.wf s)))
    (hwfadd : ∀ {d c s}, S.wf s → Key.of d ∉ S.registered s → S.wf (S.addPeer d c s).2)
    (hwfremove : ∀ {d c s}, S.wf s → S.wf (S.removePeer d c s).2) : S.Sound where
  hasPeer_iff := hhas
  addPeer_ok {d c s r} h := by
    rcases hadd d c s with ⟨_, -, hreg⟩ | ⟨e, he, -⟩
    · exact hreg
    · exact absurd (h.symm.trans he) (by simp)
  addPeer_error {d c s e} h := by
    rcases hadd d c s with ⟨r, hr, -⟩ | ⟨_, -, hreg⟩
    · exact absurd (h.symm.trans hr) (by simp)
    · exact hreg
  removePeer_ok {d c s} hwf h := by
    rcases hremove d c s with hreg | ⟨-, hnot⟩
    · exact hreg
    · exact absurd hwf (hnot h)
  removePeer_cases d c s := (hremove d c s).symm.imp And.left id
  wf_addPeer := hwfadd
  wf_removePeer := hwfremove

/-- A sound service is lawful when its removals cut the peer off or do nothing. -/
theorem Sound.lawful (hS : S.Sound)
    (hremove : ∀ d c s, ((S.removePeer d c s).1 = none ∧ S.cutOff d c s = true) ∨
      ∃ e, (S.removePeer d c s).1 = some e ∧ S.registered (S.removePeer d c s).2 = S.registered s)
    (hcount : ∀ {s}, S.wf s → S.peerCount s = (S.registered s).card) : S.Lawful where
  toSound := hS
  keeps {d c s e} h := by
    rcases hremove d c s with ⟨hnone, -⟩ | ⟨_, -, hreg⟩
    · exact absurd (h.symm.trans hnone) (by simp)
    · exact hreg
  cuts {d c s} h := by
    rcases hremove d c s with ⟨-, hcut⟩ | ⟨e, he, -⟩
    · exact hcut
    · exact absurd (h.symm.trans he) (by simp)
  peerCount_eq := hcount

end Service

/-! ## The service that only keeps a set of peers -/

/-- How a call to a service can end: it succeeds, it fails with nothing done, or
it fails after the peer was forgotten. -/
inductive Outcome where
  | ok
  | failed
  | forgotten
  deriving DecidableEq, Repr

/-- A VPN service that only keeps a set of peers. -/
def peerSet : Service where
  State := Finset Key
  Ctl := Outcome
  addPeer d c s :=
    match c with
    | .ok => (.ok [], insert (Key.of d) s)
    | _ => (.error "add peer", s)
  hasPeer d s := decide (Key.of d ∈ s)
  removePeer d c s :=
    match c with
    | .ok => (none, s.erase (Key.of d))
    | .failed => (some "remove peer", s)
    | .forgotten => (some "remove peer", s.erase (Key.of d))
  peerCount s := s.card
  cutOff _ c _ := c == .ok
  registered s := s
  wf _ := True

theorem peerSet_sound : peerSet.Sound := by
  refine Service.Sound.of_cases (fun d s => by simp [peerSet]) (fun d c s => ?_) (fun d c s => ?_)
    (fun _ _ => trivial) (fun _ => trivial)
  · cases c with
    | ok => exact .inl ⟨_, rfl, rfl⟩
    | failed => exact .inr ⟨_, rfl, rfl⟩
    | forgotten => exact .inr ⟨_, rfl, rfl⟩
  · cases c with
    | ok => exact .inl rfl
    | failed => exact .inr ⟨rfl, fun h => by cases h⟩
    | forgotten => exact .inl rfl

end Dvpnd
