import Dvpnd.Types.Service

/-!
# The services that keep their users in a daemon

V2Ray and XRay (`services/v2ray`, `services/xray`) register each peer as a user of
a proxy daemon, over its gRPC API, and keep the keys of the users they have
registered.  Both **call the daemon first and forget the peer after**, so a
removal that fails keeps it.

* `Users` — the keys a service has registered, all of data it accepts.
* `rpcService` — the two services but for what they accept as peer data.
* `v2ray`, `xray` — the services; `v2ray_lawful`, `xray_lawful` — both keep a peer
  whose removal failed.
-/

namespace Dvpnd

/-- The registered keys.  Only data the service accepts is ever registered. -/
structure Users (check : List UInt8 → Option String) where
  keys : Finset Key
  accepted : ∀ data, Key.of data ∈ keys → check data = none

namespace Users

variable {check : List UInt8 → Option String}

/-- No user yet. -/
def empty : Users check := ⟨∅, fun _ h => absurd h (Finset.notMem_empty _)⟩

/-- `Put`. -/
def put (u : Users check) (data : List UInt8) (h : check data = none) : Users check where
  keys := insert (Key.of data) u.keys
  accepted d hd := by
    rcases Finset.mem_insert.1 hd with heq | hold
    · rw [Key.of_injective heq]; exact h
    · exact u.accepted d hold

/-- `Delete`. -/
def delete (u : Users check) (key : Key) : Users check :=
  ⟨u.keys.erase key, fun d h => u.accepted d (Finset.mem_of_mem_erase h)⟩

end Users

/-- What the daemon's API answers to one request: dialling it may fail, and so
may the call. -/
structure Rpc where
  dial : Option String := none
  call : Option String := none
  deriving DecidableEq, Repr

/-- `strings.Contains(err.Error(), "not found")`. -/
def notFound (err : String) : Bool := decide ("not found".toList <:+: err.toList)

/-- The removal reached the daemon, which has no such user any more. -/
def Rpc.gone (c : Rpc) : Bool :=
  c.dial.isNone && (match c.call with
    | none => true
    | some e => notFound e)

/-- A service whose peers are users of a daemon.  `check` is what it says to peer
data it does not accept. -/
def rpcService (check : List UInt8 → Option String) : Service where
  State := Users check
  Ctl := Rpc
  addPeer data c s :=
    match h : check data with
    | some e => (.error e, s)
    | none =>
        match c.dial with
        | some e => (.error e, s)
        | none =>
            match c.call with
            | some e => (.error e, s)
            | none => (.ok [], s.put data h)
  hasPeer data s := decide (Key.of data ∈ s.keys)
  removePeer data c s :=
    match check data with
    | some e => (some e, s)
    | none =>
        match c.dial with
        | some e => (some e, s)
        | none =>
            match c.call with
            | none => (none, s.delete (Key.of data))
            | some e =>
                -- a user the daemon does not know is as good as removed
                if notFound e then (none, s.delete (Key.of data)) else (some e, s)
  peerCount s := s.keys.card
  cutOff data c _ := (check data).isNone && c.gone
  registered s := s.keys
  wf _ := True

/-- The data check of `V2Ray`: a proxy byte and a UUID. -/
def v2rayCheck (data : List UInt8) : Option String :=
  if data.length ≠ 1 + 16 then some "data length must be 17 bytes" else none

/-- `V2Ray`.  Its `HasPeer` looks the peer up and asks whether it is empty. -/
def v2ray : Service :=
  { rpcService v2rayCheck with
    hasPeer := fun data (s : Users v2rayCheck) => decide (Key.of data ∈ s.keys ∧ (Key.of data).text ≠ "") }

/-- `proxyVLESS`, the byte that names the protocol. -/
def proxyVLESS : UInt8 := 1

/-- The data check of `XRay`. -/
def xrayCheck (data : List UInt8) : Option String :=
  if data.length ≠ 1 + 16 ∨ data.head? ≠ some proxyVLESS then
    some "peer data must be the VLESS byte followed by a 16-byte uuid"
  else none

/-- `XRay`. -/
def xray : Service := rpcService xrayCheck

/-! ## The laws -/

section Laws

variable {check : List UInt8 → Option String}

/-- An `AddPeer` registers the peer or changes nothing. -/
theorem rpcService_addPeer_cases (data : List UInt8) (c : Rpc) (s : Users check) :
    (∃ h, (rpcService check).addPeer data c s = (.ok [], s.put data h)) ∨
      ∃ e, (rpcService check).addPeer data c s = (.error e, s) := by
  simp only [rpcService]
  split
  · exact .inr ⟨_, rfl⟩
  · rename_i hdata
    split
    · exact .inr ⟨_, rfl⟩
    · split
      · exact .inr ⟨_, rfl⟩
      · exact .inl ⟨hdata, rfl⟩

/-- A `RemovePeer` forgets the peer when the daemon no longer has it, and changes
nothing otherwise. -/
theorem rpcService_removePeer_cases (data : List UInt8) (c : Rpc) (s : Users check) :
    ((rpcService check).removePeer data c s = (none, s.delete (Key.of data)) ∧
        (rpcService check).cutOff data c s = true) ∨
      ∃ e, (rpcService check).removePeer data c s = (some e, s) := by
  simp only [rpcService, Rpc.gone]
  split
  · exact .inr ⟨_, rfl⟩
  · rename_i hdata
    split
    · exact .inr ⟨_, rfl⟩
    · rename_i hdial
      split
      · exact .inl ⟨rfl, by simp [hdata, hdial]⟩
      · rename_i e _
        split
        · rename_i hnf
          exact .inl ⟨rfl, by simp [hdata, hdial, hnf]⟩
        · exact .inr ⟨e, rfl⟩

/-- **A service that calls its daemon first keeps a peer whose removal failed.** -/
theorem rpcService_lawful : (rpcService check).Lawful := by
  have hsound : (rpcService check).Sound := by
    refine Service.Sound.of_cases (fun data s => by simp [rpcService]) (fun data c s => ?_)
      (fun data c s => ?_) (fun _ _ => trivial) (fun _ => trivial)
    · rcases rpcService_addPeer_cases data c s with ⟨_, heq⟩ | ⟨e, heq⟩
      · exact .inl ⟨_, by rw [heq], by rw [heq]; rfl⟩
      · exact .inr ⟨e, by rw [heq], by rw [heq]⟩
    · rcases rpcService_removePeer_cases data c s with ⟨heq, -⟩ | ⟨e, heq⟩
      · exact .inl (by rw [heq]; rfl)
      · exact .inr ⟨by rw [heq], fun h => by rw [heq] at h; cases h⟩
  refine hsound.lawful (fun data c s => ?_) fun _ => rfl
  rcases rpcService_removePeer_cases data c s with ⟨heq, hcut⟩ | ⟨e, heq⟩
  · exact .inl ⟨by rw [heq], hcut⟩
  · exact .inr ⟨e, by rw [heq], by rw [heq]⟩

/-- A registered peer comes out whenever the daemon answers. -/
theorem rpcService_removePeer_ok {data : List UInt8} {s : Users check} (h : Key.of data ∈ s.keys) :
    ((rpcService check).removePeer data {} s).1 = none := by
  simp only [rpcService, s.accepted data h]

end Laws

theorem xray_lawful : xray.Lawful := rpcService_lawful

/-- V2Ray's own `HasPeer` says the same, as no key is empty. -/
theorem v2ray_hasPeer_iff (data : List UInt8) (s : Users v2rayCheck) :
    v2ray.hasPeer data s = true ↔ Key.of data ∈ v2ray.registered s := by
  show decide (Key.of data ∈ s.keys ∧ (Key.of data).text ≠ "") = true ↔ Key.of data ∈ s.keys
  rw [decide_eq_true_iff]
  refine ⟨And.left, fun h => ⟨h, fun h0 => ?_⟩⟩
  have hzero : Key.of [] ∈ s.keys := by
    rw [Key.text_eq_empty_iff.1 h0] at h
    exact h
  exact absurd (s.accepted [] hzero) (by decide)

theorem v2ray_lawful : v2ray.Lawful :=
  { @rpcService_lawful v2rayCheck with
    hasPeer_iff := v2ray_hasPeer_iff }

end Dvpnd
