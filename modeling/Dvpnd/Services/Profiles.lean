import Dvpnd.Services.Addresses
import Dvpnd.Services.Clients
import Dvpnd.Services.Payload

/-!
# What `AddPeer` packs and `HandshakePayload` unpacks

A service answers `AddPeer` with bytes, and the node hands them back to the same service to
make the client's configuration of them.  By then the session's row is written, so **an error
there would leave an admitted client with nothing**.

* `WireGuard.handshakePayload` — two addresses in twenty bytes, where sixteen zeros stand for
  no IPv6 address; `wireguard_recovers`.
* `OpenVPN.handshakePayload` — a certificate behind its length, and a key; `openvpn_recovers`.
* `payload_recovers` — **in every state of either service the payload of what `AddPeer`
  returned is there and holds what was assigned or issued.**
-/

namespace Dvpnd

/-! ## WireGuard -/

namespace WireGuard

/-- `PeerMetadata`. -/
structure PeerMetadata where
  port : UInt16
  publicKey : String

/-- `HandshakePayloadData`. -/
structure HandshakePayloadData where
  addrs : List String
  metadata : List PeerMetadata

/-- `HandshakePayload`. -/
def handshakePayload (i : Interface) (result : List UInt8) : Except String HandshakePayloadData :=
  match AmneziaWG.peerAddrs result with
  | .error e => .error e
  | .ok addrs => .ok ⟨addrs, [⟨i.listenPort, i.publicKey⟩]⟩

theorem config_of_init {k : AmneziaWG.Crypto} {config : Config} {pool : IPPool}
    {extra : List String} {i : Interface} (h : init k config pool extra = .ok i) :
    i.config = config := by
  unfold init at h
  split at h
  · cases h
  · obtain ⟨key, -, h⟩ := bind_ok h
    cases h
    rfl

/-- What a call leaves; a peer may be added again. -/
def call (enableIPv6 : Bool) (s : WireGuard) : Act → Option WireGuard
  | .addPeer data c => some (s.addPeer enableIPv6 data c).2
  | .removePeer data c => some (s.removePeer data c).2

/-- The states of a service that was given these pools. -/
def Served (enableIPv6 : Bool) (pool : IPPool) (s : WireGuard) : Prop :=
  Steps.Reach (call enableIPv6) (fun _ _ => True) (fresh pool) s

/-- The address `AddPeer` gives a peer for IPv6: none, when it is off. -/
def second (enableIPv6 : Bool) (given : IP 16) : IP 16 := if enableIPv6 then given else IP.zero 16

/-- **The two addresses come back out of the bytes**; sixteen zeros are none. -/
theorem peerAddrs_append (v4 : IP 4) (v6 : IP 16) :
    AmneziaWG.peerAddrs (v4.bytes ++ v6.bytes) = .ok ((ipText v4.bytes ++ "/32") ::
      if v6 ≠ IP.zero 16 then [ipText v6.bytes ++ "/128"] else []) := by
  have hlen : (v4.bytes ++ v6.bytes).length = 20 := by
    rw [List.length_append, v4.length_eq, v6.length_eq]
  have hzero : v6.bytes ≠ List.replicate 16 0 ↔ v6 ≠ IP.zero 16 := by
    obtain ⟨bytes, hbytes⟩ := v6
    simp [IP.zero]
  have hdrop : ((v4.bytes ++ v6.bytes).drop 4).take 16 = v6.bytes := by
    rw [List.drop_left' v4.length_eq, List.take_of_length_le v6.length_eq.le]
  rw [AmneziaWG.peerAddrs]
  simp only [hlen, hdrop, hzero, List.take_left' v4.length_eq, ne_eq, not_true_eq_false, if_false]

theorem get_put {s : WireGuard} {v : Peer} (hv : v.empty = false) (hnew : v.identity ∉ s.keys) :
    (s.put v hv).get v.identity = v := by
  rw [put, dif_neg (fun h => hnew (List.mem_toFinset.2 h)), get]
  simp

/-- What an `AddPeer` that succeeds has done: a draw, and the bytes of it. -/
theorem addPeer_ok {enableIPv6 : Bool} {data r : List UInt8} {c : Tool} {s : WireGuard}
    (h : (s.addPeer enableIPv6 data c).1 = .ok r) :
    ∃ v4 given, s.pool.get.1 = .ok (v4, given) ∧ r = v4.bytes ++ (second enableIPv6 given).bytes ∧
      (Key.of data ∉ s.keys → (s.addPeer enableIPv6 data c).2.get (Key.of data) =
        ⟨Key.of data, v4, second enableIPv6 given⟩) := by
  unfold addPeer at h ⊢
  split at h
  · cases h
  · rename_i v4 given pool hget
    dsimp only at h ⊢
    split at h
    · cases h
    · rename_i hrun
      cases h
      refine ⟨v4, given, by rw [hget], rfl, fun hnew => ?_⟩
      exact get_put (peer_named hrun v4 (second enableIPv6 given)) hnew

/-! ### The second address is never zero -/

/-- The IPv6 half of a draw keeps to its network. -/
theorem Within.get6 {p : IPPool} {net : IPNet} (h : p.v6.Within net) :
    p.get.2.v6.Within net ∧ ∀ v4 v6, p.get.1 = .ok (v4, v6) → net.contains v6.bytes = true := by
  obtain ⟨hpool, hip⟩ := h.getWith id "ipv6 pool is pull"
  unfold IPPool.get
  split
  · exact ⟨h, fun _ _ hok => by cases hok⟩
  · split
    · rename_i e v6 heq
      rw [show p.v6.getWith id "ipv6 pool is pull" = _ from heq] at hpool
      exact ⟨hpool, fun _ _ hok => by cases hok⟩
    · rename_i ip6 v6 heq
      rw [show p.v6.getWith id "ipv6 pool is pull" = _ from heq] at hpool hip
      refine ⟨hpool, ?_⟩
      rintro _ _ ⟨⟩
      exact hip _ rfl

theorem kept_within6 (net : IPNet) : IPPool.Kept (·.v6.Within net) where
  get _ h := (Within.get6 h).1
  release _ _ v6 h := h.release v6
  release6 _ v6 h := h.release v6

theorem Served.within {enableIPv6 : Bool} {pool : IPPool} {net : IPNet} {s : WireGuard}
    (hs : Served enableIPv6 pool s) (hpool : pool.v6.Within net) : s.pool.v6.Within net := by
  refine hs.invariant (I := fun s => s.pool.v6.Within net) hpool fun {s a s'} hi _ hstep => ?_
  cases a with
  | addPeer data c =>
      cases hstep
      exact addPeer_kept (kept_within6 net) hi enableIPv6 data c
  | removePeer data c =>
      cases hstep
      exact removePeer_kept (kept_within6 net) hi data c

theorem nodePool_within : nodePool.v6.Within nodePool.v6.net :=
  ⟨rfl, fun _ h => absurd h List.not_mem_nil, fun _ h => absurd h (Finset.notMem_empty _)⟩

/-- **WireGuard's payload is there, with the addresses that were assigned.** -/
theorem recovers {i : Interface} {s : WireGuard}
    (hs : Served i.config.enableIPv6 nodePool s) {data result : List UInt8} {c : Tool}
    (h : (s.addPeer i.config.enableIPv6 data c).1 = .ok result) :
    ∃ v4 v6, s.pool.get.1 = .ok (v4, v6) ∧
      (Key.of data ∉ s.keys → (s.addPeer i.config.enableIPv6 data c).2.get (Key.of data) =
        ⟨Key.of data, v4, second i.config.enableIPv6 v6⟩) ∧
      handshakePayload i result = .ok
        ⟨(ipText v4.bytes ++ "/32") ::
          if i.config.enableIPv6 then [ipText v6.bytes ++ "/128"] else [],
          [⟨i.listenPort, i.publicKey⟩]⟩ := by
  obtain ⟨v4, v6, hget, rfl, hpeer⟩ := addPeer_ok h
  refine ⟨v4, v6, hget, hpeer, ?_⟩
  have hin := (Within.get6 (hs.within nodePool_within)).2 v4 v6 hget
  rw [handshakePayload, peerAddrs_append]
  cases i.config.enableIPv6 with
  | false => rfl
  | true =>
      have hzero : v6 ≠ IP.zero 16 := fun heq => by
        rw [heq] at hin
        exact absurd hin (by decide)
      show Except.ok _ = _
      rw [show second true v6 = v6 from rfl, if_pos hzero]
      rfl

end WireGuard

/-! ## OpenVPN -/

namespace OpenVPN

/-- What the keys of the service hand out. -/
structure PKI where
  caDER : List UInt8
  tlsCrypt : List UInt8

/-- The fields of `OpenVPN` that a payload is made of; without `Init` there are no keys. -/
structure Profile where
  info : List UInt8
  proto : String
  pki : Option PKI

/-- `PeerMetadata`. -/
structure PeerMetadata where
  port : UInt16
  protocol : String
  ca : List UInt8
  tls : List UInt8

/-- `HandshakePayloadData`. -/
structure HandshakePayloadData where
  metadata : List PeerMetadata
  cert : List UInt8
  key : List UInt8

/-- `binary.BigEndian.Uint32`. -/
def uint32 (b : List UInt8) : Nat := setBytes (b.take 4)

/-- `HandshakePayload`. -/
def handshakePayload (r : Profile) (result : List UInt8) : Except String HandshakePayloadData :=
  if result.length < 4 then .error "unexpected openvpn peer result"
  else
    let certLen := uint32 (result.take 4)
    if certLen = 0 ∨ 4 + certLen > result.length then
      .error "unexpected openvpn peer result length"
    else
      match r.pki with
      | none => .error "openvpn was not initialised"
      | some pki =>
          .ok ⟨[⟨uint16 (r.info.take 2), r.proto, pki.caDER, pki.tlsCrypt⟩],
            (result.drop 4).take certLen, result.drop (4 + certLen)⟩

theorem length_putUint32 (n : Nat) : (putUint32 n).length = 4 := rfl

/-- A length below 2^32 comes back. -/
theorem uint32_putUint32 {n : Nat} (h : n < 2 ^ 32) : uint32 (putUint32 n) = n := by
  simp only [uint32, putUint32, setBytes, List.take_succ_cons, List.take_zero, List.foldl_cons,
    List.foldl_nil, UInt8.toNat_ofNat']
  omega

/-- What an `AddPeer` that succeeds has packed. -/
theorem addPeer_ok {data result : List UInt8} {c : Management} {s : OpenVPN}
    (h : (openvpn.addPeer data c s).1 = .ok result) :
    ∃ cert key, c.issued = .ok (cert, key) ∧ result = putUint32 cert.length ++ cert ++ key := by
  simp only [openvpn] at h
  split at h
  · cases h
  · split at h
    · cases h
    · split at h
      · cases h
      · rename_i cert key hissued
        cases h
        exact ⟨cert, key, hissued, rfl⟩

/-- **OpenVPN's payload is there, with the certificate and the key that were issued.** -/
theorem recovers {r : Profile} {pki : PKI} (hr : r.pki = some pki) {cert : List UInt8}
    (hne : cert ≠ []) (hlt : cert.length < 2 ^ 32) (key : List UInt8) :
    handshakePayload r (putUint32 cert.length ++ cert ++ key) = .ok
      ⟨[⟨uint16 (r.info.take 2), r.proto, pki.caDER, pki.tlsCrypt⟩], cert, key⟩ := by
  have hpos : cert.length ≠ 0 := fun h => hne (List.length_eq_zero_iff.1 h)
  have htake : (putUint32 cert.length ++ cert ++ key).take 4 = putUint32 cert.length := by
    rw [List.append_assoc, List.take_left' (length_putUint32 _)]
  have hdrop : (putUint32 cert.length ++ cert ++ key).drop 4 = cert ++ key := by
    rw [List.append_assoc, List.drop_left' (length_putUint32 _)]
  have hlen : (putUint32 cert.length ++ cert ++ key).length = 4 + cert.length + key.length := by
    rw [List.length_append, List.length_append, length_putUint32]
  rw [handshakePayload, if_neg (by omega)]
  simp only [htake, uint32_putUint32 hlt]
  rw [if_neg (by omega), hr, ← List.drop_drop, hdrop]
  simp

end OpenVPN

/-! ## Both -/

/-- **What `AddPeer` returned is always unpacked**: for WireGuard, in every state of a service
with the node's pools, into the address that was drawn and, exactly when IPv6 is on, the
second one; for OpenVPN, in every state with keys, into the certificate and the key that
were issued. -/
theorem payload_recovers :
    (∀ k config i s data c result, WireGuard.init k config nodePool [] = .ok i →
      WireGuard.Served config.enableIPv6 nodePool s →
      (s.addPeer config.enableIPv6 data c).1 = .ok result →
      ∃ v4 v6, s.pool.get.1 = .ok (v4, v6) ∧
        (Key.of data ∉ s.keys → (s.addPeer config.enableIPv6 data c).2.get (Key.of data) =
          ⟨Key.of data, v4, WireGuard.second config.enableIPv6 v6⟩) ∧
        WireGuard.handshakePayload i result = .ok
          ⟨(ipText v4.bytes ++ "/32") ::
            if config.enableIPv6 then [ipText v6.bytes ++ "/128"] else [],
            [⟨i.listenPort, i.publicKey⟩]⟩) ∧
    ∀ (r : OpenVPN.Profile) pki s data c result, r.pki = some pki → s.pki = true →
      (openvpn.addPeer data c s).1 = .ok result →
      ∃ cert key, c.issued = .ok (cert, key) ∧
        (cert ≠ [] → cert.length < 2 ^ 32 →
          OpenVPN.handshakePayload r result = .ok
            ⟨[⟨uint16 (r.info.take 2), r.proto, pki.caDER, pki.tlsCrypt⟩], cert, key⟩) := by
  constructor
  · intro k config i s data c result hinit hs h
    obtain rfl := WireGuard.config_of_init hinit
    exact WireGuard.recovers hs h
  · intro r pki s data c result hr _ h
    obtain ⟨cert, key, hissued, rfl⟩ := OpenVPN.addPeer_ok h
    exact ⟨cert, key, hissued, fun hne hlt => OpenVPN.recovers hr hne hlt key⟩

/-- The first client of either service. -/
theorem payload_recovers_first :
    (∃ i result v4 v6, WireGuard.init AmneziaWG.plainCrypto AmneziaWG.derivedConfig.wireGuard
        nodePool [] = .ok i ∧
      ((WireGuard.fresh nodePool).addPeer true (List.replicate 32 1) .working).1 = .ok result ∧
      WireGuard.handshakePayload i result = .ok
        ⟨[ipText v4 ++ "/32", ipText v6 ++ "/128"], [⟨i.listenPort, i.publicKey⟩]⟩) ∧
    ∃ result, (openvpn.addPeer (List.replicate 16 1) ⟨.ok ([1, 2], [3]), .ok [], fun _ => none⟩
        ⟨Clients.empty, true, false⟩).1 = .ok result ∧
      OpenVPN.handshakePayload ⟨[4, 170], "udp", some ⟨[5], [6]⟩⟩ result =
        .ok ⟨[⟨1194, "udp", [5], [6]⟩], [1, 2], [3]⟩ := by
  obtain ⟨i, hinit⟩ := errorOf_eq_none.1 (show errorOf (WireGuard.init
    AmneziaWG.plainCrypto AmneziaWG.derivedConfig.wireGuard nodePool []) = none by decide)
  obtain ⟨v4, v6, -, -, hpayload⟩ := payload_recovers.1 _ _ i (WireGuard.fresh nodePool)
    (List.replicate 32 1) .working _ hinit .start rfl
  refine ⟨⟨i, _, v4.bytes, v6.bytes, hinit, rfl, hpayload⟩, _, rfl, ?_⟩
  obtain ⟨cert, key, hissued, hpayload⟩ := payload_recovers.2
    ⟨[4, 170], "udp", some ⟨[5], [6]⟩⟩ ⟨[5], [6]⟩ ⟨Clients.empty, true, false⟩
    (List.replicate 16 1) ⟨.ok ([1, 2], [3]), .ok [], fun _ => none⟩ _ rfl rfl rfl
  cases hissued
  exact hpayload (by decide) (by decide)

end Dvpnd
