import Dvpnd.Services.IPPool
import Dvpnd.Types.Service

/-!
# WireGuard and AmneziaWG

`services/wireguard` keeps its peers with their tunnel addresses and drives the
interface with a command line tool; `services/amneziawg` is two of it, one per
tier.  Both **run the tool first and forget the peer after**, so a removal that
fails keeps it.

* `WireGuard` — the state of one interface: the peers and the pool.
* `wireguard`, `amneziawg` — the services.
* `wireguard_lawful`, `amneziawg_lawful` — both keep a peer whose removal failed.
  For AmneziaWG that a removal clears the peer rests on its being on one tier
  only.
-/

namespace Dvpnd

/-! ## One interface -/

/-- A registered peer and its tunnel addresses. -/
structure WireGuard.Peer where
  identity : Key := Key.zero
  ipv4 : IP 4 := IP.zero 4
  ipv6 : IP 16 := IP.zero 16

/-- `Empty`. -/
def WireGuard.Peer.empty (p : WireGuard.Peer) : Bool := p.identity.text == ""

/-- The state of an interface.  The peers are a map by their identity. -/
structure WireGuard where
  peers : List WireGuard.Peer
  pool : IPPool
  nodup : (peers.map WireGuard.Peer.identity).Nodup
  named : ∀ p ∈ peers, p.empty = false

/-- One run of the tool that configures the interface, with what it says to each
key.  It takes none that is not 32 bytes long. -/
structure Tool where
  run : List UInt8 → Option String
  refuses : ∀ data, data.length ≠ 32 → run data ≠ none

/-- A tool that takes every key of the right length. -/
def Tool.working : Tool where
  run data := if data.length ≠ 32 then some "exit status 1" else none
  refuses data h := by
    rw [if_pos h]
    nofun

/-- The pools of `NewService`: 10.8.0.2/24 and fd86:ea04:1115::2/120. -/
def nodePool : IPPool where
  v4 := { net := ⟨[10, 8, 0, 0], [255, 255, 255, 0]⟩, current := ⟨[10, 8, 0, 2], rfl⟩ }
  v6 :=
    { net := ⟨[0xfd, 0x86, 0xea, 0x04, 0x11, 0x15] ++ List.replicate 10 0,
        List.replicate 15 255 ++ [0]⟩
      current := ⟨[0xfd, 0x86, 0xea, 0x04, 0x11, 0x15] ++ List.replicate 9 0 ++ [2], rfl⟩ }

namespace WireGuard

/-- The interface before its first peer. -/
def fresh (pool : IPPool) : WireGuard := ⟨[], pool, List.nodup_nil, fun _ h => absurd h (by simp)⟩

/-- `Peers.Get`: the peer, or the zero value. -/
def get (s : WireGuard) (key : Key) : Peer := (s.peers.find? (·.identity = key)).getD {}

/-- `Peers.Put`, which leaves a peer that is there as it is. -/
def put (s : WireGuard) (v : Peer) (hv : v.empty = false) : WireGuard :=
  if h : v.identity ∈ s.peers.map Peer.identity then s
  else
    { s with
      peers := v :: s.peers
      nodup := List.nodup_cons.2 ⟨h, s.nodup⟩
      named := fun p hp => by
        rcases List.mem_cons.1 hp with rfl | hp
        · exact hv
        · exact s.named p hp }

/-- `Peers.Delete`. -/
def delete (s : WireGuard) (key : Key) : WireGuard :=
  { s with
    peers := s.peers.filter (·.identity ≠ key)
    nodup := s.nodup.sublist (List.filter_sublist.map _)
    named := fun p hp => s.named p (List.mem_of_mem_filter hp) }

/-- The identities of the peers. -/
def keys (s : WireGuard) : Finset Key := (s.peers.map Peer.identity).toFinset

/-- The key of data the tool takes is not empty. -/
theorem peer_named {c : Tool} {data : List UInt8} (h : c.run data = none) (v4 : IP 4) (v6 : IP 16) :
    (Peer.empty ⟨Key.of data, v4, v6⟩) = false := by
  have hlen : data.length = 32 := by
    by_contra hne
    exact c.refuses data hne h
  refine beq_eq_false_iff_ne.2 fun h0 => ?_
  rw [Key.of_injective (Key.text_eq_empty_iff.1 h0)] at hlen
  cases hlen

/-- `AddPeer`.  Without IPv6 the second address goes back at once and stays
zero. -/
def addPeer (enableIPv6 : Bool) (data : List UInt8) (c : Tool) (s : WireGuard) :
    Except String (List UInt8) × WireGuard :=
  match s.pool.get with
  | (.error e, pool) => (.error e, { s with pool := pool })
  | (.ok (v4, given), pool) =>
      let v6 := if enableIPv6 then given else IP.zero 16
      let pool := if enableIPv6 then pool else { pool with v6 := pool.v6.release given }
      match h : c.run data with
      | some e => (.error e, { s with pool := pool.release v4 v6 })
      | none => (.ok (v4.bytes ++ v6.bytes),
          ({ s with pool := pool } : WireGuard).put ⟨Key.of data, v4, v6⟩ (peer_named h v4 v6))

/-- `HasPeer`. -/
def hasPeer (data : List UInt8) (s : WireGuard) : Bool := !(s.get (Key.of data)).empty

/-- `RemovePeer`. -/
def removePeer (data : List UInt8) (c : Tool) (s : WireGuard) : Option String × WireGuard :=
  match c.run data with
  | some e => (some e, s)
  | none =>
      let v := s.get (Key.of data)
      if v.empty then (none, s)
      else (none, { s.delete v.identity with pool := s.pool.release v.ipv4 v.ipv6 })

end WireGuard

/-- `WireGuard`, with its `enable_ipv6` setting. -/
def wireguard (enableIPv6 : Bool) : Service where
  State := WireGuard
  Ctl := Tool
  addPeer := WireGuard.addPeer enableIPv6
  hasPeer := WireGuard.hasPeer
  removePeer := WireGuard.removePeer
  peerCount s := s.peers.length
  cutOff data c _ := (c.run data).isNone
  registered := WireGuard.keys
  wf _ := True

/-! ### The laws -/

namespace WireGuard

variable {data : List UInt8} {s : WireGuard}

theorem mem_keys {key : Key} : key ∈ s.keys ↔ ∃ p ∈ s.peers, p.identity = key := by
  simp only [keys, List.mem_toFinset, List.mem_map]

theorem keys_put (v : Peer) (hv : v.empty = false) :
    (s.put v hv).keys = insert v.identity s.keys := by
  unfold put
  split
  · rename_i h
    exact (Finset.insert_eq_of_mem (List.mem_toFinset.2 h)).symm
  · exact List.toFinset_cons

theorem pool_put (v : Peer) (hv : v.empty = false) : (s.put v hv).pool = s.pool := by
  unfold put
  split
  · rfl
  · rfl

theorem keys_delete (key : Key) : (s.delete key).keys = s.keys.erase key := by
  ext k
  simp only [mem_keys, delete, Finset.mem_erase, List.mem_filter, decide_eq_true_iff]
  constructor
  · rintro ⟨p, ⟨hp, hne⟩, rfl⟩
    exact ⟨hne, p, hp, rfl⟩
  · rintro ⟨hne, p, hp, rfl⟩
    exact ⟨p, ⟨hp, hne⟩, rfl⟩

/-- `Get` finds the peer of a registered key and returns the empty peer for any
other. -/
theorem get_spec (key : Key) :
    (key ∈ s.keys ∧ (s.get key).identity = key ∧ (s.get key).empty = false) ∨
      (key ∉ s.keys ∧ (s.get key).empty = true) := by
  unfold get
  cases hfind : s.peers.find? (·.identity = key) with
  | none =>
      refine .inr ⟨fun hk => ?_, rfl⟩
      obtain ⟨p, hp, hkey⟩ := mem_keys.1 hk
      exact List.find?_eq_none.1 hfind p hp (decide_eq_true hkey)
  | some p =>
      have hp := List.mem_of_find?_eq_some hfind
      have hkey : p.identity = key := by simpa using List.find?_some hfind
      exact .inl ⟨mem_keys.2 ⟨p, hp, hkey⟩, hkey, s.named p hp⟩

theorem hasPeer_iff : s.hasPeer data = true ↔ Key.of data ∈ s.keys := by
  unfold hasPeer
  rcases s.get_spec (Key.of data) with ⟨hk, -, he⟩ | ⟨hk, he⟩
  · simp [he, hk]
  · simp [he, hk]

/-- An `AddPeer` registers the peer, or leaves the peers as they are. -/
theorem addPeer_spec (enableIPv6 : Bool) (data : List UInt8) (c : Tool) (s : WireGuard) :
    (∃ r, (addPeer enableIPv6 data c s).1 = .ok r ∧
        (addPeer enableIPv6 data c s).2.keys = insert (Key.of data) s.keys) ∨
      ∃ e, (addPeer enableIPv6 data c s).1 = .error e ∧
        (addPeer enableIPv6 data c s).2.keys = s.keys := by
  unfold addPeer
  split
  · exact .inr ⟨_, rfl, rfl⟩
  · dsimp only
    split
    · exact .inr ⟨_, rfl, rfl⟩
    · exact .inl ⟨_, rfl, keys_put _ (peer_named ‹_› _ _)⟩

/-- A `RemovePeer` forgets the peer once the tool has, and changes nothing when
the tool fails. -/
theorem removePeer_spec (data : List UInt8) (c : Tool) (s : WireGuard) :
    ((removePeer data c s).1 = none ∧ c.run data = none ∧
        (removePeer data c s).2.keys = s.keys.erase (Key.of data)) ∨
      ∃ e, removePeer data c s = (some e, s) := by
  unfold removePeer
  split
  · exact .inr ⟨_, rfl⟩
  · rename_i hrun
    refine .inl ?_
    rcases s.get_spec (Key.of data) with ⟨-, hid, he⟩ | ⟨hk, he⟩
    · simp only [he, Bool.false_eq_true, if_false]
      exact ⟨trivial, hrun, (keys_delete _).trans (by rw [hid])⟩
    · simp only [he, if_true]
      exact ⟨trivial, hrun, (Finset.erase_eq_of_notMem hk).symm⟩

theorem card_keys (s : WireGuard) : s.keys.card = s.peers.length := by
  rw [keys, List.toFinset_card_of_nodup s.nodup, List.length_map]

end WireGuard

/-- **WireGuard keeps a peer whose removal failed.** -/
theorem wireguard_lawful (enableIPv6 : Bool) : (wireguard enableIPv6).Lawful := by
  have hsound : (wireguard enableIPv6).Sound := by
    refine Service.Sound.of_cases (fun data s => WireGuard.hasPeer_iff)
      (WireGuard.addPeer_spec enableIPv6) (fun data c s => ?_)
      (fun _ _ => trivial) (fun _ => trivial)
    rcases WireGuard.removePeer_spec data c s with ⟨-, -, hkeys⟩ | ⟨e, heq⟩
    · exact .inl hkeys
    · exact .inr ⟨congrArg (fun out => out.2.keys) heq, fun h =>
        absurd ((congrArg Prod.fst heq).symm.trans h) (by simp)⟩
  refine hsound.lawful (fun data c s => ?_) fun {s} _ => (WireGuard.card_keys s).symm
  rcases WireGuard.removePeer_spec data c s with ⟨hnone, hrun, -⟩ | ⟨e, heq⟩
  · exact .inl ⟨hnone, Option.isNone_iff_eq_none.2 hrun⟩
  · exact .inr ⟨e, congrArg Prod.fst heq, congrArg (fun out => out.2.keys) heq⟩

/-! ## Two tiers -/

/-- The awg_version that asks for the 3.1 tier. -/
def version3 : Int := 3

/-- The default tier, and the 3.1 tier when it is on. -/
structure AmneziaWG where
  wg : WireGuard
  v3 : WireGuard

/-- One run of the tool, and the tier the peer's request asked for. -/
structure TierTool where
  tool : Tool
  asked : Int

namespace AmneziaWG

variable (v3On : Bool)

/-- The peers of the 3.1 tier. -/
def v3Keys (s : AmneziaWG) : Finset Key := if v3On then s.v3.keys else ∅

/-- The peers of both tiers. -/
def keys (s : AmneziaWG) : Finset Key := s.wg.keys ∪ s.v3Keys v3On

/-- `AddPeer`. -/
def addPeer (enableIPv6 : Bool) (data : List UInt8) (c : TierTool) (s : AmneziaWG) :
    Except String (List UInt8) × AmneziaWG :=
  if c.asked = version3 ∧ v3On = true then
    ((s.v3.addPeer enableIPv6 data c.tool).1, { s with v3 := (s.v3.addPeer enableIPv6 data c.tool).2 })
  else
    ((s.wg.addPeer enableIPv6 data c.tool).1, { s with wg := (s.wg.addPeer enableIPv6 data c.tool).2 })

/-- `HasPeer`. -/
def hasPeer (data : List UInt8) (s : AmneziaWG) : Bool :=
  s.wg.hasPeer data || (v3On && s.v3.hasPeer data)

/-- `RemovePeer`: from the tier that has the peer, or else from the default one. -/
def removePeer (data : List UInt8) (c : TierTool) (s : AmneziaWG) : Option String × AmneziaWG :=
  if (v3On && s.v3.hasPeer data) = true then
    ((s.v3.removePeer data c.tool).1, { s with v3 := (s.v3.removePeer data c.tool).2 })
  else ((s.wg.removePeer data c.tool).1, { s with wg := (s.wg.removePeer data c.tool).2 })

end AmneziaWG

/-- `AmneziaWG`, with its `enable_ipv6` setting and whether the 3.1 tier is on.  No
peer is on both tiers. -/
def amneziawg (enableIPv6 v3On : Bool) : Service where
  State := AmneziaWG
  Ctl := TierTool
  addPeer := AmneziaWG.addPeer v3On enableIPv6
  hasPeer := AmneziaWG.hasPeer v3On
  removePeer := AmneziaWG.removePeer v3On
  peerCount s := s.wg.peers.length + if v3On then s.v3.peers.length else 0
  cutOff data c _ := (c.tool.run data).isNone
  registered := AmneziaWG.keys v3On
  wf s := Disjoint s.wg.keys (s.v3Keys v3On)

/-! ### The laws -/

namespace AmneziaWG

variable (v3On : Bool) (data : List UInt8) (c : TierTool) (s : AmneziaWG)

theorem hasPeer_iff : hasPeer v3On data s = true ↔ Key.of data ∈ s.keys v3On := by
  cases v3On with
  | false => simp [hasPeer, keys, v3Keys, WireGuard.hasPeer_iff]
  | true => simp [hasPeer, keys, v3Keys, WireGuard.hasPeer_iff]

/-- An `AddPeer` registers the peer on one of the tiers, or leaves both as they
are. -/
theorem addPeer_spec (enableIPv6 : Bool) :
    (∃ r, (addPeer v3On enableIPv6 data c s).1 = .ok r ∧
      (((addPeer v3On enableIPv6 data c s).2.wg.keys = insert (Key.of data) s.wg.keys ∧
          (addPeer v3On enableIPv6 data c s).2.v3Keys v3On = s.v3Keys v3On) ∨
        ((addPeer v3On enableIPv6 data c s).2.wg.keys = s.wg.keys ∧
          (addPeer v3On enableIPv6 data c s).2.v3Keys v3On =
            insert (Key.of data) (s.v3Keys v3On)))) ∨
    ∃ e, (addPeer v3On enableIPv6 data c s).1 = .error e ∧
      (addPeer v3On enableIPv6 data c s).2.wg.keys = s.wg.keys ∧
      (addPeer v3On enableIPv6 data c s).2.v3Keys v3On = s.v3Keys v3On := by
  unfold addPeer
  split
  · rename_i h
    obtain ⟨-, rfl⟩ := h
    rcases WireGuard.addPeer_spec enableIPv6 data c.tool s.v3 with
      ⟨r, hr, hkeys⟩ | ⟨e, he, hkeys⟩
    · exact .inl ⟨r, hr, .inr ⟨rfl, hkeys⟩⟩
    · exact .inr ⟨e, he, rfl, hkeys⟩
  · rcases WireGuard.addPeer_spec enableIPv6 data c.tool s.wg with
      ⟨r, hr, hkeys⟩ | ⟨e, he, hkeys⟩
    · exact .inl ⟨r, hr, .inl ⟨hkeys, rfl⟩⟩
    · exact .inr ⟨e, he, hkeys, rfl⟩

/-- A `RemovePeer` that the tool carries out clears the peer from a tier, and from
the other too unless it was on both; otherwise nothing changes. -/
theorem removePeer_spec :
    ((removePeer v3On data c s).1 = none ∧ c.tool.run data = none ∧
      ((Key.of data ∉ s.v3Keys v3On ∧
          (removePeer v3On data c s).2.wg.keys = s.wg.keys.erase (Key.of data) ∧
          (removePeer v3On data c s).2.v3Keys v3On = s.v3Keys v3On) ∨
        (Key.of data ∈ s.v3Keys v3On ∧ (removePeer v3On data c s).2.wg.keys = s.wg.keys ∧
          (removePeer v3On data c s).2.v3Keys v3On = (s.v3Keys v3On).erase (Key.of data)))) ∨
    ∃ e, removePeer v3On data c s = (some e, s) := by
  unfold removePeer
  split
  · rename_i h
    obtain ⟨rfl, hv3⟩ := (Bool.and_eq_true _ _).mp h
    rcases WireGuard.removePeer_spec data c.tool s.v3 with ⟨hnone, hrun, hkeys⟩ | ⟨e, heq⟩
    · exact .inl ⟨hnone, hrun, .inr ⟨WireGuard.hasPeer_iff.1 hv3, rfl, hkeys⟩⟩
    · exact .inr ⟨e, by rw [heq]⟩
  · rename_i h
    have hv3 : Key.of data ∉ s.v3Keys v3On := by
      cases v3On with
      | false => exact Finset.notMem_empty _
      | true => exact fun hk => h (by simpa using WireGuard.hasPeer_iff.2 hk)
    rcases WireGuard.removePeer_spec data c.tool s.wg with ⟨hnone, hrun, hkeys⟩ | ⟨e, heq⟩
    · exact .inl ⟨hnone, hrun, .inl ⟨hv3, hkeys, rfl⟩⟩
    · exact .inr ⟨e, by rw [heq]⟩

/-- Seen over both tiers, an `AddPeer` registers the peer or changes nothing, -/
theorem addPeer_keys (enableIPv6 : Bool) :
    (∃ r, (addPeer v3On enableIPv6 data c s).1 = .ok r ∧
        (addPeer v3On enableIPv6 data c s).2.keys v3On = insert (Key.of data) (s.keys v3On)) ∨
      ∃ e, (addPeer v3On enableIPv6 data c s).1 = .error e ∧
        (addPeer v3On enableIPv6 data c s).2.keys v3On = s.keys v3On := by
  unfold keys
  rcases addPeer_spec v3On data c s enableIPv6 with
    ⟨r, hr, ⟨hwg, hv3⟩ | ⟨hwg, hv3⟩⟩ | ⟨e, he, hwg, hv3⟩
  · exact .inl ⟨r, hr, by rw [hwg, hv3, Finset.insert_union]⟩
  · exact .inl ⟨r, hr, by rw [hwg, hv3, Finset.union_insert]⟩
  · exact .inr ⟨e, he, by rw [hwg, hv3]⟩

/-- and a peer that is new stays on one tier. -/
theorem addPeer_disjoint (enableIPv6 : Bool) (hwf : Disjoint s.wg.keys (s.v3Keys v3On))
    (hnew : Key.of data ∉ s.keys v3On) :
    Disjoint (addPeer v3On enableIPv6 data c s).2.wg.keys
      ((addPeer v3On enableIPv6 data c s).2.v3Keys v3On) := by
  have hboth : Key.of data ∉ s.wg.keys ∧ Key.of data ∉ s.v3Keys v3On :=
    not_or.1 fun h => hnew (Finset.mem_union.2 h)
  rcases addPeer_spec v3On data c s enableIPv6 with
    ⟨r, -, ⟨hwg, hv3⟩ | ⟨hwg, hv3⟩⟩ | ⟨e, -, hwg, hv3⟩
  · rw [hwg, hv3]
    exact Finset.disjoint_insert_left.2 ⟨hboth.2, hwf⟩
  · rw [hwg, hv3]
    exact Finset.disjoint_insert_right.2 ⟨hboth.1, hwf⟩
  · rw [hwg, hv3]
    exact hwf

/-- A removal clears the peer or changes nothing over both tiers; when it reports
success, the latter means that the peer was on both. -/
theorem removePeer_keys :
    (removePeer v3On data c s).2.keys v3On = (s.keys v3On).erase (Key.of data) ∨
      ((removePeer v3On data c s).2.keys v3On = s.keys v3On ∧
        ((removePeer v3On data c s).1 = none → ¬ Disjoint s.wg.keys (s.v3Keys v3On))) := by
  rcases removePeer_spec v3On data c s with ⟨-, -, ⟨hk, hwg, hv3⟩ | ⟨hk, hwg, hv3⟩⟩ | ⟨e, heq⟩
  · left
    rw [keys, hwg, hv3, keys, Finset.erase_union_distrib, Finset.erase_eq_of_notMem hk]
  · by_cases hk' : Key.of data ∈ s.wg.keys
    · refine .inr ⟨?_, fun _ hwf => Finset.disjoint_left.1 hwf hk' hk⟩
      rw [keys, hwg, hv3, keys]
      ext k
      simp only [Finset.mem_union, Finset.mem_erase]
      constructor
      · rintro (h | ⟨-, h⟩)
        · exact .inl h
        · exact .inr h
      · rintro (h | h)
        · exact .inl h
        · by_cases hkk : k = Key.of data
          · exact .inl (hkk ▸ hk')
          · exact .inr ⟨hkk, h⟩
    · left
      rw [keys, hwg, hv3, keys, Finset.erase_union_distrib, Finset.erase_eq_of_notMem hk']
  · right
    rw [heq]
    exact ⟨rfl, fun h => by cases h⟩

/-- It keeps the tiers apart. -/
theorem removePeer_disjoint (hwf : Disjoint s.wg.keys (s.v3Keys v3On)) :
    Disjoint (removePeer v3On data c s).2.wg.keys ((removePeer v3On data c s).2.v3Keys v3On) := by
  rcases removePeer_spec v3On data c s with ⟨-, -, ⟨-, hwg, hv3⟩ | ⟨-, hwg, hv3⟩⟩ | ⟨e, heq⟩
  · rw [hwg, hv3]
    exact hwf.mono_left (Finset.erase_subset _ _)
  · rw [hwg, hv3]
    exact hwf.mono_right (Finset.erase_subset _ _)
  · rw [heq]
    exact hwf

theorem card_keys (hwf : Disjoint s.wg.keys (s.v3Keys v3On)) :
    (s.keys v3On).card = s.wg.peers.length + if v3On then s.v3.peers.length else 0 := by
  rw [keys, Finset.card_union_of_disjoint hwf, WireGuard.card_keys]
  cases v3On with
  | false => rfl
  | true => exact congrArg _ (WireGuard.card_keys s.v3)

end AmneziaWG

/-- **AmneziaWG keeps a peer whose removal failed.** -/
theorem amneziawg_lawful (enableIPv6 v3On : Bool) : (amneziawg enableIPv6 v3On).Lawful := by
  have hsound : (amneziawg enableIPv6 v3On).Sound :=
    Service.Sound.of_cases (AmneziaWG.hasPeer_iff v3On)
      (fun data c s => AmneziaWG.addPeer_keys v3On data c s enableIPv6)
      (AmneziaWG.removePeer_keys v3On)
      (fun {data c s} => AmneziaWG.addPeer_disjoint v3On data c s enableIPv6)
      (fun {data c s} => AmneziaWG.removePeer_disjoint v3On data c s)
  refine hsound.lawful (fun data c s => ?_)
    fun {s} hwf => (AmneziaWG.card_keys v3On s hwf).symm
  rcases AmneziaWG.removePeer_spec v3On data c s with ⟨hnone, hrun, -⟩ | ⟨e, heq⟩
  · exact .inl ⟨hnone, Option.isNone_iff_eq_none.2 hrun⟩
  · exact .inr ⟨e, congrArg Prod.fst heq, congrArg (fun out => out.2.keys v3On) heq⟩

end Dvpnd
