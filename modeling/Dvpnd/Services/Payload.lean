import Dvpnd.Lib.Steps
import Dvpnd.Services.AmneziaConfig

/-!
# What an AmneziaWG client is told

`HandshakePayload` (`services/amneziawg/amneziawg.go`) tells a client the port, key and
parameters of the interface its peer is on.  Nothing remembers which one that is: **the
tier is read off the tunnel address**.

* `init`, `Ready.handshakePayload` — the service out of its configuration, and the payload.
* `written` — the values under a name in an interface's configuration.
* `IPPool.Within` — a pool hands out addresses of its network only.
* `payload_renders_tier` — **for every configuration that passes its checks with both tiers
  on, in every run**, every key is on one tier, the count is right, and a payload describes
  the tier the peer was added to, with the values its interface was given.
-/

namespace Dvpnd

/-! ## The service after `Init` -/

/-- `NewIPv4FromIP`. -/
def IP.from4 (ip : List UInt8) : IP 4 :=
  ⟨copyBytes (List.replicate 4 0) ((to4 ip).getD []), length_copyBytes _ _⟩

/-- `NewIPv6FromIP`, through `To16`. -/
def IP.from16 (ip : List UInt8) : IP 16 :=
  let ip16 := if ip.length = 4 then List.replicate 10 0 ++ [255, 255] ++ ip
    else if ip.length = 16 then ip else []
  ⟨copyBytes (List.replicate 16 0) ip16, length_copyBytes _ _⟩

/-- `Networks.Pool`. -/
def AmneziaWG.Networks.pool (n : AmneziaWG.Networks) : IPPool where
  v4 := { net := n.ipv4, current := (IP.from4 n.ipv4.ip).next.next }
  v6 := { net := n.ipv6, current := (IP.from16 n.ipv6.ip).next.next }

/-- An interface after `Init`: its configuration, the further lines of it, the pool and
`info`. -/
structure Interface where
  config : WireGuard.Config
  extra : List String
  pool : IPPool
  info : List UInt8

/-- `PutUint16`, the high byte first. -/
def putUint16 (v : UInt16) : List UInt8 := [UInt8.ofNat (v.toNat / 256), UInt8.ofNat v.toNat]

/-- `Uint16`. -/
def uint16 (b : List UInt8) : UInt16 :=
  UInt16.ofNat ((b.getD 0 0).toNat * 256 + (b.getD 1 0).toNat)

/-- `WireGuard.Init`, but for the files it writes. -/
def WireGuard.init (k : AmneziaWG.Crypto) (config : WireGuard.Config) (pool : IPPool)
    (extra : List String) : Except String Interface :=
  match config.validate with
  | some e => .error e
  | none => do
      let key ← keyFromString config.privateKey
      return ⟨config, extra, pool, putUint16 config.listenPort ++ k.scalarBaseMult key⟩

/-- `ListenPort`. -/
def Interface.listenPort (i : Interface) : UInt16 := uint16 (i.info.take 2)

/-- `PublicKey`. -/
def Interface.publicKey (i : Interface) : String := Base64.encodeToString (i.info.drop 2)

namespace AmneziaWG

/-- `AmneziaWG` after `Init`; the 3.1 tier's part with its settings. -/
structure Ready where
  config : Config
  wg : Interface
  v3 : Option (V3 × Interface)

/-- `Init`, with the tools on the path and a configuration that could be read. -/
def init (k : Crypto) (c : Config) : Except String Ready :=
  match c.validate k with
  | some e => .error e
  | none => do
      let (dflt, more) ← c.tunnelNetworks k
      let wg ← WireGuard.init k c.wireGuard dflt.pool c.obfuscation.interfaceLines
      match c.tier3, more with
      | some v, some n =>
          let i ← WireGuard.init k (c.wireGuardV3 v) n.pool (v.interfaceLines c.obfuscation)
          return ⟨c, wg, some (v, i)⟩
      | _, _ => return ⟨c, wg, none⟩

/-- The tiers before the first peer.  A 3.1 tier that is off has no pool, and no use for
one. -/
def Ready.start (r : Ready) : AmneziaWG :=
  ⟨WireGuard.fresh r.wg.pool, WireGuard.fresh ((r.v3.map (·.2.pool)).getD r.wg.pool)⟩

/-! ## The payload -/

/-- `PeerMetadata`. -/
structure PeerMetadata extends Params, Signatures where
  port : UInt16
  publicKey : String

/-- `PeerMetadataV3`. -/
structure PeerMetadataV3 extends PeerMetadata where
  awgVersion : Int
  headerProtectionKey : String
  randomTrailers : Bool
  mtu : Nat

/-- `HandshakePayloadData` and `HandshakePayloadDataV3`. -/
inductive Payload
  | default (addrs : List String) (metadata : List PeerMetadata)
  | v3 (addrs : List String) (metadata : List PeerMetadataV3)

/-- `peerAddrs`. -/
def peerAddrs (result : List UInt8) : Except String (List String) :=
  let n := result.length
  if n ≠ 20 then .error s!"unexpected wireguard peer result length {n}"
  else
    let v6 := (result.drop 4).take 16
    .ok ((ipText (result.take 4) ++ "/32") ::
      if v6 ≠ List.replicate 16 0 then [ipText v6 ++ "/128"] else [])

/-- The entry of a peer on an interface: its port and key, and the parameters. -/
def entry (i : Interface) (p : Params) (o : Signatures) : PeerMetadata :=
  { p, o with port := i.listenPort, publicKey := i.publicKey }

/-- `handshakePayloadV3`. -/
def Ready.handshakePayloadV3 (r : Ready) (v : V3) (i : Interface) (result : List UInt8) :
    Except String Payload := do
  let addrs ← peerAddrs result
  return .v3 addrs
    [{ entry i v.toParams r.config.obfuscation.toSignatures with
      awgVersion := version3
      headerProtectionKey := v.headerProtectionKey
      randomTrailers := v.randomTrailers
      mtu := 1280 }]

/-- The payload of a peer on the default tier. -/
def Ready.handshakePayloadDefault (r : Ready) (result : List UInt8) : Except String Payload := do
  let addrs ← peerAddrs result
  let o := r.config.obfuscation
  return .default addrs [entry r.wg o.toParams o.toSignatures]

/-- `HandshakePayload`. -/
def Ready.handshakePayload (r : Ready) (result : List UInt8) : Except String Payload :=
  match r.v3 with
  | some (v, i) =>
      if 4 ≤ result.length ∧ i.pool.v4.net.contains (result.take 4) = true then
        r.handshakePayloadV3 v i result
      else r.handshakePayloadDefault result
  | none => r.handshakePayloadDefault result

/-! ## What an interface was given -/

/-- The value of a line under a name. -/
def valueOf (name l : String) : Option String :=
  if (name ++ " = ").toList <+: l.toList then
    some (String.ofList (l.toList.drop (name ++ " = ").length))
  else none

/-- The values under a name in an interface's configuration. -/
def written (lines : List String) (name : String) : List String := lines.filterMap (valueOf name)

/-- Two texts that go on with a blank after a name each have the same name. -/
theorem names_eq {a b x y : List Char} (ha : ' ' ∉ a) (hb : ' ' ∉ b)
    (h : a ++ ' ' :: x <+: b ++ ' ' :: y) : a = b := by
  induction a generalizing b with
  | nil =>
      cases b with
      | nil => rfl
      | cons c b => exact absurd (List.cons_prefix_cons.1 h).1 fun hc => hb (hc ▸ List.mem_cons_self)
  | cons c a ih =>
      cases b with
      | nil => exact absurd (List.cons_prefix_cons.1 h).1 fun hc => ha (hc ▸ List.mem_cons_self)
      | cons d b =>
          obtain ⟨rfl, htail⟩ := List.cons_prefix_cons.1 h
          rw [ih (fun hc => ha (List.mem_cons_of_mem _ hc))
            (fun hc => hb (List.mem_cons_of_mem _ hc)) htail]

/-- A line has a value under its own name only. -/
theorem valueOf_line {n m : String} (hn : ' ' ∉ n.toList) (hm : ' ' ∉ m.toList) (v : String) :
    valueOf n (line m v) = if n = m then some v else none := by
  by_cases h : n = m
  · subst h
    rw [valueOf, if_pos, if_pos rfl]
    · refine congrArg some (String.toList_inj.1 ?_)
      rw [String.toList_ofList, line, String.toList_append, ← String.length_toList, List.drop_left]
    · simp only [line, String.toList_append]
      exact List.prefix_append _ _
  · rw [valueOf, if_neg, if_neg h]
    intro hpre
    simp only [line, String.toList_append, List.append_assoc] at hpre
    exact h (String.toList_inj.1 (names_eq hn hm hpre))

/-- The parameters by their names. -/
def Params.named (p : Params) : List (String × String) :=
  [("S1", toString p.s1), ("S2", toString p.s2), ("S3", toString p.s3), ("S4", toString p.s4),
    ("H1", toString p.h1), ("H2", toString p.h2), ("H3", toString p.h3), ("H4", toString p.h4)]

/-- The signature packets by their names. -/
def Signatures.named (o : Signatures) : List (String × String) :=
  [("I1", o.i1), ("I2", o.i2), ("I3", o.i3), ("I4", o.i4), ("I5", o.i5)]

/-- An interface has the parameters of an entry, each once, and its signature packets but
for the empty ones. -/
def Agrees (lines : List String) (m : PeerMetadata) : Prop :=
  (∀ x ∈ m.toParams.named, written lines x.1 = [x.2]) ∧
    ∀ x ∈ m.toSignatures.named, written lines x.1 = if x.2 = "" then [] else [x.2]

theorem written_append (l l' : List String) (name : String) :
    written (l ++ l') name = written l name ++ written l' name :=
  List.filterMap_append

theorem written_lines {p : Params} {x : String × String} (hx : x ∈ p.named) :
    written p.lines x.1 = [x.2] := by
  simp only [Params.named, List.mem_cons, List.not_mem_nil, or_false] at hx
  rcases hx with rfl | rfl | rfl | rfl | rfl | rfl | rfl | rfl
  all_goals simp [written, Params.lines, valueOf_line]

theorem written_lines_signature {o : Signatures} {x : String × String} (hx : x ∈ o.named)
    (p : Params) : written p.lines x.1 = [] := by
  simp only [Signatures.named, List.mem_cons, List.not_mem_nil, or_false] at hx
  rcases hx with rfl | rfl | rfl | rfl | rfl
  all_goals simp [written, Params.lines, valueOf_line]

/-- Of the packets' lines those under a name are the ones of its packets that are not
empty. -/
theorem written_packets {ps : List (String × String)} {n : String} (hn : ' ' ∉ n.toList)
    (hps : ∀ p ∈ ps, ' ' ∉ p.1.toList) :
    written (ps.filterMap fun (m, v) => if v ≠ "" then some (line m v) else none) n =
      (ps.filter fun p => n = p.1 ∧ p.2 ≠ "").map Prod.snd := by
  induction ps with
  | nil => rfl
  | cons p ps ih =>
      have hrest := ih fun q hq => hps q (List.mem_cons_of_mem _ hq)
      have hline := valueOf_line hn (hps p List.mem_cons_self) p.2
      rw [written] at hrest ⊢
      by_cases hv : p.2 = ""
      · simpa [hv] using hrest
      · by_cases hname : n = p.1
        · simp only [hname, if_true] at hline hrest ⊢
          simpa [hv, hline] using hrest
        · simp only [if_neg hname] at hline
          simpa [hv, hname, hline] using hrest

theorem written_iPacketLines {o : Signatures} {x : String × String} (hx : x ∈ o.named) :
    written o.iPacketLines x.1 = if x.2 = "" then [] else [x.2] := by
  have hnames : ∀ p ∈ o.named, ' ' ∉ p.1.toList := by simp [Signatures.named]
  refine (written_packets (hnames x hx) hnames).trans ?_
  simp only [Signatures.named, List.mem_cons, List.not_mem_nil, or_false] at hx
  rcases hx with rfl | rfl | rfl | rfl | rfl
  all_goals simp [Signatures.named, List.filter_cons, apply_ite (List.map Prod.snd)]

theorem written_iPacketLines_param {p : Params} {x : String × String} (hx : x ∈ p.named)
    (o : Signatures) : written o.iPacketLines x.1 = [] := by
  simp only [Params.named, List.mem_cons, List.not_mem_nil, or_false] at hx
  rcases hx with rfl | rfl | rfl | rfl | rfl | rfl | rfl | rfl
  all_goals simp [written, Signatures.iPacketLines, List.filterMap_filterMap, valueOf_line]

/-- The lines of an interface agree with an entry when what stands around its parameters
has none of their names. -/
theorem agrees_of (pre mid : List String) {m : PeerMetadata}
    (hpre : ∀ x ∈ m.toParams.named ++ m.toSignatures.named, written pre x.1 = [])
    (hmid : ∀ x ∈ m.toParams.named ++ m.toSignatures.named, written mid x.1 = []) :
    Agrees (pre ++ m.toParams.lines ++ mid ++ m.toSignatures.iPacketLines) m := by
  constructor
  · intro x hx
    have hin := List.mem_append_left m.toSignatures.named hx
    rw [written_append, written_append, written_append, hpre x hin, hmid x hin, written_lines hx,
      written_iPacketLines_param hx]
    rfl
  · intro x hx
    have hin := List.mem_append_right m.toParams.named hx
    rw [written_append, written_append, written_append, hpre x hin, hmid x hin,
      written_lines_signature hx, written_iPacketLines hx]
    rfl

/-- The names of the parameters and of the signature packets. -/
def entryNames : List String :=
  ["S1", "S2", "S3", "S4", "H1", "H2", "H3", "H4", "I1", "I2", "I3", "I4", "I5"]

theorem mem_entryNames {m : PeerMetadata} {x : String × String}
    (hx : x ∈ m.toParams.named ++ m.toSignatures.named) : x.1 ∈ entryNames := by
  have hmap : (m.toParams.named ++ m.toSignatures.named).map Prod.fst = entryNames := rfl
  exact hmap ▸ List.mem_map_of_mem hx

/-- A line with another name has no value under any of them. -/
theorem valueOf_other {name : String} (h : name ∈ entryNames) {m : String} (hm : ' ' ∉ m.toList)
    (hother : m ∉ entryNames) (v : String) : valueOf name (line m v) = none := by
  have hblank : ∀ n ∈ entryNames, ' ' ∉ n.toList := by decide
  rw [valueOf_line (hblank name h) hm]
  refine if_neg ?_
  rintro rfl
  exact hother h

theorem written_junkLines {name : String} (h : name ∈ entryNames) (o : Obfuscation) :
    written o.junkLines name = [] := by
  simp only [written, Obfuscation.junkLines, List.filterMap_cons, List.filterMap_nil,
    valueOf_other h (by decide : ' ' ∉ "Jc".toList) (by decide),
    valueOf_other h (by decide : ' ' ∉ "Jmin".toList) (by decide),
    valueOf_other h (by decide : ' ' ∉ "Jmax".toList) (by decide)]

theorem agrees_default (o : Obfuscation) (i : Interface) :
    Agrees o.interfaceLines (entry i o.toParams o.toSignatures) := by
  have h := agrees_of o.junkLines [] (m := entry i o.toParams o.toSignatures)
    (fun x hx => written_junkLines (mem_entryNames hx) o) (fun x hx => rfl)
  rw [List.append_nil] at h
  exact h

theorem agrees_v3 (v : V3) (o : Obfuscation) (i : Interface) :
    Agrees (v.interfaceLines o) (entry i v.toParams o.toSignatures) := by
  refine agrees_of (line "MTU" (toString (1280 : Nat)) :: o.junkLines)
    [line "HeaderProtectionKey" v.headerProtectionKey, line "RandomTrailers" (onOff v.randomTrailers),
      line "ContentPaddingAddition" v.contentPaddingAddition]
    (m := entry i v.toParams o.toSignatures) (fun x hx => ?_) (fun x hx => ?_)
  · have hname := mem_entryNames hx
    have hmtu := valueOf_other hname (by decide : ' ' ∉ "MTU".toList) (by decide) (toString (1280 : Nat))
    exact (List.filterMap_cons_none hmtu).trans (written_junkLines hname o)
  · have hname := mem_entryNames hx
    simp only [written, List.filterMap_cons, List.filterMap_nil,
      valueOf_other hname (by decide : ' ' ∉ "HeaderProtectionKey".toList) (by decide),
      valueOf_other hname (by decide : ' ' ∉ "RandomTrailers".toList) (by decide),
      valueOf_other hname (by decide : ' ' ∉ "ContentPaddingAddition".toList) (by decide)]

end AmneziaWG

/-! ## A pool keeps to its network -/

/-- All addresses a pool has out or keeps for later are of a network, which is its own. -/
structure Pool.Within {n : Nat} (p : Pool n) (net : IPNet) : Prop where
  net_eq : p.net = net
  available : ∀ ip ∈ p.available, net.contains ip.bytes = true
  reserved : ∀ ip ∈ p.reserved, net.contains ip.bytes = true

theorem Pool.Within.getWith {n : Nat} {p : Pool n} {net : IPNet} (h : p.Within net)
    (settle : IP n → IP n) (full : String) :
    (p.getWith settle full).2.Within net ∧
      ∀ ip, (p.getWith settle full).1 = .ok ip → net.contains ip.bytes = true := by
  have hin : ∀ {ip : IP n}, net.contains ip.bytes = true →
      ∀ x ∈ insert ip p.reserved, net.contains x.bytes = true := by
    intro ip hip x hx
    rcases Finset.mem_insert.1 hx with rfl | hx
    · exact hip
    · exact h.reserved x hx
  rcases Pool.getWith_cases settle full p with
    ⟨ip, rest, hav, heq⟩ | ⟨-, hcont, heq⟩ | ⟨-, -, heq⟩
  · have hall := h.available
    rw [hav] at hall
    rw [heq]
    refine ⟨⟨h.net_eq, fun x hx => hall x (List.mem_cons_of_mem _ hx),
      hin (hall ip List.mem_cons_self)⟩, ?_⟩
    rintro ip ⟨⟩
    exact hall ip List.mem_cons_self
  · rw [h.net_eq] at hcont
    rw [heq]
    refine ⟨{ h with reserved := hin hcont }, ?_⟩
    rintro ip ⟨⟩
    exact hcont
  · rw [heq]
    exact ⟨{ h with }, fun ip hip => by cases hip⟩

theorem Pool.Within.release {n : Nat} {p : Pool n} {net : IPNet} (h : p.Within net) (ip : IP n) :
    (p.release ip).Within net := by
  unfold Pool.release
  split
  · rename_i hres
    refine ⟨h.net_eq, fun x hx => ?_, fun x hx => h.reserved x (Finset.mem_of_mem_erase hx)⟩
    rcases List.mem_append.1 hx with hx | hx
    · exact h.available x hx
    · exact (List.mem_singleton.1 hx) ▸ h.reserved ip hres
  · exact h

/-- So is what `Get` of both pools hands out. -/
theorem Pool.Within.get {p : IPPool} {net : IPNet} (h : p.v4.Within net) :
    p.get.2.v4.Within net ∧ ∀ v4 v6, p.get.1 = .ok (v4, v6) → net.contains v4.bytes = true := by
  obtain ⟨hpool, hip⟩ := h.getWith (IP.skip 3) "ipv4 pool is pull"
  unfold IPPool.get
  split
  · rename_i e v4 heq
    rw [show p.v4.getWith (IP.skip 3) "ipv4 pool is pull" = _ from heq] at hpool
    exact ⟨hpool, fun _ _ hok => by cases hok⟩
  · rename_i ip4 v4 heq
    rw [show p.v4.getWith (IP.skip 3) "ipv4 pool is pull" = _ from heq] at hpool hip
    split
    · exact ⟨hpool.release ip4, fun _ _ hok => by cases hok⟩
    · refine ⟨hpool, ?_⟩
      rintro v4 v6 ⟨⟩
      exact hip _ rfl

/-- Kept by whatever a service does to its pool: a draw, the return of both addresses, and that of
an IPv6 address nobody uses. -/
structure IPPool.Kept (I : IPPool → Prop) : Prop where
  get : ∀ p, I p → I p.get.2
  release : ∀ p v4 v6, I p → I (p.release v4 v6)
  release6 : ∀ p v6, I p → I { p with v6 := p.v6.release v6 }

theorem WireGuard.addPeer_kept {I : IPPool → Prop} (hI : IPPool.Kept I) {s : WireGuard}
    (h : I s.pool) (enableIPv6 : Bool) (data : List UInt8) (c : Tool) :
    I (s.addPeer enableIPv6 data c).2.pool := by
  have hpool := hI.get _ h
  unfold WireGuard.addPeer
  split
  · rename_i e pool heq
    rwa [heq] at hpool
  · rename_i v4 given pool heq
    rw [heq] at hpool
    have hpool' : I (if enableIPv6 = true then pool else
        { pool with v6 := pool.v6.release given }) := by
      split
      · exact hpool
      · exact hI.release6 pool given hpool
    dsimp only
    split
    · exact hI.release _ v4 _ hpool'
    · rwa [WireGuard.pool_put]

theorem WireGuard.removePeer_kept {I : IPPool → Prop} (hI : IPPool.Kept I) {s : WireGuard}
    (h : I s.pool) (data : List UInt8) (c : Tool) : I (s.removePeer data c).2.pool := by
  unfold WireGuard.removePeer
  split
  · exact h
  · dsimp only
    split
    · exact h
    · exact hI.release _ _ _ h

theorem IPPool.kept_within4 (net : IPNet) : IPPool.Kept (·.v4.Within net) where
  get _ h := h.get.1
  release _ v4 _ h := h.release v4
  release6 _ _ h := h

/-- An `AddPeer` answers with 20 bytes, which start with an address of the pool's network. -/
theorem WireGuard.addPeer_within {s : WireGuard} {net : IPNet} (h : s.pool.v4.Within net)
    (enableIPv6 : Bool) (data : List UInt8) (c : Tool) :
    (s.addPeer enableIPv6 data c).2.pool.v4.Within net ∧
      ∀ r, (s.addPeer enableIPv6 data c).1 = .ok r →
        r.length = 20 ∧ net.contains (r.take 4) = true := by
  refine ⟨addPeer_kept (IPPool.kept_within4 net) h enableIPv6 data c, fun r hr => ?_⟩
  unfold WireGuard.addPeer at hr
  split at hr
  · cases hr
  · rename_i v4 given pool heq
    have hip := h.get.2 v4 given (by rw [heq])
    dsimp only at hr
    split at hr
    · cases hr
    · cases hr
      refine ⟨by simp [v4.length_eq, IP.length_eq], ?_⟩
      rwa [List.take_left' v4.length_eq]

/-! ## The tiers in use -/

namespace AmneziaWG

/-- What is asked of the service with both tiers on. -/
inductive Act
  | addPeer (data : List UInt8) (c : TierTool)
  | removePeer (data : List UInt8) (c : TierTool)

/-- One call.  A peer is added only with a key that is not registered. -/
def step (enableIPv6 : Bool) (s : AmneziaWG) : Act → Option AmneziaWG
  | .addPeer data c =>
      if Key.of data ∈ s.keys true then none else some (s.addPeer true enableIPv6 data c).2
  | .removePeer data c => some (s.removePeer true data c).2

/-- No key is on both tiers, and each tier's pool keeps to its network. -/
structure Inv (dflt v3 : IPNet) (s : AmneziaWG) : Prop where
  apart : Disjoint s.wg.keys (s.v3Keys true)
  wg : s.wg.pool.v4.Within dflt
  v3 : s.v3.pool.v4.Within v3

theorem Inv.addPeer {dflt v3 : IPNet} {s : AmneziaWG} (hi : Inv dflt v3 s) (enableIPv6 : Bool)
    {data : List UInt8} (c : TierTool) (hnew : Key.of data ∉ s.keys true) :
    Inv dflt v3 (s.addPeer true enableIPv6 data c).2 := by
  have hapart := addPeer_disjoint true data c s enableIPv6 hi.apart hnew
  unfold AmneziaWG.addPeer at hapart ⊢
  split at hapart
  · rename_i h
    rw [if_pos h]
    exact ⟨hapart, hi.wg, (WireGuard.addPeer_within hi.v3 enableIPv6 data c.tool).1⟩
  · rename_i h
    rw [if_neg h]
    exact ⟨hapart, (WireGuard.addPeer_within hi.wg enableIPv6 data c.tool).1, hi.v3⟩

theorem Inv.removePeer {dflt v3 : IPNet} {s : AmneziaWG} (hi : Inv dflt v3 s)
    (data : List UInt8) (c : TierTool) : Inv dflt v3 (s.removePeer true data c).2 := by
  have hapart := removePeer_disjoint true data c s hi.apart
  unfold AmneziaWG.removePeer at hapart ⊢
  split at hapart
  · rename_i h
    rw [if_pos h]
    exact ⟨hapart, hi.wg, WireGuard.removePeer_kept (IPPool.kept_within4 v3) hi.v3 data c.tool⟩
  · rename_i h
    rw [if_neg h]
    exact ⟨hapart, WireGuard.removePeer_kept (IPPool.kept_within4 dflt) hi.wg data c.tool, hi.v3⟩

theorem Inv.step {dflt v3 : IPNet} {enableIPv6 : Bool} {s s' : AmneziaWG} {a : Act}
    (hi : Inv dflt v3 s) (h : step enableIPv6 s a = some s') : Inv dflt v3 s' := by
  cases a with
  | addPeer data c =>
      change (if _ then _ else _) = _ at h
      split at h
      · cases h
      · cases h
        exact hi.addPeer enableIPv6 c ‹_›
  | removePeer data c =>
      cases h
      exact hi.removePeer data c

end AmneziaWG

/-! ## From the configuration to the payload -/

theorem orElse_none {a : Option String} {b : Option String} :
    (a <|> b) = none ↔ a = none ∧ b = none := by
  cases a with
  | none => simp
  | some x => simp

theorem uint16_putUint16 (v : UInt16) (rest : List UInt8) :
    uint16 ((putUint16 v ++ rest).take 2) = v := by
  apply UInt16.toNat_inj.1
  have := v.toNat_lt
  show (UInt16.ofNat ((UInt8.ofNat (v.toNat / 256)).toNat * 256 + (UInt8.ofNat v.toNat).toNat)).toNat = _
  simp only [UInt16.toNat_ofNat', UInt8.toNat_ofNat']
  omega

/-- An interface that tells the port and public key of a configuration. -/
structure Interface.Of (k : AmneziaWG.Crypto) (config : WireGuard.Config) (pool : IPPool)
    (i : Interface) : Prop where
  pool_eq : i.pool = pool
  port : i.listenPort = config.listenPort
  publicKey : ∃ key, keyFromString config.privateKey = .ok key ∧
    i.publicKey = Base64.encodeToString (k.scalarBaseMult key)

/-- `Init` makes one of every configuration that passes its checks. -/
theorem WireGuard.init_ok {k : AmneziaWG.Crypto} {config : WireGuard.Config}
    (h : config.validate = none) (pool : IPPool) (extra : List String) :
    ∃ i, WireGuard.init k config pool extra = .ok i ∧ i.Of k config pool := by
  have hkey := h
  simp only [WireGuard.Config.validate, orElse_none, Option.map_eq_none_iff] at hkey
  obtain ⟨key, hkey⟩ := errorOf_eq_none.1 hkey.2.2.2
  refine ⟨⟨config, extra, pool, putUint16 config.listenPort ++ k.scalarBaseMult key⟩, ?_, rfl,
    uint16_putUint16 _ _, key, hkey, rfl⟩
  simp only [WireGuard.init, h, hkey]
  rfl

namespace AmneziaWG

theorem wireGuardV3_validate {c : Config} {v : V3}
    (h : v.validate c.interface c.listenPort = none) : (c.wireGuardV3 v).validate = none := by
  simp only [V3.validate, orElse_none, refuse_eq_none, Option.map_eq_none_iff, not_or] at h
  obtain ⟨⟨hname, -⟩, ⟨hport, -⟩, hkey, -⟩ := h
  simp only [WireGuard.Config.validate, orElse_none, refuse_eq_none, Option.map_eq_none_iff]
  refine ⟨hname, hport, fun hempty => ?_, hkey⟩
  obtain ⟨key, hkey⟩ := errorOf_eq_none.1 hkey
  rw [show v.privateKey = "" from hempty] at hkey
  exact absurd hkey (by simp [keyFromString, Base64.decodeString, Base64.decode])

/-- A tier's part of a payload: the port, public key and parameters of the interface. -/
structure Describes (k : Crypto) (config : WireGuard.Config) (lines : List String)
    (m : PeerMetadata) : Prop where
  port : m.port = config.listenPort
  publicKey : ∃ key, keyFromString config.privateKey = .ok key ∧
    m.publicKey = Base64.encodeToString (k.scalarBaseMult key)
  agrees : Agrees lines m

/-- A payload renders a tier: it is of the tier's kind and describes the tier's interface. -/
def Renders (k : Crypto) (c : Config) (v : V3) : Tier → Payload → Prop
  | .default, .default _ [m] => Describes k c.wireGuard c.obfuscation.interfaceLines m
  | .v3, .v3 _ [m] => m.awgVersion = version3 ∧
      Describes k (c.wireGuardV3 v) (v.interfaceLines c.obfuscation) m.toPeerMetadata
  | _, _ => False

theorem Describes.entry {k : Crypto} {config : WireGuard.Config} {pool : IPPool} {i : Interface}
    {lines : List String} {p : Params} {o : Signatures} (hi : i.Of k config pool)
    (h : Agrees lines (entry i p o)) : Describes k config lines (entry i p o) :=
  ⟨hi.port, hi.publicKey, h⟩

/-- **`Init` succeeds with a configuration that passes its checks**, and gives each tier its
networks. -/
theorem init_ok {k : Crypto} {c : Config} {v : V3} (hv : c.tier3 = some v)
    (hok : c.validate k = none) :
    ∃ dflt v3 r i, c.tunnelNetworks k = .ok (dflt, some v3) ∧ init k c = .ok r ∧ r.config = c ∧
      r.v3 = some (v, i) ∧ r.wg.Of k c.wireGuard dflt.pool ∧
      i.Of k (c.wireGuardV3 v) v3.pool := by
  have hchecks := hok
  simp only [Config.validate, orElse_none, Option.map_eq_none_iff, hv, Option.bind_some] at hchecks
  obtain ⟨hwg, -, hv3, hnets⟩ := hchecks
  obtain ⟨⟨dflt, more⟩, hnets⟩ := errorOf_eq_none.1 hnets
  obtain ⟨v3, rfl⟩ : ∃ v3, more = some v3 := by
    have h := hnets
    obtain ⟨d, -, h⟩ := bind_ok h
    rw [hv] at h
    obtain ⟨t, -, h⟩ := bind_ok h
    dsimp only at h
    split at h
    · cases h
    · cases h
      exact ⟨_, rfl⟩
  obtain ⟨wg, hwginit, hwgof⟩ := WireGuard.init_ok (k := k) hwg dflt.pool c.obfuscation.interfaceLines
  obtain ⟨i, hinit, hof⟩ := WireGuard.init_ok (k := k) (wireGuardV3_validate hv3) v3.pool
    (v.interfaceLines c.obfuscation)
  refine ⟨dflt, v3, ⟨c, wg, some (v, i)⟩, i, hnets, ?_, rfl, rfl, hwgof, hof⟩
  simp only [init, hok, hnets, hv]
  show (WireGuard.init k c.wireGuard dflt.pool c.obfuscation.interfaceLines >>= _) = _
  rw [hwginit]
  show (WireGuard.init k (c.wireGuardV3 v) v3.pool (v.interfaceLines c.obfuscation) >>= _) = _
  rw [hinit]
  rfl

/-- The addresses of a result that has the right length. -/
theorem peerAddrs_ok {result : List UInt8} (h : result.length = 20) :
    ∃ addrs, peerAddrs result = .ok addrs := by
  simp [peerAddrs, h]

/-- A payload is for the tier whose network the address is of. -/
theorem Ready.handshakePayload_v3 {r : Ready} {v : V3} {i : Interface} {result : List UInt8}
    (hv : r.v3 = some (v, i)) (hlen : result.length = 20)
    (hin : i.pool.v4.net.contains (result.take 4) = true) :
    r.handshakePayload result = r.handshakePayloadV3 v i result := by
  rw [handshakePayload, hv]
  exact if_pos ⟨by omega, hin⟩

theorem Ready.handshakePayload_default {r : Ready} {v : V3} {i : Interface} {result : List UInt8}
    (hv : r.v3 = some (v, i)) (hin : i.pool.v4.net.contains (result.take 4) = false) :
    r.handshakePayload result = r.handshakePayloadDefault result := by
  rw [handshakePayload, hv]
  exact if_neg fun h => Bool.eq_false_iff.1 hin h.2

/-- A peer of the 3.1 tier gets that tier's payload, -/
theorem Inv.renders_v3 {k : Crypto} {c : Config} {v : V3} {dflt v3 : Networks} {r : Ready}
    {i : Interface} {s : AmneziaWG} (hinv : Inv dflt.ipv4 v3.ipv4 s) (hconfig : r.config = c)
    (hr : r.v3 = some (v, i)) (hi : i.Of k (c.wireGuardV3 v) v3.pool) {data result : List UInt8}
    {tool : Tool} (hadd : (s.v3.addPeer c.enableIPv6 data tool).1 = .ok result) :
    ∃ p, r.handshakePayload result = .ok p ∧ Renders k c v .v3 p := by
  obtain ⟨hlen, hin⟩ := (WireGuard.addPeer_within hinv.v3 c.enableIPv6 data tool).2 _ hadd
  obtain ⟨addrs, haddrs⟩ := peerAddrs_ok hlen
  have hnet : i.pool.v4.net = v3.ipv4 := by rw [hi.pool_eq]; rfl
  rw [Ready.handshakePayload_v3 hr hlen (hnet ▸ hin), Ready.handshakePayloadV3, haddrs]
  refine ⟨_, rfl, rfl, Describes.entry hi ?_⟩
  rw [hconfig]
  exact agrees_v3 v c.obfuscation i

/-- and one of the default tier, whose address is not of the other's network, the default
one. -/
theorem Inv.renders_default {k : Crypto} {c : Config} {v : V3} {dflt v3 : Networks} {r : Ready}
    {i : Interface} {s : AmneziaWG} (hinv : Inv dflt.ipv4 v3.ipv4 s)
    (hnets : c.tunnelNetworks k = .ok (dflt, some v3)) (hconfig : r.config = c)
    (hr : r.v3 = some (v, i)) (hwg : r.wg.Of k c.wireGuard dflt.pool)
    (hi : i.Of k (c.wireGuardV3 v) v3.pool) {data result : List UInt8} {tool : Tool}
    (hadd : (s.wg.addPeer c.enableIPv6 data tool).1 = .ok result) :
    ∃ p, r.handshakePayload result = .ok p ∧ Renders k c v .default p := by
  obtain ⟨hlen, hin⟩ := (WireGuard.addPeer_within hinv.wg c.enableIPv6 data tool).2 _ hadd
  obtain ⟨addrs, haddrs⟩ := peerAddrs_ok hlen
  have hnet : i.pool.v4.net = v3.ipv4 := by rw [hi.pool_eq]; rfl
  have hout := tunnelNetworks_apart hnets hin
  rw [Ready.handshakePayload_default hr (hnet ▸ hout), Ready.handshakePayloadDefault, haddrs]
  refine ⟨_, rfl, Describes.entry hwg ?_⟩
  rw [hconfig]
  exact agrees_default c.obfuscation r.wg

theorem Inv.start {k : Crypto} {c : Config} {v : V3} {dflt v3 : Networks} {r : Ready}
    {i : Interface} (hr : r.v3 = some (v, i)) (hwg : r.wg.Of k c.wireGuard dflt.pool)
    (hi : i.Of k (c.wireGuardV3 v) v3.pool) : Inv dflt.ipv4 v3.ipv4 r.start := by
  have hempty : ∀ n : Networks, n.pool.v4.Within n.ipv4 := fun n =>
    ⟨rfl, fun _ h => absurd h List.not_mem_nil, fun _ h => absurd h (Finset.notMem_empty _)⟩
  refine ⟨Finset.disjoint_left.2 fun _ h => absurd h (Finset.notMem_empty _), ?_, ?_⟩
  · rw [Ready.start, WireGuard.fresh, hwg.pool_eq]
    exact hempty dflt
  · rw [Ready.start, WireGuard.fresh, hr]
    show Pool.Within i.pool.v4 v3.ipv4
    rw [hi.pool_eq]
    exact hempty v3

/-- Every registered key is on one tier. -/
theorem Inv.one_tier {dflt v3 : IPNet} {s : AmneziaWG} (hinv : Inv dflt v3 s) {key : Key}
    (hkey : key ∈ s.keys true) : ∃! tier, key ∈ s.tierKeys tier := by
  have hnot := Finset.disjoint_left.1 hinv.apart
  rcases Finset.mem_union.1 hkey with hkey | hkey
  · refine ⟨.default, hkey, fun t ht => ?_⟩
    cases t with
    | default => rfl
    | v3 => exact absurd ht (hnot hkey)
  · refine ⟨.v3, hkey, fun t ht => ?_⟩
    cases t with
    | default => exact absurd hkey (hnot ht)
    | v3 => rfl

/-- **A payload describes the interface its peer is on.**  For every configuration with both
tiers on that passes its checks the service comes up; in every run of it, no key is on two
tiers, the count of the peers is that of the registered keys, and a peer that is added is
told the port, the key and the parameters of the tier it is added to, as they were written
into that tier's interface configuration. -/
theorem payload_renders_tier (k : Crypto) (c : Config) (v : V3) (hv : c.tier3 = some v)
    (hok : c.validate k = none) :
    ∃ r, init k c = .ok r ∧
      ∀ s, Steps.Reach (step c.enableIPv6) (fun _ _ => True) r.start s →
        (∀ key ∈ s.keys true, ∃! tier, key ∈ s.tierKeys tier) ∧
        (amneziawg c.enableIPv6 true).peerCount s = (s.keys true).card ∧
        ∀ data tool result, Key.of data ∉ s.keys true →
          (s.addPeer true c.enableIPv6 data tool).1 = .ok result →
          ∃ tier p, Key.of data ∈ (s.addPeer true c.enableIPv6 data tool).2.tierKeys tier ∧
            r.handshakePayload result = .ok p ∧ Renders k c v tier p := by
  obtain ⟨dflt, v3, r, i, hnets, hinit, hconfig, hr, hwg, hi⟩ := init_ok hv hok
  refine ⟨r, hinit, fun s hreach => ?_⟩
  have hinv := hreach.invariant (Inv.start hr hwg hi) fun hinv _ h => hinv.step h
  refine ⟨fun key => hinv.one_tier, (card_keys true s hinv.apart).symm, ?_⟩
  intro data tool result hnew hadd
  have htier := tierKeys_addPeer (c := tool.tool) (fun _ => rfl) hadd (Tier.of tool.asked)
  rw [if_pos rfl] at htier
  have hmem : Key.of data ∈ (s.addPeer true c.enableIPv6 data tool).2.tierKeys (Tier.of tool.asked) :=
    htier ▸ Finset.mem_insert_self _ _
  unfold addPeer at hadd
  by_cases hasked : tool.asked = version3
  · rw [if_pos ⟨hasked, rfl⟩] at hadd
    rw [Tier.of, if_pos hasked] at hmem
    obtain ⟨p, hp, hrenders⟩ := hinv.renders_v3 hconfig hr hi hadd
    exact ⟨.v3, p, hmem, hp, hrenders⟩
  · rw [if_neg fun h => hasked h.1] at hadd
    rw [Tier.of, if_neg hasked] at hmem
    obtain ⟨p, hp, hrenders⟩ := hinv.renders_default hnets hconfig hr hwg hi hadd
    exact ⟨.default, p, hmem, hp, hrenders⟩

/-- Functions in place of the cryptographic ones, under which all keys derive one IPv4
network. -/
def plainCrypto : Crypto where
  scalarBaseMult key := (key ++ List.replicate 32 0).take 32
  sha256 data := (0 :: 0 :: data.reverse ++ List.replicate 32 0).take 32
  length_scalarBaseMult key := by simp
  length_sha256 data := by simp

/-- The parameters of both tiers. -/
def someParams : Params := ⟨20, 30, 40, 50, 5, 6, 7, 8⟩

/-- A 3.1 tier whose networks are derived, -/
def derivedV3 : V3 :=
  { someParams with
    enabled := true, interface := "awg1", listenPort := 51821
    privateKey := Base64.encodeToString (List.replicate 32 2)
    ipv4Subnet := "", ipv6Subnet := ""
    headerProtectionKey := Base64.encodeToString (List.replicate 32 3)
    randomTrailers := true, contentPaddingAddition := "0-64" }

/-- and a configuration in which they meet the default tier's. -/
def derivedConfig : Config where
  interface := "awg0"
  listenPort := 51820
  privateKey := Base64.encodeToString (List.replicate 32 1)
  uplink := "eth0"
  enableIPv6 := true
  ipv4Subnet := ""
  ipv6Subnet := ""
  obfuscation := { someParams with i1 := "<b 0xc0ff><r 16>", jc := 4, jmin := 40, jmax := 70 }
  v3 := some derivedV3

/-- The service takes the key on the 3.1 tier. -/
def Ready.takes (r : Ready) : Bool :=
  decide (Key.of Tiers.publicKey ∉ r.start.keys true ∧
    (r.start.addPeer true true Tiers.publicKey ⟨Tool.working, version3⟩).1.isOk = true)

/-- Its first peer on the 3.1 tier. -/
theorem payload_renders_tier_derived : ∃ r result p, init plainCrypto derivedConfig = .ok r ∧
    (r.start.addPeer true true Tiers.publicKey ⟨Tool.working, version3⟩).1 = .ok result ∧
    r.handshakePayload result = .ok p ∧
      ∃ tier, Renders plainCrypto derivedConfig derivedV3 tier p := by
  have htakes : (init plainCrypto derivedConfig).toOption.map Ready.takes = some true := by decide +kernel
  obtain ⟨r, hinit, hall⟩ := payload_renders_tier plainCrypto derivedConfig derivedV3 rfl (by decide +kernel)
  obtain ⟨-, -, hpayload⟩ := hall r.start .start
  rw [hinit] at htakes
  obtain ⟨hnew, hadd⟩ := of_decide_eq_true (Option.some.inj htakes)
  cases hres : (r.start.addPeer true true Tiers.publicKey ⟨Tool.working, version3⟩).1 with
  | error e =>
      rw [hres] at hadd
      cases hadd
  | ok result =>
      obtain ⟨tier, p, hmem, hp, hrenders⟩ := hpayload Tiers.publicKey _ result hnew hres
      exact ⟨r, result, p, hinit, hres, hp, tier, hrenders⟩

end AmneziaWG

end Dvpnd
