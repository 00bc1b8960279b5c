import Dvpnd.Lib.Lists
import Dvpnd.Lib.Steps
import Dvpnd.Services.WireGuard

/-!
# The tier a handshake asks for

An AmneziaWG handshake names a tier in its peer request, and the peer is added later, by a
call that gets the public key only (`services/amneziawg/amneziawg.go`).  What was asked
for waits in `tierRequests`, a table that **all handshakes share and that knows them by
the key alone**.

* `parsePeerRequest`, `AmneziaWG.addTo` — the two calls, with the table between them.
* `Tiers`, `step` — any number of handshakes at once, some for the same key, refused or
  admitted.
* `peer_on_asked_tier` — **a peer gets the tier its own handshake asked for** in every run in
  which handshakes for one key agree; `overwritten_request` — a run in which they do not.
* `requests_bounded` — no more requests are remembered than there are handshakes under way,
  in every run that refuses no handshake whose request is still there;
  `refused_request_stays` — a run that does.
-/

namespace Dvpnd

/-! ## Requests -/

/-- A peer request as the JSON decoder gives it: `public_key`, whether there is a `uuid`,
and `awg_version`, which may not be a number. -/
structure PeerRequest where
  publicKey : Option String
  uuid : Bool := false
  awgVersion : Except String (Option Int) := .ok none

/-- `KeyFromString`. -/
def keyFromString (s : String) : Except String (List UInt8) :=
  match Base64.decodeString s with
  | none => .error "illegal base64 data"
  | some b =>
      let n := b.length
      if n ≠ 32 then .error s!"invalid bytes length {n}" else .ok b

/-- `WireGuard.ParsePeerRequest` of the service with that name. -/
def WireGuard.parsePeerRequest (name : String) (raw : Except String PeerRequest) :
    Except String (List UInt8) :=
  match raw with
  | .error e => .error s!"invalid {name} peer request: {e}"
  | .ok req =>
      match req.publicKey with
      | none =>
          let said := s!"this node runs {name}, whose peer request carries a public_key; "
          if req.uuid then
            .error (said ++ "this request carries uuid, which is what a proxy client sends")
          else .error (said ++ "none was sent")
      | some s =>
          match keyFromString s with
          | .error e => .error s!"invalid public_key: {e}"
          | .ok key => .ok key

/-- The `awg_version` of the default tier. -/
def versionDefault : Int := 2

/-- `offered`. -/
def offered (v3On : Bool) : String := if v3On then "2 and 3" else "2 only"

/-- `ParsePeerRequest`, but for what it writes down: the key, and the tier asked for. -/
def parsePeerRequest (v3On : Bool) (raw : Except String PeerRequest) :
    Except String (List UInt8 × Int) :=
  match WireGuard.parsePeerRequest "amneziawg" raw, raw with
  | .error e, _ => .error e
  | .ok _, .error e => .error e
  | .ok key, .ok req =>
      match req.awgVersion with
      | .error e => .error s!"invalid amneziawg peer request: {e}"
      | .ok version =>
          let tier := version.getD versionDefault
          if tier = versionDefault ∨ tier = version3 ∧ v3On = true then .ok (key, tier)
          else
            let offer := offered v3On
            .error s!"unsupported awg_version {tier}; this node offers {offer}"

/-- `tierRequests`: a map from keys to tiers. -/
structure TierRequests where
  m : List (Key × Int)
  nodup : (m.map Prod.fst).Nodup

namespace TierRequests

/-- `newTierRequests`. -/
def empty : TierRequests := ⟨[], List.nodup_nil⟩

/-- What is remembered for a key. -/
def get (t : TierRequests) (key : Key) : Option Int := (t.m.find? (·.1 = key)).map Prod.snd

/-- The map without a key. -/
def delete (t : TierRequests) (key : Key) : TierRequests :=
  ⟨t.m.filter (·.1 ≠ key), t.nodup.sublist (List.filter_sublist.map _)⟩

/-- `set`. -/
def set (t : TierRequests) (key : Key) (tier : Int) : TierRequests where
  m := (key, tier) :: (t.delete key).m
  nodup := by
    refine List.nodup_cons.2 ⟨fun hin => ?_, (t.delete key).nodup⟩
    obtain ⟨x, hx, hkey⟩ := List.mem_map.1 hin
    exact of_decide_eq_true (List.mem_filter.1 hx).2 hkey

/-- `take`. -/
def take (t : TierRequests) (key : Key) : Int × TierRequests :=
  ((t.get key).getD versionDefault, t.delete key)

end TierRequests

/-- The two tiers. -/
inductive Tier
  | default
  | v3
  deriving DecidableEq

/-- The tier an `awg_version` stands for. -/
def Tier.of (version : Int) : Tier := if version = version3 then .v3 else .default

/-- The peers of a tier. -/
def AmneziaWG.tierKeys (s : AmneziaWG) : Tier → Finset Key
  | .default => s.wg.keys
  | .v3 => s.v3.keys

/-- `AddPeer`, with the table it takes the tier from. -/
def AmneziaWG.addTo (enableIPv6 v3On : Bool) (data : List UInt8) (c : Tool) (s : AmneziaWG)
    (asked : TierRequests) : (Except String (List UInt8) × AmneziaWG) × TierRequests :=
  let (tier, asked) := asked.take (Key.of data)
  (s.addPeer v3On enableIPv6 data ⟨c, tier⟩, asked)

/-! ## Handshakes -/

/-- A handshake whose request was read: it waits for its `AddPeer`, has had it, or is
over. -/
inductive HandshakeStage
  | parsed
  | added
  | finished
  deriving DecidableEq

structure Handshake where
  data : List UInt8
  tier : Int
  stage : HandshakeStage := .parsed
  deriving DecidableEq

/-- The service, its table of requests and the handshakes so far. -/
structure Tiers where
  awg : AmneziaWG
  asked : TierRequests
  handshakes : List Handshake

namespace Tiers

/-- A service that has just started. -/
def start (awg : AmneziaWG) : Tiers := ⟨awg, TierRequests.empty, []⟩

/-- A handshake comes to a stage. -/
def move (s : Tiers) (i : Nat) (h : Handshake) (stage : HandshakeStage) : List Handshake :=
  s.handshakes.set i { h with stage }

variable (enableIPv6 v3On : Bool)

/-- A handshake's request is read; one that is no good ends there. -/
def parse (s : Tiers) (raw : Except String PeerRequest) : Tiers :=
  match parsePeerRequest v3On raw with
  | .error _ => s
  | .ok (data, tier) =>
      { s with
        asked := s.asked.set (Key.of data) tier
        handshakes := s.handshakes ++ [{ data, tier }] }

/-- A handshake is admitted as far as `AddPeer`. -/
def addPeer (s : Tiers) (i : Nat) (c : Tool) : Option Tiers :=
  match s.handshakes[i]? with
  | none => none
  | some h =>
      if h.stage = .parsed then
        let out := s.awg.addTo enableIPv6 v3On h.data c s.asked
        some { awg := out.1.2, asked := out.2, handshakes := s.move i h .added }
      else none

/-- It is refused before that, or it ends after. -/
def finish (s : Tiers) (i : Nat) : Option Tiers :=
  match s.handshakes[i]? with
  | none => none
  | some h => if h.stage = .finished then none
      else some { s with handshakes := s.move i h .finished }

/-- A peer is removed. -/
def removePeer (s : Tiers) (data : List UInt8) (c : Tool) : Tiers :=
  { s with awg := (s.awg.removePeer v3On data ⟨c, versionDefault⟩).2 }

/-- Who takes the next turn. -/
inductive Act
  | parse (raw : Except String PeerRequest)
  | addPeer (i : Nat) (c : Tool)
  | finish (i : Nat)
  | removePeer (data : List UInt8) (c : Tool)

/-- One turn. -/
def step (s : Tiers) : Act → Option Tiers
  | .parse raw => some (s.parse v3On raw)
  | .addPeer i c => s.addPeer enableIPv6 v3On i c
  | .finish i => s.finish i
  | .removePeer data c => some (s.removePeer v3On data c)

/-! ## What is to hold, and when it does -/

/-- A handshake that waits for its `AddPeer` gets, if that succeeds, its peer on the tier it
asked for and on no other. -/
def OnAskedTier (s : Tiers) : Prop :=
  ∀ h ∈ s.handshakes, h.stage = .parsed → ∀ c r,
    (s.awg.addTo enableIPv6 v3On h.data c s.asked).1.1 = .ok r → ∀ tier,
      (s.awg.addTo enableIPv6 v3On h.data c s.asked).1.2.tierKeys tier =
        if tier = Tier.of h.tier then insert (Key.of h.data) (s.awg.tierKeys tier)
        else s.awg.tierKeys tier

/-- No more requests are remembered than handshakes are under way, and none for a key that
has no handshake. -/
def Bounded (s : Tiers) : Prop :=
  s.asked.m.length ≤ (s.handshakes.filter (·.stage ≠ .finished)).length ∧
    ∀ key, (∀ h ∈ s.handshakes, h.stage ≠ .finished → Key.of h.data ≠ key) →
      s.asked.get key = none

/-- The handshakes for a key that wait while another one is at position `i`. -/
def Others (s : Tiers) (i : Nat) (data : List UInt8) : List Handshake :=
  (s.handshakes.zipIdx.filter fun x =>
    x.2 ≠ i ∧ x.1.stage = .parsed ∧ x.1.data = data).map Prod.fst

/-- Handshakes for one key that wait at the same time ask for the same tier, and for the
default one if one of them goes ahead. -/
def Agree (s : Tiers) : Act → Prop
  | .parse raw => ∀ req ∈ (parsePeerRequest v3On raw).toOption,
      ∀ h ∈ s.handshakes, h.stage = .parsed → h.data = req.1 → h.tier = req.2
  | .addPeer i _ => ∀ h ∈ s.handshakes[i]?, ∀ h' ∈ s.Others i h.data, h'.tier = versionDefault
  | _ => True

instance (s : Tiers) : (a : Act) → Decidable (s.Agree v3On a)
  | .parse raw => inferInstanceAs (Decidable (∀ req ∈ (parsePeerRequest v3On raw).toOption,
      ∀ h ∈ s.handshakes, h.stage = .parsed → h.data = req.1 → h.tier = req.2))
  | .addPeer i _ => inferInstanceAs (Decidable
      (∀ h ∈ s.handshakes[i]?, ∀ h' ∈ s.Others i h.data, h'.tier = versionDefault))
  | .finish _ | .removePeer _ _ => inferInstanceAs (Decidable True)

/-- A handshake that is refused leaves no request behind that no other one waits for. -/
def LeavesNothing (s : Tiers) : Act → Prop
  | .finish i => ∀ h ∈ s.handshakes[i]?, h.stage = .parsed →
      s.asked.get (Key.of h.data) = none ∨ s.Others i h.data ≠ []
  | _ => True

instance (s : Tiers) : (a : Act) → Decidable (s.LeavesNothing a)
  | .finish i => inferInstanceAs (Decidable (∀ h ∈ s.handshakes[i]?, h.stage = .parsed →
      s.asked.get (Key.of h.data) = none ∨ s.Others i h.data ≠ []))
  | .parse _ | .addPeer _ _ | .removePeer _ _ => inferInstanceAs (Decidable True)

end Tiers

/-! ## The table -/

namespace TierRequests

variable {t : TierRequests} {key key' : Key} {tier : Int}

theorem get_delete_self : (t.delete key).get key = none := by
  rw [get, delete, List.find?_filter, Option.map_eq_none_iff, List.find?_eq_none]
  simp

theorem get_delete_of_ne (h : key' ≠ key) : (t.delete key).get key' = t.get key' := by
  rw [get, delete, List.find?_filter, get]
  refine congrArg _ (List.find?_congr fun x _ => ?_)
  by_cases hx : x.1 = key'
  · simp [hx, h]
  · simp [hx]

theorem get_set_self : (t.set key tier).get key = some tier := by
  simp [get, set]

theorem get_set_of_ne (h : key' ≠ key) : (t.set key tier).get key' = t.get key' := by
  have hne : ¬ key = key' := fun heq => h heq.symm
  have hdelete := get_delete_of_ne (t := t) h
  rw [get, set, List.find?_cons_of_neg (by simpa using hne)]
  exact hdelete

theorem get_ne_none {x : Key × Int} (h : x ∈ t.m) : t.get x.1 ≠ none := by
  rw [get, Ne, Option.map_eq_none_iff, List.find?_eq_none]
  exact fun hnone => hnone x h (decide_eq_true rfl)

theorem mem_of_get (h : t.get key = some tier) : (key, tier) ∈ t.m := by
  obtain ⟨x, hx, rfl⟩ := Option.map_eq_some_iff.1 h
  have hkey : x.1 = key := by simpa using List.find?_some hx
  rw [← hkey]
  exact List.mem_of_find?_eq_some hx

end TierRequests

/-- **A successful `AddPeer` puts the peer on the tier it was told.** -/
theorem AmneziaWG.tierKeys_addPeer {enableIPv6 v3On : Bool} {data : List UInt8} {c : Tool}
    {s : AmneziaWG} {tier : Int} {r : List UInt8} (htier : tier = version3 → v3On = true)
    (h : (s.addPeer v3On enableIPv6 data ⟨c, tier⟩).1 = .ok r) (t : Tier) :
    (s.addPeer v3On enableIPv6 data ⟨c, tier⟩).2.tierKeys t =
      if t = Tier.of tier then insert (Key.of data) (s.tierKeys t) else s.tierKeys t := by
  have hone : ∀ {w : WireGuard}, (w.addPeer enableIPv6 data c).1 = .ok r →
      (w.addPeer enableIPv6 data c).2.keys = insert (Key.of data) w.keys := fun {w} hw => by
    rcases WireGuard.addPeer_spec enableIPv6 data c w with ⟨_, -, hkeys⟩ | ⟨e, he, -⟩
    · exact hkeys
    · exact absurd (hw.symm.trans he) (by simp)
  unfold Tier.of
  unfold AmneziaWG.addPeer at h ⊢
  by_cases hv : tier = version3
  · rw [if_pos ⟨hv, htier hv⟩] at h ⊢
    rw [if_pos hv]
    cases t with
    | default => rfl
    | v3 => exact hone h
  · rw [if_neg fun hboth => hv hboth.1] at h ⊢
    rw [if_neg hv]
    cases t with
    | default => exact hone h
    | v3 => rfl

theorem parsePeerRequest_tier {v3On : Bool} {raw : Except String PeerRequest} {data : List UInt8}
    {tier : Int} (h : parsePeerRequest v3On raw = .ok (data, tier)) :
    tier = version3 → v3On = true := by
  intro htier
  unfold parsePeerRequest at h
  split at h
  · cases h
  · cases h
  · split at h
    · cases h
    · dsimp only at h
      split at h
      · rename_i hoffered
        cases h
        rcases hoffered with hd | hv
        · rw [hd] at htier
          cases htier
        · exact hv.2
      · cases h

namespace Tiers

variable {enableIPv6 v3On : Bool} {s s' : Tiers} {a : Act} {i : Nat}

theorem mem_others {data : List UInt8} {h : Handshake} :
    h ∈ s.Others i data ↔
      ∃ j, s.handshakes[j]? = some h ∧ j ≠ i ∧ h.stage = .parsed ∧ h.data = data := by
  simp only [Others, List.mem_map, List.mem_filter, decide_eq_true_eq, Prod.exists,
    List.mk_mem_zipIdx_iff_getElem?]
  constructor
  · rintro ⟨h', j, ⟨hj, hrest⟩, rfl⟩
    exact ⟨j, hj, hrest⟩
  · rintro ⟨j, hj, hrest⟩
    exact ⟨h, j, ⟨hj, hrest⟩, rfl⟩

/-- A handshake that waits after one has moved on was waiting before, at another place. -/
theorem parsed_of_move {h h' : Handshake} {stage : HandshakeStage} (hmem : h' ∈ s.move i h stage)
    (hparsed : h'.stage = .parsed) (hstage : stage ≠ .parsed) :
    ∃ j, s.handshakes[j]? = some h' ∧ j ≠ i := by
  obtain ⟨j, hj⟩ := List.getElem?_of_mem hmem
  rcases Lists.getElem?_set_cases hj with ⟨-, rfl⟩ | ⟨hne, hold⟩
  · exact absurd hparsed hstage
  · exact ⟨j, hold, hne⟩

theorem mem_move {h h' : Handshake} {stage : HandshakeStage} {j : Nat} (hj : s.handshakes[j]? = some h')
    (hne : j ≠ i) : h' ∈ s.move i h stage := by
  refine List.mem_of_getElem? (i := j) ?_
  rw [move, List.getElem?_set_ne hne.symm]
  exact hj

/-! ## The tier that was asked for -/

/-- What is remembered for a key is what each handshake that waits for it has asked. -/
def Remembered (v3On : Bool) (s : Tiers) : Prop :=
  ∀ h ∈ s.handshakes, h.stage = .parsed →
    (s.asked.get (Key.of h.data)).getD versionDefault = h.tier ∧ (h.tier = version3 → v3On = true)

theorem Remembered.parse (hr : s.Remembered v3On) {raw : Except String PeerRequest}
    (hok : s.Agree v3On (.parse raw)) : (s.parse v3On raw).Remembered v3On := by
  unfold Tiers.parse
  split
  · exact hr
  · rename_i data tier hparse
    have hagree := hok (data, tier) (by rw [hparse]; rfl)
    intro h hmem hparsed
    rcases List.mem_append.1 hmem with hold | hnew
    · obtain ⟨hget, hv3⟩ := hr h hold hparsed
      refine ⟨?_, hv3⟩
      by_cases hdata : h.data = data
      · rw [hdata, TierRequests.get_set_self, hagree h hold hparsed hdata]
        rfl
      · rw [TierRequests.get_set_of_ne fun heq => hdata (Key.of_injective heq)]
        exact hget
    · cases List.mem_singleton.1 hnew
      exact ⟨by rw [TierRequests.get_set_self]; rfl, parsePeerRequest_tier hparse⟩

theorem Remembered.addPeer (hr : s.Remembered v3On) {c : Tool} (hok : s.Agree v3On (.addPeer i c))
    (h : s.addPeer enableIPv6 v3On i c = some s') : s'.Remembered v3On := by
  unfold Tiers.addPeer at h
  split at h
  · cases h
  · rename_i h₀ hi
    split at h
    · cases h
      intro h' hmem hparsed
      obtain ⟨j, hj, hne⟩ := parsed_of_move hmem hparsed nofun
      obtain ⟨hget, hv3⟩ := hr h' (List.mem_of_getElem? hj) hparsed
      refine ⟨?_, hv3⟩
      show ((s.asked.delete (Key.of h₀.data)).get (Key.of h'.data)).getD versionDefault = h'.tier
      by_cases hdata : h'.data = h₀.data
      · -- the request is gone, and this one asks for the default as well
        rw [hdata, TierRequests.get_delete_self]
        exact (hok h₀ hi h' (mem_others.2 ⟨j, hj, hne, hparsed, hdata⟩)).symm
      · rw [TierRequests.get_delete_of_ne fun heq => hdata (Key.of_injective heq)]
        exact hget
    · cases h

theorem Remembered.finish (hr : s.Remembered v3On) (h : s.finish i = some s') :
    s'.Remembered v3On := by
  unfold Tiers.finish at h
  split at h
  · cases h
  · split at h
    · cases h
    · cases h
      intro h' hmem hparsed
      obtain ⟨j, hj, -⟩ := parsed_of_move hmem hparsed nofun
      exact hr h' (List.mem_of_getElem? hj) hparsed

theorem Remembered.step (hr : s.Remembered v3On) (hok : s.Agree v3On a)
    (h : s.step enableIPv6 v3On a = some s') : s'.Remembered v3On := by
  cases a with
  | parse raw =>
      cases h
      exact hr.parse hok
  | addPeer i c => exact hr.addPeer hok h
  | finish i => exact hr.finish h
  | removePeer data c =>
      cases h
      exact hr

/-- **A peer is added to the tier its own handshake asked for**, in every run in which
handshakes for one key agree. -/
theorem peer_on_asked_tier {awg : AmneziaWG}
    (h : Steps.Reach (step enableIPv6 v3On) (Agree v3On) (start awg) s) :
    s.OnAskedTier enableIPv6 v3On := by
  have hr : s.Remembered v3On := h.invariant (I := Remembered v3On) (fun _ hmem => by cases hmem)
    Remembered.step
  intro h hmem hparsed c r hadd tier
  obtain ⟨hget, hv3⟩ := hr h hmem hparsed
  unfold AmneziaWG.addTo TierRequests.take at hadd ⊢
  dsimp only at hadd ⊢
  rw [hget] at hadd ⊢
  exact AmneziaWG.tierKeys_addPeer hv3 hadd tier

/-- Both tiers, before the first peer. -/
def twoTiers : AmneziaWG := ⟨WireGuard.fresh nodePool, WireGuard.fresh nodePool⟩

/-- A public key. -/
def publicKey : List UInt8 := List.replicate 32 7

/-- A request for it, with an `awg_version` or without. -/
def request (version : Option Int) : Except String PeerRequest :=
  .ok { publicKey := some (Base64.encodeToString publicKey), awgVersion := .ok version }

/-- A handshake with that version waits, and its `AddPeer` would put the peer on a tier that
has none. -/
def wouldAdd (version : Int) (i : Nat) (tier : Tier) (s : Tiers) : Bool :=
  let out := s.awg.addTo true true publicKey Tool.working s.asked
  decide (s.handshakes[i]? = some ⟨publicKey, version, .parsed⟩ ∧ out.1.1.isOk = true ∧
    s.awg.tierKeys tier = ∅ ∧ out.1.2.tierKeys tier = {Key.of publicKey})

/-- A handshake is refused, and another one for the same key asks for the 3.1 tier. -/
theorem peer_on_asked_tier_refusedRun : ∃ s : Tiers, s.wouldAdd version3 1 .v3 = true ∧
    s.OnAskedTier true true := by
  obtain ⟨s, hreach, hp⟩ := Steps.exists_reach (step true true) (Agree true) (start twoTiers)
    [.parse (request none), .finish 0, .parse (request (some 3))] (wouldAdd version3 1 .v3) (by decide)
  exact ⟨s, hp, peer_on_asked_tier hreach⟩

/-- **A request is overwritten**: while a handshake that asked for the 3.1 tier waits, another
one for its key asks for the default tier, and the first one gets that. -/
theorem overwritten_request :
    ∃ s, Steps.Reach (step true true) (fun _ _ => True) (start twoTiers) s ∧
      ¬ s.OnAskedTier true true := by
  obtain ⟨s, hreach, hp⟩ := Steps.exists_reach (step true true) (fun _ _ => True) (start twoTiers)
    [.parse (request (some 3)), .parse (request none)] (wouldAdd version3 0 .default) (by decide)
  obtain ⟨hwaits, hok, hnone, hkeys⟩ := of_decide_eq_true hp
  refine ⟨s, hreach, fun hon => ?_⟩
  cases hout : (s.awg.addTo true true publicKey Tool.working s.asked).1.1 with
  | error e =>
      rw [hout] at hok
      cases hok
  | ok r =>
      have hdefault := hon _ (List.mem_of_getElem? hwaits) rfl Tool.working r hout .default
      rw [hkeys, hnone, if_neg (by decide)] at hdefault
      exact absurd hdefault (Finset.singleton_ne_empty _)

/-! ## What is remembered -/

/-- Each request that is remembered has a handshake waiting for it. -/
def Awaited (s : Tiers) : Prop :=
  ∀ x ∈ s.asked.m, ∃ h ∈ s.handshakes, h.stage = .parsed ∧ Key.of h.data = x.1

theorem Awaited.parse (ha : s.Awaited) (raw : Except String PeerRequest) :
    (s.parse v3On raw).Awaited := by
  unfold Tiers.parse
  split
  · exact ha
  · rename_i data tier _
    intro x hx
    rcases List.mem_cons.1 hx with rfl | hx
    · exact ⟨{ data, tier }, List.mem_append_right _ (List.mem_singleton_self _), rfl, rfl⟩
    · obtain ⟨h, hmem, hrest⟩ := ha x (List.mem_of_mem_filter hx)
      exact ⟨h, List.mem_append_left _ hmem, hrest⟩

theorem Awaited.addPeer (ha : s.Awaited) {c : Tool}
    (h : s.addPeer enableIPv6 v3On i c = some s') : s'.Awaited := by
  unfold Tiers.addPeer at h
  split at h
  · cases h
  · rename_i h₀ hi
    split at h
    · cases h
      intro x hx
      obtain ⟨hx, hkey⟩ := List.mem_filter.1 hx
      obtain ⟨h', hmem, hparsed, hdata⟩ := ha x hx
      obtain ⟨j, hj⟩ := List.getElem?_of_mem hmem
      -- what is left is for other keys, so for other handshakes
      have hne : j ≠ i := by
        rintro rfl
        cases hi.symm.trans hj
        exact of_decide_eq_true hkey hdata.symm
      exact ⟨h', mem_move hj hne, hparsed, hdata⟩
    · cases h

theorem Awaited.finish (ha : s.Awaited) (hok : s.LeavesNothing (.finish i))
    (h : s.finish i = some s') : s'.Awaited := by
  unfold Tiers.finish at h
  split at h
  · cases h
  · rename_i h₀ hi
    split at h
    · cases h
    · cases h
      intro x hx
      obtain ⟨h', hmem, hparsed, hdata⟩ := ha x hx
      obtain ⟨j, hj⟩ := List.getElem?_of_mem hmem
      by_cases hji : j = i
      · subst hji
        cases hi.symm.trans hj
        rcases hok h₀ hi hparsed with hnone | hothers
        · rw [hdata] at hnone
          exact absurd hnone (TierRequests.get_ne_none hx)
        · -- another handshake waits for the same request
          obtain ⟨h'', hin⟩ := List.exists_mem_of_ne_nil _ hothers
          obtain ⟨k, hk, hne, hparsed', hsame⟩ := mem_others.1 hin
          exact ⟨h'', mem_move hk hne, hparsed', by rw [hsame, hdata]⟩
      · exact ⟨h', mem_move hj hji, hparsed, hdata⟩

theorem Awaited.step (ha : s.Awaited) (hok : s.LeavesNothing a)
    (h : s.step enableIPv6 v3On a = some s') : s'.Awaited := by
  cases a with
  | parse raw =>
      cases h
      exact ha.parse raw
  | addPeer i c => exact ha.addPeer h
  | finish i => exact ha.finish hok h
  | removePeer data c =>
      cases h
      exact ha

theorem Awaited.bounded (ha : s.Awaited) : s.Bounded := by
  have hunder : ∀ {h : Handshake}, h.stage = .parsed → h.stage ≠ .finished := fun hp heq => by
    rw [hp] at heq
    cases heq
  refine ⟨?_, fun key hkey => ?_⟩
  · have hsub : s.asked.m.map Prod.fst ⊆
        (s.handshakes.filter (·.stage ≠ .finished)).map fun h => Key.of h.data := fun key hin => by
      obtain ⟨x, hx, rfl⟩ := List.mem_map.1 hin
      obtain ⟨h, hmem, hparsed, hdata⟩ := ha x hx
      exact List.mem_map.2 ⟨h, List.mem_filter.2 ⟨hmem, decide_eq_true (hunder hparsed)⟩, hdata⟩
    have hlen := (List.subperm_of_subset s.asked.nodup hsub).length_le
    rwa [List.length_map, List.length_map] at hlen
  · cases hget : s.asked.get key with
    | none => rfl
    | some tier =>
        obtain ⟨h, hmem, hparsed, hdata⟩ := ha _ (TierRequests.mem_of_get hget)
        exact absurd hdata (hkey h hmem (hunder hparsed))

/-- **The table stays small**: in every run whose refusals leave nothing behind, no more
requests are remembered than handshakes are under way. -/
theorem requests_bounded {awg : AmneziaWG}
    (h : Steps.Reach (step enableIPv6 v3On) LeavesNothing (start awg) s) : s.Bounded :=
  (h.invariant (I := Awaited) (fun _ hx => by cases hx) Awaited.step).bounded

/-- Of two handshakes for one key the first is refused; the second still waits. -/
theorem requests_bounded_twoWaiting : ∃ s : Tiers, s.asked.m.length = 1 ∧ s.Bounded := by
  obtain ⟨s, hreach, hp⟩ := Steps.exists_reach (step true true) LeavesNothing (start twoTiers)
    [.parse (request (some 3)), .parse (request (some 3)), .finish 0]
    (fun s => decide (s.asked.m.length = 1)) (by decide)
  exact ⟨s, of_decide_eq_true hp, requests_bounded hreach⟩

/-- **A refused handshake leaves its request behind**: there is no handshake any more, and one
request is remembered. -/
theorem refused_request_stays :
    ∃ s, Steps.Reach (step true true) (fun _ _ => True) (start twoTiers) s ∧ ¬ s.Bounded := by
  obtain ⟨s, hreach, hp⟩ := Steps.exists_reach (step true true) (fun _ _ => True) (start twoTiers)
    [.parse (request none), .finish 0] (fun s => decide (s.asked.m.length = 1 ∧
      (s.handshakes.filter (·.stage ≠ .finished)).length = 0)) (by decide)
  obtain ⟨hone, hzero⟩ := of_decide_eq_true hp
  refine ⟨s, hreach, fun hb => ?_⟩
  have hle := hb.1
  rw [hone, hzero] at hle
  exact absurd hle (by decide)

end Tiers

end Dvpnd
