import Dvpnd.Services.ParseCIDR
import Dvpnd.Services.Tiers

/-!
# The AmneziaWG configuration

`services/amneziawg/types` and `services/wireguard/types/config.go`: the settings of the two
tiers, the checks they go through, the tunnel networks they give each tier and the lines
they put into each tier's interface configuration.

* `AmneziaWG.Config.validate` — the checks, with the error of the first that fails.
* `tunnelNetworks` — the networks of the tiers: what the settings name, or what the key
  derives, moved on when the two meet.
* `interfaceLines` — the lines for `awg-quick`.
* `tunnelNetworks_apart` — **the IPv4 networks of the two tiers share no address**, whatever
  was set and derived.
-/

namespace Dvpnd

/-- `Config.Validate` of a check: the error, when the condition holds. -/
def refuse (p : Prop) [Decidable p] (e : String) : Option String := if p then some e else none

/-- `errors.Wrap`. -/
def wrapError (msg e : String) : String := msg ++ ": " ++ e

/-- The error of a result. -/
def errorOf {α : Type} : Except String α → Option String
  | .ok _ => none
  | .error e => some e

theorem refuse_eq_none {p : Prop} [Decidable p] {e : String} : refuse p e = none ↔ ¬ p := by
  unfold refuse
  split
  · simp [*]
  · simp [*]

theorem errorOf_eq_none {α : Type} {r : Except String α} :
    errorOf r = none ↔ ∃ a, r = .ok a := by
  cases r with
  | ok a => simp [errorOf]
  | error e => simp [errorOf]

/-- A sequence that succeeds does so step by step. -/
theorem bind_ok {α β : Type} {x : Except String α} {f : α → Except String β} {b : β}
    (h : x >>= f = .ok b) : ∃ a, x = .ok a ∧ f a = .ok b := by
  cases x with
  | error e => cases h
  | ok a => exact ⟨a, rfl, h⟩

theorem mapError_ok {α : Type} {x : Except String α} {f : String → String} {a : α}
    (h : x.mapError f = .ok a) : x = .ok a := by
  cases x with
  | error e => cases h
  | ok b => exact h

/-! ## Networks -/

/-- `IsPrivate`. -/
def isPrivate (ip : List UInt8) : Bool :=
  match to4 ip with
  | some b =>
      b.getD 0 0 == 10 || (b.getD 0 0 == 172 && b.getD 1 0 &&& 0xf0 == 16) ||
        (b.getD 0 0 == 192 && b.getD 1 0 == 168)
  | none => ip.length == 16 && ip.getD 0 0 &&& 0xfe == 0xfc

theorem isPrivate_six {ip : List UInt8} (h : to4 ip = none) :
    isPrivate ip = true ↔ ip.length = 16 ∧ ip.getD 0 0 &&& 0xfe = 0xfc := by
  rw [isPrivate, h, Bool.and_eq_true, beq_iff_eq, beq_iff_eq]

/-! ## Parameters -/

namespace AmneziaWG

/-- The junk prefixes and message type values, `[4]uint16` and `[4]uint32`. -/
structure Params where
  s1 : UInt16
  s2 : UInt16
  s3 : UInt16
  s4 : UInt16
  h1 : UInt32
  h2 : UInt32
  h3 : UInt32
  h4 : UInt32

/-- The signature packets. -/
structure Signatures where
  i1 : String := ""
  i2 : String := ""
  i3 : String := ""
  i4 : String := ""
  i5 : String := ""

/-- `Obfuscation`: the parameters of the default tier. -/
structure Obfuscation extends Params, Signatures where
  jc : UInt16
  jmin : UInt16
  jmax : UInt16

/-- `validatePaddings`. -/
def validatePaddings (p : Params) (min : UInt16) : Option String :=
  refuse (p.s1 > 1132 ∨ p.s2 > 1188 ∨ p.s3 > 1132 ∨ p.s4 > 1132)
      "s1, s3 and s4 must be at most 1132, s2 at most 1188" <|>
    refuse (∃ v ∈ [p.s1, p.s2, p.s3, p.s4], v < min) s!"s1-s4 must be at least {min}" <|>
    refuse (p.s1.toUInt32 + 56 = p.s2.toUInt32) "s1 + 56 must not equal s2"

/-- The loop of `validateHeaders`, with the values seen. -/
def headersFrom (seen : List UInt32) : List UInt32 → Option String
  | [] => none
  | v :: rest =>
      refuse (v ≤ 4) "h1-h4 must be above 4" <|>
        refuse (v ∈ seen) "h1-h4 must be distinct" <|> headersFrom (v :: seen) rest

/-- `validateHeaders`. -/
def validateHeaders (p : Params) (allowZero : Bool) : Option String :=
  if allowZero = true ∧ p.h1 = 0 ∧ p.h2 = 0 ∧ p.h3 = 0 ∧ p.h4 = 0 then none
  else headersFrom [] [p.h1, p.h2, p.h3, p.h4]

/-- The inside of one tag of a signature packet: `b 0x` and hexadecimal digits, `t`, or
`r`, `rd` or `rc` and a number. -/
def isTag (body : List Char) : Bool :=
  let hexDigit := fun c : Char => c.isDigit || ('a' ≤ c && c ≤ 'f') || ('A' ≤ c && c ≤ 'F')
  let after := fun (head : String) (p : Char → Bool) =>
    head.toList.isPrefixOf body && body.drop head.length != [] && (body.drop head.length).all p
  after "b 0x" hexDigit || body == ['t'] || after "r " Char.isDigit ||
    after "rd " Char.isDigit || after "rc " Char.isDigit

/-- `iPacket.MatchString`.  No tag has a `>` inside, so the text is cut there; what
follows the last one is empty. -/
def isIPacket (s : String) : Bool :=
  let pieces := s.toList.splitOn '>'
  let tags := pieces.dropLast
  tags != [] && pieces.getLastD [] == [] && tags.all fun t => t.head? == some '<' && isTag t.tail

/-- `IPackets`, in the order of their names; `Validate` goes through them in any. -/
def Signatures.iPackets (o : Signatures) : List (String × String) :=
  [("i1", o.i1), ("i2", o.i2), ("i3", o.i3), ("i4", o.i4), ("i5", o.i5)]

/-- `Obfuscation.Validate`. -/
def Obfuscation.validate (o : Obfuscation) : Option String :=
  refuse (o.jc > 128) "jc must be at most 128" <|>
    refuse (o.jmax > 1280 ∨ o.jmin > o.jmax)
      "jmin must not exceed jmax, and jmax must be at most 1280" <|>
    validatePaddings o.toParams 0 <|>
    validateHeaders o.toParams true <|>
    o.iPackets.findSome? fun (name, v) =>
      refuse (v ≠ "" ∧ isIPacket v = false) (name ++ " is not in AmneziaWG's tag syntax")

/-! ## The 3.1 tier -/

/-- `V3`: the settings of the 3.1 tier. -/
structure V3 extends Params where
  enabled : Bool
  interface : String
  listenPort : UInt16
  privateKey : String
  ipv4Subnet : String
  ipv6Subnet : String
  headerProtectionKey : String
  randomTrailers : Bool
  contentPaddingAddition : String

/-- `strconv.ParseUint(s, 10, 32)`. -/
def parseUint32 (s : List Char) : Option Nat :=
  let v := s.foldl (fun v c => v * 10 + (c.toNat - 48)) 0
  if s ≠ [] ∧ s.all Char.isDigit = true ∧ v < 2 ^ 32 then some v else none

/-- `ParseRange`. -/
def parseRange (s : String) : Except String (Nat × Nat) :=
  let notRange := "\"" ++ s ++ "\" is not a range"
  match s.toList.splitOn '-' with
  | [one] =>
      match parseUint32 one with
      | some v => .ok (v, v)
      | none => .error notRange
  | [first, second] =>
      match parseUint32 first, parseUint32 second with
      | some lo, some hi => .ok (lo, hi)
      | _, _ => .error notRange
  | _ => .error notRange

/-- The range `content_padding_addition` must be. -/
def validatePaddingRange (s : String) : Option String :=
  match parseRange s with
  | .error e => some (wrapError "invalid content_padding_addition" e)
  | .ok (lo, hi) =>
      refuse (hi > 256 ∨ lo > hi) "content_padding_addition must be a range within 0-256"

/-- `V3.Validate`. -/
def V3.validate (v : V3) (defaultInterface : String) (defaultPort : UInt16) : Option String :=
  refuse (v.interface = "" ∨ v.interface = defaultInterface)
      "interface must be set and differ from the default tier's" <|>
    refuse (v.listenPort = 0 ∨ v.listenPort = defaultPort)
      "listen_port must be set and differ from the default tier's" <|>
    (errorOf (keyFromString v.privateKey)).map (wrapError "invalid private_key") <|>
    refuse ((Base64.decodeString v.headerProtectionKey).map List.length ≠ some 32)
      "header_protection_key must be base64 of 32 bytes" <|>
    validatePaddings v.toParams 12 <|>
    validateHeaders v.toParams false <|>
    validatePaddingRange v.contentPaddingAddition

end AmneziaWG

/-! ## The configuration -/

/-- `wgtypes.Config`: what one interface runs on. -/
structure WireGuard.Config where
  interface : String
  listenPort : UInt16
  privateKey : String
  uplink : String
  enableIPv6 : Bool

/-- `Config.Validate` of WireGuard. -/
def WireGuard.Config.validate (c : WireGuard.Config) : Option String :=
  refuse (c.interface = "") "interface cannot be empty" <|>
    refuse (c.listenPort = 0) "listen_port cannot be zero" <|>
    refuse (c.privateKey = "") "private_key cannot be empty" <|>
    (errorOf (keyFromString c.privateKey)).map (wrapError "invalid private_key")

namespace AmneziaWG

/-- `Config`. -/
structure Config where
  interface : String
  listenPort : UInt16
  privateKey : String
  uplink : String
  enableIPv6 : Bool
  ipv4Subnet : String
  ipv6Subnet : String
  obfuscation : Obfuscation
  v3 : Option V3

/-- `Config.WireGuard`. -/
def Config.wireGuard (c : Config) : WireGuard.Config :=
  ⟨c.interface, c.listenPort, c.privateKey, c.uplink, c.enableIPv6⟩

/-- `Config.WireGuardV3`. -/
def Config.wireGuardV3 (c : Config) (v : V3) : WireGuard.Config :=
  ⟨v.interface, v.listenPort, v.privateKey, c.uplink, c.enableIPv6⟩

/-- `V3Enabled`, with the section: the 3.1 tier's settings, when it is on. -/
def Config.tier3 (c : Config) : Option V3 := c.v3.filter (·.enabled)

/-! ## Tunnel networks -/

/-- The two functions of the crypto libraries: `curve25519.ScalarBaseMult` and
`sha256.Sum256`. -/
structure Crypto where
  scalarBaseMult : List UInt8 → List UInt8
  sha256 : List UInt8 → List UInt8
  length_scalarBaseMult : ∀ key, (scalarBaseMult key).length = 32
  length_sha256 : ∀ data, (sha256 data).length = 32

/-- `Networks`. -/
structure Networks where
  ipv4 : IPNet
  ipv6 : IPNet

/-- `derivationLabel`. -/
def derivationLabel : List UInt8 :=
  "dvpnd amneziawg tunnel networks\x00".toList.map fun c => UInt8.ofNat c.toNat

/-- `DeriveNetworks`. -/
def deriveNetworks (k : Crypto) (publicKey : List UInt8) : Networks :=
  let sum := k.sha256 (derivationLabel ++ publicKey)
  { ipv4 := ⟨[10, 11 + sum.getD 0 0 % 240, sum.getD 1 0, 0], cidrMask 24 4⟩
    ipv6 := ⟨0xfd :: (sum.drop 2).take 5 ++ List.replicate 10 0, cidrMask 120 16⟩ }

/-- `parseSubnet`. -/
def parseSubnet (s : String) (v6 : Bool) : Except String IPNet :=
  match parseCIDR s.toList with
  | none => .error ("invalid CIDR address: " ++ s)
  | some (ip, n) =>
      let ones := maskSize n.mask
      if v6 = false ∧ to4 ip = none then .error (s ++ " is not an IPv4 network")
      else if v6 = true ∧ to4 ip ≠ none then .error (s ++ " is not an IPv6 network")
      else if isPrivate ip = false then .error (s ++ " is not a private network")
      else if v6 = false ∧ (ones < 16 ∨ ones > 28) then
        .error (s ++ ": the prefix must be /16 to /28")
      else if v6 = true ∧ (ones < 64 ∨ ones > 124) then
        .error (s ++ ": the prefix must be /64 to /124")
      else .ok n

/-- A subnet setting of a tier: the network it names, or the derived one. -/
def networkOr (setting : String) (v6 : Bool) (name : String) (derived : IPNet) :
    Except String IPNet :=
  if setting ≠ "" then (parseSubnet setting v6).mapError (wrapError ("invalid " ++ name))
  else .ok derived

/-- `tierNetworks`. -/
def tierNetworks (k : Crypto) (ipv4 ipv6 privateKey : String) :
    Except String Networks := do
  let key ← (keyFromString privateKey).mapError (wrapError "invalid private_key")
  let n := deriveNetworks k (k.scalarBaseMult key)
  let v4 ← networkOr ipv4 false "ipv4_subnet" n.ipv4
  let v6 ← networkOr ipv6 true "ipv6_subnet" n.ipv6
  return ⟨v4, v6⟩

/-- `overlap`. -/
def overlap (a b : IPNet) : Bool := a.contains b.ip || b.contains a.ip

/-- `Overlaps`. -/
def Networks.overlaps (n o : Networks) : Bool := overlap n.ipv4 o.ipv4 || overlap n.ipv6 o.ipv6

/-- The next /24. -/
def nextNetwork (n : IPNet) : IPNet :=
  { n with ip := [n.ip.getD 0 0, n.ip.getD 1 0, n.ip.getD 2 0 + 1, 0] }

/-- The 3.1 tier's networks next to the default tier's: a derived IPv4 network that meets the
other moves on. -/
def Networks.moved (v3 dflt : Networks) (v : V3) : Networks :=
  if v.ipv4Subnet = "" ∧ overlap dflt.ipv4 v3.ipv4 = true then
    { v3 with ipv4 := nextNetwork v3.ipv4 }
  else v3

/-- `TunnelNetworks`: the default tier's, and the 3.1 tier's when it is on. -/
def Config.tunnelNetworks (k : Crypto) (c : Config) : Except String (Networks × Option Networks) :=
  do
    let dflt ← tierNetworks k c.ipv4Subnet c.ipv6Subnet c.privateKey
    match c.tier3 with
    | none => return (dflt, none)
    | some v =>
        let v3 ← (tierNetworks k v.ipv4Subnet v.ipv6Subnet v.privateKey).mapError
          (wrapError "section v3")
        let v3 := v3.moved dflt v
        if dflt.overlaps v3 = true then
          .error "the tunnel subnets of the default tier and section v3 overlap"
        else return (dflt, some v3)

/-! ### The networks of the tiers share no address -/

/-- What a subnet setting must be. -/
theorem parseSubnet_ok {s : String} {v6 : Bool} {n : IPNet} (h : parseSubnet s v6 = .ok n) :
    ∃ ip, Reads s.toList ip n ∧ (v6 = true ↔ to4 ip = none) ∧ isPrivate ip = true ∧
      (v6 = false → 16 ≤ maskSize n.mask ∧ maskSize n.mask ≤ 28) ∧
      (v6 = true → 64 ≤ maskSize n.mask ∧ maskSize n.mask ≤ 124) := by
  unfold parseSubnet at h
  split at h
  · cases h
  · rename_i ip net hread
    dsimp only at h
    repeat' split at h
    all_goals cases h
    rename_i hfour hsix hprivate hshort hlong
    refine ⟨ip, parseCIDR_spec hread, ?_, by simpa using hprivate, fun hv => ?_, fun hv => ?_⟩
    · cases v6 with
      | false => simpa using hfour
      | true => simpa using hsix
    · subst hv
      simpa using hshort
    · subst hv
      simpa using hlong

/-- A network with a byte the prefix of IPv4 addresses does not have stands for itself. -/
theorem to4_eq_none {ip : List UInt8} (hlen : ip.length = 16) {i : Nat} (hi : i < 12)
    (hne : ip.getD i 0 ≠ v4InV6Prefix.getD i 0) : to4 ip = none := by
  rw [to4, hlen, if_neg (by decide), if_neg]
  rintro ⟨-, htake⟩
  apply hne
  rw [v4InV6Prefix, ← htake]
  simp [List.getD, hi]

theorem length_both_cidrMask {ip : List UInt8} {len : Nat} (h : ip.length = len) (ones : Nat) :
    (Masks.both ip (cidrMask ones len)).length = len := by
  rw [Masks.length_both, cidrMask, Masks.length_ofOnes, h, Nat.min_self]

/-- The bytes of the network a setting names; the empty one has those of the derived IPv4
network. -/
def lengthOf (setting : String) : Nat := if ':' ∈ setting.toList then 16 else 4

/-- A network of the IPv6 notation is not an IPv4 one: as an IPv6 setting it begins with the
bits of the private networks, and as an IPv4 setting its prefix ends before the four bytes. -/
theorem isNet_parseSubnet {s : String} {v6 : Bool} {n : IPNet} (h : parseSubnet s v6 = .ok n) :
    IsNet (lengthOf s) n := by
  obtain ⟨ip, hreads, hfamily, hprivate, hshort, hlong⟩ := parseSubnet_ok h
  cases hreads with
  | v4 hcolon hlen hones =>
      rw [lengthOf, if_neg hcolon]
      exact isNet_four (length_both_cidrMask hlen _) _
  | @v6 _ ones hcolon hlen hones =>
      rw [lengthOf, if_pos hcolon]
      rw [maskSize_cidrMask hones] at hshort hlong
      have hlen' := length_both_cidrMask hlen ones
      suffices hnone : to4 (Masks.both ip (cidrMask ones 16)) = none from
        ⟨hlen', by rw [hnone]; rfl, ones, rfl⟩
      cases v6 with
      | true =>
          refine to4_eq_none hlen' (i := 0) (by decide) ?_
          rw [cidrMask, Masks.getD_both_full (by have := hlong rfl; omega) (by decide)]
          intro hzero
          have hlocal := ((isPrivate_six (hfamily.1 rfl)).1 hprivate).2
          rw [hzero] at hlocal
          exact absurd hlocal (by decide)
      | false =>
          refine to4_eq_none hlen' (i := 10) (by decide) ?_
          rw [cidrMask, Masks.getD_both_empty (by have := hshort rfl; omega)]
          decide

theorem isNet_derived (k : Crypto) (publicKey : List UInt8) :
    IsNet 4 (deriveNetworks k publicKey).ipv4 ∧ IsNet 16 (deriveNetworks k publicKey).ipv6 := by
  refine ⟨isNet_four rfl 24, ?_⟩
  have hlen : (deriveNetworks k publicKey).ipv6.ip.length = 16 := by
    simp [deriveNetworks, k.length_sha256]
  have hnone : to4 (deriveNetworks k publicKey).ipv6.ip = none :=
    to4_eq_none hlen (i := 0) (by decide) (by simp [deriveNetworks, v4InV6Prefix])
  exact ⟨hlen, by rw [hnone]; rfl, 120, rfl⟩

/-- An IPv6 setting is written as one. -/
theorem lengthOf_ipv6 {s : String} {n : IPNet} (h : parseSubnet s true = .ok n) :
    lengthOf s = 16 := by
  obtain ⟨ip, hreads, hfamily, -⟩ := parseSubnet_ok h
  cases hreads with
  | v4 hcolon hlen hones => exact absurd (hfamily.1 rfl) (by rw [to4_v4InV6 hlen]; simp)
  | v6 hcolon hlen hones => rw [lengthOf, if_pos hcolon]

/-- The forms of a tier's networks, by its IPv4 setting. -/
structure Networks.Formed (ipv4 : String) (n : Networks) : Prop where
  ipv4 : IsNet (lengthOf ipv4) n.ipv4
  ipv6 : IsNet 16 n.ipv6

theorem formed_tierNetworks {k : Crypto} {ipv4 ipv6 privateKey : String} {n : Networks}
    (h : tierNetworks k ipv4 ipv6 privateKey = .ok n) : n.Formed ipv4 := by
  obtain ⟨key, -, h⟩ := bind_ok h
  obtain ⟨v4, hv4, h⟩ := bind_ok h
  obtain ⟨v6, hv6, h⟩ := bind_ok h
  cases h
  have hderived := isNet_derived k (k.scalarBaseMult key)
  constructor
  · unfold networkOr at hv4
    split at hv4
    · exact isNet_parseSubnet (mapError_ok hv4)
    · rename_i hempty
      cases hv4
      rw [not_not.1 hempty]
      exact hderived.1
  · unfold networkOr at hv6
    split at hv6
    · have hparse := mapError_ok hv6
      exact lengthOf_ipv6 hparse ▸ isNet_parseSubnet hparse
    · cases hv6
      exact hderived.2

theorem Networks.Formed.moved {v3 : Networks} {v : V3} (h : v3.Formed v.ipv4Subnet)
    (dflt : Networks) : (v3.moved dflt v).Formed v.ipv4Subnet := by
  unfold Networks.moved
  split
  · rename_i hmeets
    have hfour : lengthOf v.ipv4Subnet = 4 := by rw [hmeets.1]; rfl
    obtain ⟨-, -, ones, hmask⟩ := hfour ▸ h.ipv4
    refine ⟨hfour ▸ ?_, h.ipv6⟩
    exact ⟨rfl, rfl, ones, hmask⟩
  · exact h

theorem lengthOf_cases (s : String) : lengthOf s = 4 ∨ lengthOf s = 16 := by
  unfold lengthOf
  split
  · exact .inr rfl
  · exact .inl rfl

/-- **Two networks overlap when they share an address**: the membership of one network's own
number in the other decides it. -/
theorem overlap_shared {la lb : Nat} {a b : IPNet} (hla : la = 4 ∨ la = 16)
    (hlb : lb = 4 ∨ lb = 16) (ha : IsNet la a) (hb : IsNet lb b) :
    overlap a b = true ↔ ∃ ip, a.contains ip = true ∧ b.contains ip = true := by
  constructor
  · intro hover
    rcases Bool.or_eq_true_iff.1 hover with hin | hin
    · exact ⟨b.ip, hin, contains_self hlb hb⟩
    · exact ⟨a.ip, contains_self hla ha, hin⟩
  · rintro ⟨ip, hina, hinb⟩
    obtain ⟨hlen, hina⟩ := (contains_iff hla ha ip).1 hina
    obtain ⟨rfl, hinb⟩ := (contains_iff hlb hb ip).1 hinb
    subst hlen
    refine Bool.or_eq_true_iff.2 ?_
    rw [contains_number hla ha hb, contains_number hla hb ha]
    obtain ⟨-, -, p, hp⟩ := ha
    obtain ⟨-, -, q, hq⟩ := hb
    rw [hp] at hina ⊢
    rw [hq] at hinb ⊢
    -- the one with fewer ones holds the other's number
    rcases Nat.le_total p q with hpq | hpq
    · exact .inl (Masks.nested hpq hina hinb)
    · exact .inr (Masks.nested hpq hinb hina)

/-- What a success with both tiers gives: networks in their form that do not overlap. -/
theorem tunnelNetworks_ok {k : Crypto} {c : Config} {dflt v3 : Networks}
    (h : c.tunnelNetworks k = .ok (dflt, some v3)) :
    ∃ v, c.tier3 = some v ∧ dflt.Formed c.ipv4Subnet ∧ v3.Formed v.ipv4Subnet ∧
      dflt.overlaps v3 = false := by
  obtain ⟨d, hd, h⟩ := bind_ok h
  split at h
  · cases h
  · rename_i v hv
    obtain ⟨t, ht, h⟩ := bind_ok h
    dsimp only at h
    split at h
    · cases h
    · rename_i hover
      cases h
      exact ⟨v, hv, formed_tierNetworks hd, (formed_tierNetworks (mapError_ok ht)).moved _,
        Bool.eq_false_iff.2 hover⟩

/-- **The tiers' IPv4 networks share no address.** -/
theorem tunnelNetworks_apart {k : Crypto} {c : Config} {dflt v3 : Networks}
    (h : c.tunnelNetworks k = .ok (dflt, some v3)) {ip : List UInt8}
    (hin : dflt.ipv4.contains ip = true) : v3.ipv4.contains ip = false := by
  obtain ⟨v, -, hdflt, hv3, hover⟩ := tunnelNetworks_ok h
  refine Bool.eq_false_iff.2 fun hinv3 => ?_
  have hmeet := (overlap_shared (lengthOf_cases _) (lengthOf_cases _) hdflt.ipv4 hv3.ipv4).2
    ⟨ip, hin, hinv3⟩
  rw [(Bool.or_eq_false_iff.1 hover).1] at hmeet
  cases hmeet

/-- `Config.Validate`. -/
def Config.validate (k : Crypto) (c : Config) : Option String :=
  c.wireGuard.validate <|>
    c.obfuscation.validate.map (wrapError "invalid section obfuscation") <|>
    (c.tier3.bind fun v => v.validate c.interface c.listenPort).map
      (wrapError "invalid section v3") <|>
    errorOf (c.tunnelNetworks k)

/-! ## The interface configuration -/

/-- One line of it. -/
def line (name value : String) : String := name ++ " = " ++ value

/-- `junkLines`. -/
def Obfuscation.junkLines (o : Obfuscation) : List String :=
  [line "Jc" (toString o.jc), line "Jmin" (toString o.jmin), line "Jmax" (toString o.jmax)]

/-- `paramLines`. -/
def Params.lines (p : Params) : List String :=
  [line "S1" (toString p.s1), line "S2" (toString p.s2), line "S3" (toString p.s3),
    line "S4" (toString p.s4), line "H1" (toString p.h1), line "H2" (toString p.h2),
    line "H3" (toString p.h3), line "H4" (toString p.h4)]

/-- `iPacketLines`: the empty ones are not written. -/
def Signatures.iPacketLines (o : Signatures) : List String :=
  [("I1", o.i1), ("I2", o.i2), ("I3", o.i3), ("I4", o.i4), ("I5", o.i5)].filterMap
    fun (name, v) => if v ≠ "" then some (line name v) else none

/-- `Obfuscation.InterfaceLines`. -/
def Obfuscation.interfaceLines (o : Obfuscation) : List String :=
  o.junkLines ++ o.toParams.lines ++ o.toSignatures.iPacketLines

/-- `onOff`. -/
def onOff (b : Bool) : String := if b then "on" else "off"

/-- `V3.InterfaceLines`. -/
def V3.interfaceLines (v : V3) (base : Obfuscation) : List String :=
  line "MTU" (toString (1280 : Nat)) :: base.junkLines ++ v.toParams.lines ++
    [line "HeaderProtectionKey" v.headerProtectionKey, line "RandomTrailers" (onOff v.randomTrailers),
      line "ContentPaddingAddition" v.contentPaddingAddition] ++
    base.toSignatures.iPacketLines

end AmneziaWG

end Dvpnd
