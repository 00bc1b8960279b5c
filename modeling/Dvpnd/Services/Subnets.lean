import Dvpnd.Services.Payload

/-!
# The subnets of the tiers

What the settings `ipv4_subnet` and `ipv6_subnet` may be, and what the networks of the two
tiers have to do with each other (`services/amneziawg/types/subnet.go` and `config.go`).

* `parseSubnet_private` — an IPv6 setting names a unique local network, and an IPv4 setting a
  private one **when it is written without a colon**; `mapped_subnet_passes` is one with
  colons, and `get4_of_colon` what its pool is worth.
* `tunnelNetworks_disjoint` — **no address is in the networks of both tiers**, and derived
  networks fail only where the keys do or their IPv6 networks are one.
-/

namespace Dvpnd

namespace AmneziaWG

/-! ## What a setting names -/

/-- A private IPv4 network with a prefix of 16 to 28 bits. -/
structure PrivateIPv4 (n : IPNet) : Prop where
  length : n.ip.length = 4
  ones : ∃ ones, 16 ≤ ones ∧ ones ≤ 28 ∧ n.mask = cidrMask ones 4
  isPrivate : ∀ ip, n.contains ip = true → isPrivate ip = true

/-- An IPv6 network inside fc00::/7 with a prefix of 64 to 124 bits. -/
structure UniqueLocal (n : IPNet) : Prop where
  length : n.ip.length = 16
  ones : ∃ ones, 64 ≤ ones ∧ ones ≤ 124 ∧ n.mask = cidrMask ones 16
  isLocal : ∀ ip, n.contains ip = true → ip.length = 16 ∧ ip.getD 0 0 &&& 0xfe = 0xfc

/-- Whether an IPv4 address is private is in its first two bytes. -/
theorem isPrivate_four {ip ip' b b' : List UInt8} (h : to4 ip = some b) (h' : to4 ip' = some b')
    (hfirst : b.getD 0 0 = b'.getD 0 0) (hsecond : b.getD 1 0 = b'.getD 1 0) :
    isPrivate ip = isPrivate ip' := by
  unfold isPrivate
  rw [h, h']
  dsimp only
  rw [hfirst, hsecond]

/-- The form an address is compared in is four bytes for the IPv4 ones only. -/
theorem to4_of_length {ip : List UInt8} (h : ((to4 ip).getD ip).length = 4) :
    to4 ip = some ((to4 ip).getD ip) := by
  cases hfour : to4 ip with
  | some b => rfl
  | none =>
      rw [hfour, Option.getD_none] at h
      rw [to4, if_pos h] at hfour
      cases hfour

/-- **An IPv6 setting names a unique local network.** -/
theorem uniqueLocal_parseSubnet {s : String} {n : IPNet} (h : parseSubnet s true = .ok n) :
    UniqueLocal n := by
  have hnet := lengthOf_ipv6 h ▸ isNet_parseSubnet h
  obtain ⟨ip, hreads, hfamily, hprivate, -, hlong⟩ := parseSubnet_ok h
  cases hreads with
  | v4 hcolon hlen hones => exact absurd (hfamily.1 rfl) (by rw [to4_v4InV6 hlen]; simp)
  | @v6 _ ones hcolon hlen hones =>
      rw [maskSize_cidrMask hones] at hlong
      obtain ⟨hlo, hhi⟩ := hlong rfl
      have hfirst : ∀ a : List UInt8,
          (Masks.both a (cidrMask ones 16)).getD 0 0 = a.getD 0 0 := fun a =>
        Masks.getD_both_full (by omega) (by decide) a
      refine ⟨hnet.1, ⟨ones, hlo, hhi, rfl⟩, fun x hx => ?_⟩
      obtain ⟨hxlen, hxmask⟩ := (contains_iff (.inr rfl) hnet x).1 hx
      have hself := self_of_length (.inl (by rw [hxlen]; decide))
      rw [hself] at hxlen hxmask
      refine ⟨hxlen, ?_⟩
      have hsame := congrArg (List.getD · 0 0) hxmask
      dsimp only at hsame
      rw [hfirst, hfirst, hfirst] at hsame
      rw [← hsame]
      exact ((isPrivate_six (hfamily.1 rfl)).1 hprivate).2

/-- An IPv4 setting without a colon names a private IPv4 network. -/
theorem privateIPv4_parseSubnet {s : String} {n : IPNet} (h : parseSubnet s false = .ok n)
    (hcolon : ':' ∉ s.toList) : PrivateIPv4 n := by
  have hnet := isNet_parseSubnet h
  rw [lengthOf, if_neg hcolon] at hnet
  obtain ⟨ip, hreads, -, hprivate, hshort, -⟩ := parseSubnet_ok h
  cases hreads with
  | v6 hcolon' hlen hones => exact absurd hcolon' hcolon
  | @v4 b ones _ hlen hones =>
      rw [maskSize_cidrMask hones] at hshort
      obtain ⟨hlo, hhi⟩ := hshort rfl
      have hbytes : ∀ i < 2, ∀ a : List UInt8,
          (Masks.both a (cidrMask ones 4)).getD i 0 = a.getD i 0 := fun i hi a =>
        Masks.getD_both_full (by omega) (by omega) a
      refine ⟨hnet.1, ⟨ones, hlo, hhi, rfl⟩, fun x hx => ?_⟩
      obtain ⟨hxlen, hxmask⟩ := (contains_iff (.inl rfl) hnet x).1 hx
      have hsame : ∀ i < 2, b.getD i 0 = ((to4 x).getD x).getD i 0 := by
        intro i hi
        have hi' := congrArg (List.getD · i 0) hxmask
        dsimp only at hi'
        rwa [hbytes i hi, hbytes i hi, hbytes i hi] at hi'
      rw [← hprivate]
      exact (isPrivate_four (to4_v4InV6 hlen) (to4_of_length hxlen) (hsame 0 (by decide))
        (hsame 1 (by decide))).symm

/-- **The networks settings name**: a unique local one for IPv6, and for IPv4 a private one
exactly when the setting has no colon. -/
theorem parseSubnet_private (s : String) (n : IPNet) :
    (parseSubnet s false = .ok n → (PrivateIPv4 n ↔ ':' ∉ s.toList)) ∧
      (parseSubnet s true = .ok n → UniqueLocal n) := by
  refine ⟨fun h => ⟨fun hprivate hcolon => ?_, privateIPv4_parseSubnet h⟩, uniqueLocal_parseSubnet⟩
  have hnet := isNet_parseSubnet h
  rw [lengthOf, if_pos hcolon] at hnet
  exact absurd (hprivate.length.symm.trans hnet.1) (by decide)

/-- A setting without a colon, and an IPv6 one. -/
theorem parseSubnet_private_plain :
    (∃ n, parseSubnet "172.20.16.1/20" false = .ok n ∧ PrivateIPv4 n) ∧
      ∃ n, parseSubnet "fd00:8::1/112" true = .ok n ∧ UniqueLocal n := by
  have h4 : errorOf (parseSubnet "172.20.16.1/20" false) = none := by decide
  have h6 : errorOf (parseSubnet "fd00:8::1/112" true) = none := by decide
  obtain ⟨n, hn⟩ := errorOf_eq_none.1 h4
  obtain ⟨m, hm⟩ := errorOf_eq_none.1 h6
  exact ⟨⟨n, hn, ((parseSubnet_private _ n).1 hn).2 (by decide)⟩,
    m, hm, (parseSubnet_private _ m).2 hm⟩

/-- The pool of a network of sixteen bytes has no IPv4 address. -/
theorem get4_of_colon {s : String} {n : IPNet} (h : parseSubnet s false = .ok n)
    (hcolon : ':' ∈ s.toList) (ipv6 : IPNet) :
    ∃ p, (Networks.pool ⟨n, ipv6⟩).get = (.error "ipv4 pool is pull", p) := by
  have hnet := isNet_parseSubnet h
  rw [lengthOf, if_pos hcolon] at hnet
  have hout : ∀ ip : IP 4, n.contains ip.bytes = false := by
    intro ip
    refine Bool.eq_false_iff.2 fun hin => ?_
    have hlen := ((contains_iff (.inr rfl) hnet ip.bytes).1 hin).1
    rw [self_of_length (.inr ip.length_eq), ip.length_eq] at hlen
    cases hlen
  simp [IPPool.get, Networks.pool, Pool.get4, Pool.getWith, hout]

/-- **An IPv4 address in the IPv6 notation passes**: the address is private and 20 is within
16 and 28, but the mask is one of 128 bits, and what it leaves is no IPv4 network. -/
theorem mapped_subnet_passes :
    parseSubnet "::ffff:10.0.0.0/20" false = .ok ⟨List.replicate 16 0, cidrMask 20 16⟩ ∧
      ¬ PrivateIPv4 ⟨List.replicate 16 0, cidrMask 20 16⟩ ∧
      ∀ ipv6, ∃ p, (Networks.pool ⟨⟨List.replicate 16 0, cidrMask 20 16⟩, ipv6⟩).get =
        (.error "ipv4 pool is pull", p) := by
  have hparse : parseSubnet "::ffff:10.0.0.0/20" false =
      .ok ⟨List.replicate 16 0, cidrMask 20 16⟩ := by rfl
  exact ⟨hparse, fun h => absurd h.length (by decide), get4_of_colon hparse (by decide)⟩

/-! ## The networks of two tiers -/

/-- An address is in one of a tier's networks. -/
def Networks.Has (n : Networks) (ip : List UInt8) : Prop :=
  n.ipv4.contains ip = true ∨ n.ipv6.contains ip = true

/-- The networks a valid key derives. -/
def derivedBy (k : Crypto) (key : List UInt8) : Networks := deriveNetworks k (k.scalarBaseMult key)

/-- Two tiers with IPv4 and IPv6 networks that do not overlap have no common address. -/
theorem not_has_both {n o : Networks} (hn4 : IsNet 4 n.ipv4) (hn6 : IsNet 16 n.ipv6)
    (ho4 : IsNet 4 o.ipv4) (ho6 : IsNet 16 o.ipv6) (h : n.overlaps o = false) (ip : List UInt8) :
    ¬ (n.Has ip ∧ o.Has ip) := by
  obtain ⟨h4, h6⟩ := Bool.or_eq_false_iff.1 h
  have hfamilies : ∀ {a b : IPNet}, IsNet 4 a → IsNet 16 b → a.contains ip = true →
      b.contains ip = true → False := by
    intro a b ha hb hina hinb
    have hfour := ((contains_iff (.inl rfl) ha ip).1 hina).1
    have hsixteen := ((contains_iff (.inr rfl) hb ip).1 hinb).1
    exact absurd (hfour.symm.trans hsixteen) (by decide)
  rintro ⟨hn | hn, ho | ho⟩
  · rw [(overlap_shared (.inl rfl) (.inl rfl) hn4 ho4).2 ⟨ip, hn, ho⟩] at h4
    cases h4
  · exact hfamilies hn4 ho6 hn ho
  · exact hfamilies ho4 hn6 ho hn
  · rw [(overlap_shared (.inr rfl) (.inr rfl) hn6 ho6).2 ⟨ip, hn, ho⟩] at h6
    cases h6

/-! ### Derived networks -/

theorem tierNetworks_derived {k : Crypto} {privateKey : String} {key : List UInt8}
    (h : keyFromString privateKey = .ok key) :
    tierNetworks k "" "" privateKey = .ok (derivedBy k key) := by
  rw [tierNetworks, h]
  rfl

theorem tierNetworks_invalid {k : Crypto} {ipv4 ipv6 privateKey e : String}
    (h : keyFromString privateKey = .error e) :
    tierNetworks k ipv4 ipv6 privateKey = .error (wrapError "invalid private_key" e) := by
  rw [tierNetworks, h]
  rfl

/-- Of two /24 networks, one holds the number of the other when the three bytes agree. -/
theorem overlap_24 {a b c a' b' c' : UInt8} :
    overlap ⟨[a, b, c, 0], cidrMask 24 4⟩ ⟨[a', b', c', 0], cidrMask 24 4⟩ = true ↔
      a = a' ∧ b = b' ∧ c = c' := by
  have hmask : cidrMask 24 4 = [255, 255, 255, 0] := by decide
  have hnet : ∀ x y z, IsNet 4 ⟨[x, y, z, 0], cidrMask 24 4⟩ := fun _ _ _ => isNet_four rfl 24
  rw [overlap, Bool.or_eq_true, contains_number (.inl rfl) (hnet a b c) (hnet a' b' c'),
    contains_number (.inl rfl) (hnet a' b' c') (hnet a b c)]
  simp [hmask, Masks.both, Masks.and_full, eq_comm]

/-- A derived IPv4 network that was moved, if it had to be, does not meet the other: the next
/24 has another third byte, also after the last. -/
theorem overlap_moved (k : Crypto) (key key' : List UInt8) {v : V3} (hempty : v.ipv4Subnet = "") :
    overlap (derivedBy k key).ipv4 ((derivedBy k key').moved (derivedBy k key) v).ipv4 = false := by
  unfold Networks.moved
  split
  · rename_i hmeets
    obtain ⟨-, -, hthird⟩ := overlap_24.1 hmeets.2
    refine Bool.eq_false_iff.2 fun hover => ?_
    obtain ⟨-, -, hnext⟩ := overlap_24.1 hover
    rw [hthird] at hnext
    exact absurd (left_eq_add.1 hnext) (by decide)
  · rename_i hapart
    exact Bool.eq_false_iff.2 fun hover => hapart ⟨hempty, hover⟩

theorem moved_ipv6 (n dflt : Networks) (v : V3) : (n.moved dflt v).ipv6 = n.ipv6 := by
  unfold Networks.moved
  split
  · rfl
  · rfl

/-- The last byte of a derived IPv6 number is 0. -/
theorem derivedBy_last (k : Crypto) (key : List UInt8) {i : Nat} (hi : 15 ≤ i) :
    (derivedBy k key).ipv6.ip.getD i 0 = 0 := by
  show ((0xfd :: ((k.sha256 _).drop 2).take 5) ++ List.replicate 10 0).getD i 0 = 0
  rw [List.getD_append_right _ _ _ _ (by simp; omega)]
  exact List.getElem?_getD_replicate_default_eq _ 10 _

/-- Derived IPv6 networks meet when they are the same. -/
theorem overlap_derived6 (k : Crypto) (key key' : List UInt8) :
    overlap (derivedBy k key).ipv6 (derivedBy k key').ipv6 = true ↔
      (derivedBy k key).ipv6 = (derivedBy k key').ipv6 := by
  have h : IsNet 16 (derivedBy k key).ipv6 := (isNet_derived k _).2
  have h' : IsNet 16 (derivedBy k key').ipv6 := (isNet_derived k _).2
  have hsame : Masks.both (derivedBy k key).ipv6.ip (cidrMask 120 16) =
      Masks.both (derivedBy k key').ipv6.ip (cidrMask 120 16) →
      (derivedBy k key).ipv6 = (derivedBy k key').ipv6 := by
    intro hmask
    have hip := Masks.eq_of_both h.1 h'.1 hmask fun i hi => by
      rw [derivedBy_last k key (by omega), derivedBy_last k key' (by omega)]
    exact congrArg (IPNet.mk · (cidrMask 120 16)) hip
  constructor
  · intro hover
    rcases Bool.or_eq_true_iff.1 hover with hin | hin
    · exact hsame ((contains_number (.inr rfl) h h').1 hin)
    · exact hsame ((contains_number (.inr rfl) h' h).1 hin).symm
  · intro heq
    rw [overlap, heq, contains_self (.inr rfl) h']
    rfl

/-- Without settings, `TunnelNetworks` is about what the two keys derive. -/
theorem tunnelNetworks_derived {k : Crypto} {c : Config} {v : V3} (hv3 : c.tier3 = some v)
    (hempty : c.ipv4Subnet = "" ∧ c.ipv6Subnet = "" ∧ v.ipv4Subnet = "" ∧ v.ipv6Subnet = "")
    {key key' : List UInt8} (hkey : keyFromString c.privateKey = .ok key)
    (hkey' : keyFromString v.privateKey = .ok key') :
    (∃ e, c.tunnelNetworks k = .error e) ↔ (derivedBy k key).ipv6 = (derivedBy k key').ipv6 := by
  obtain ⟨h4, h6, h4', h6'⟩ := hempty
  have hover : (derivedBy k key).overlaps ((derivedBy k key').moved (derivedBy k key) v) = true ↔
      (derivedBy k key).ipv6 = (derivedBy k key').ipv6 := by
    rw [Networks.overlaps, overlap_moved k key key' h4', moved_ipv6, Bool.false_or,
      overlap_derived6]
  have hrun : c.tunnelNetworks k =
      if (derivedBy k key).overlaps ((derivedBy k key').moved (derivedBy k key) v) = true then
        .error "the tunnel subnets of the default tier and section v3 overlap"
      else .ok (derivedBy k key, some ((derivedBy k key').moved (derivedBy k key) v)) := by
    rw [Config.tunnelNetworks, h4, h6, tierNetworks_derived hkey, hv3]
    simp only [h4', h6', tierNetworks_derived hkey']
    rfl
  rw [← hover, hrun]
  split
  · simp [*]
  · simp [*]

/-- With the 3.1 tier on, a success has its networks. -/
theorem tunnelNetworks_ne_none {k : Crypto} {c : Config} {v : V3} (hv3 : c.tier3 = some v)
    {dflt : Networks} : c.tunnelNetworks k ≠ .ok (dflt, none) := by
  intro h
  obtain ⟨d, -, h⟩ := bind_ok h
  rw [hv3] at h
  obtain ⟨t, -, h⟩ := bind_ok h
  dsimp only at h
  split at h
  · cases h
  · cases h

/-- **The tiers' networks have no address in common**, whatever was set without colons for IPv4
and derived; two networks overlap exactly when they share an address; and derived networks
fail exactly for an invalid key and for keys that derive one IPv6 network. -/
theorem tunnelNetworks_disjoint (k : Crypto) (c : Config) (v : V3) (hv3 : c.tier3 = some v)
    (hplain : ':' ∉ c.ipv4Subnet.toList ∧ ':' ∉ v.ipv4Subnet.toList) :
    (∀ r, c.tunnelNetworks k = .ok r → ∃ v3, r.2 = some v3 ∧ ∀ ip, ¬ (r.1.Has ip ∧ v3.Has ip)) ∧
    (∀ la lb a b, la = 4 ∨ la = 16 → lb = 4 ∨ lb = 16 → IsNet la a → IsNet lb b →
      (overlap a b = true ↔ ∃ ip, a.contains ip = true ∧ b.contains ip = true)) ∧
    (c.ipv4Subnet = "" ∧ c.ipv6Subnet = "" ∧ v.ipv4Subnet = "" ∧ v.ipv6Subnet = "" →
      ((∃ e, c.tunnelNetworks k = .error e) ↔
        (∃ e, keyFromString c.privateKey = .error e) ∨
        (∃ e, keyFromString v.privateKey = .error e) ∨
        ∃ key key', keyFromString c.privateKey = .ok key ∧ keyFromString v.privateKey = .ok key' ∧
          (derivedBy k key).ipv6 = (derivedBy k key').ipv6)) := by
  refine ⟨fun r hr => ?_, fun la lb a b hla hlb => overlap_shared hla hlb, fun hempty => ?_⟩
  · obtain ⟨dflt, v3?⟩ := r
    cases v3? with
    | none => exact absurd hr (tunnelNetworks_ne_none hv3)
    | some v3 =>
        obtain ⟨v', hv', hdflt, hformed, hover⟩ := tunnelNetworks_ok hr
        cases hv3.symm.trans hv'
        have hlen : ∀ {s : String}, ':' ∉ s.toList → lengthOf s = 4 := fun h => if_neg h
        refine ⟨v3, rfl, not_has_both ?_ hdflt.ipv6 ?_ hformed.ipv6 hover⟩
        · exact hlen hplain.1 ▸ hdflt.ipv4
        · exact hlen hplain.2 ▸ hformed.ipv4
  · cases hkey : keyFromString c.privateKey with
    | error e =>
        refine iff_of_true ⟨wrapError "invalid private_key" e, ?_⟩ (.inl ⟨e, rfl⟩)
        rw [Config.tunnelNetworks, tierNetworks_invalid hkey]
        rfl
    | ok key =>
        cases hkey' : keyFromString v.privateKey with
        | error e =>
            refine iff_of_true
              ⟨wrapError "section v3" (wrapError "invalid private_key" e), ?_⟩ (.inr (.inl ⟨e, rfl⟩))
            rw [Config.tunnelNetworks, hempty.1, hempty.2.1, tierNetworks_derived hkey, hv3]
            simp only [tierNetworks_invalid hkey']
            rfl
        | ok key' =>
            rw [tunnelNetworks_derived hv3 hempty hkey hkey']
            simp

/-- Two tiers whose IPv4 networks meet before one of them moves. -/
theorem tunnelNetworks_disjoint_derived :
    ∃ r, derivedConfig.tunnelNetworks plainCrypto = .ok r ∧
      ∃ v3, r.2 = some v3 ∧ ∀ ip, ¬ (r.1.Has ip ∧ v3.Has ip) := by
  have hok : errorOf (derivedConfig.tunnelNetworks plainCrypto) = none := by decide
  obtain ⟨r, hr⟩ := errorOf_eq_none.1 hok
  exact ⟨r, hr, (tunnelNetworks_disjoint plainCrypto derivedConfig derivedV3 rfl
    ⟨by decide, by decide⟩).1 r hr⟩

end AmneziaWG

end Dvpnd
