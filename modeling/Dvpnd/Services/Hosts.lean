import Dvpnd.Services.Pools

/-!
# The addresses peers do not get

A tier's interface takes the first host of its network and peers the ones after it
(`Networks.Pool`, `TunnelAddress`), and `IPv4Pool.Get` passes over addresses that end in 0 or
255.  What it must not hand out is the network's own address, the interface's, and the
broadcast address, and **only the first two are out of reach by where the pool starts**: the
broadcast address is passed over where it ends in 255, which in a network longer than a /24
it need not.

* `broadcast`, `interfaceIPv4` — the addresses; `tunnelAddress` — the text with the latter.
* `TierIPv4`, `tier_networks` — the networks a tier can be given.
* `IPPool.step` — a call of the pool; `IPPool.Hosting`, `Hosting.step` — what its IPv4 half
  keeps to.
* `exists_get_broadcast` — **a broadcast address that ends in anything but 255 is handed
  out**, when the IPv6 network is not the smaller one.
* `hosts_free` — both together, for every configuration.
-/

namespace Dvpnd

namespace AmneziaWG

/-! ## The addresses -/

/-- The last address of a network: its host part all ones. -/
def broadcast (n : IPNet) : List UInt8 := List.zipWith (fun a m => a ||| ~~~m) n.ip n.mask

/-- The interface's own IPv4 address. -/
def interfaceIPv4 (n : IPNet) : IP 4 := (IP.from4 n.ip).next

/-- `TunnelAddress`. -/
def tunnelAddress (pool : IPPool) : String :=
  let v4bits := maskSize pool.v4.net.mask
  let v6bits := maskSize pool.v6.net.mask
  let v4 := ipText (interfaceIPv4 pool.v4.net).bytes
  let v6 := ipText (IP.from16 pool.v6.net.ip).next.bytes
  s!"{v4}/{v4bits},{v6}/{v6bits}"

/-- An IPv4 network a tier can be given: private, of 16 to 28 bits, by its own number. -/
structure TierIPv4 (n : IPNet) : Prop extends PrivateIPv4 n where
  masked : Masks.both n.ip n.mask = n.ip

/-- An IPv6 one. -/
structure TierIPv6 (n : IPNet) : Prop extends UniqueLocal n where
  masked : Masks.both n.ip n.mask = n.ip
  self : (to4 n.ip).getD n.ip = n.ip

/-! ### They are what a tier is given -/

/-- A network of 10.0.0.0/8 written with a last byte of 0. -/
theorem tierIPv4_24 (b c : UInt8) : TierIPv4 ⟨[10, b, c, 0], cidrMask 24 4⟩ := by
  have hnet : IsNet 4 ⟨[10, b, c, 0], cidrMask 24 4⟩ := isNet_four rfl 24
  have hmask : cidrMask 24 4 = [255, 255, 255, 0] := by decide
  refine ⟨⟨rfl, ⟨24, by decide, by decide, rfl⟩, fun ip h => ?_⟩, ?_⟩
  · obtain ⟨hlen, hboth⟩ := (contains_iff (.inl rfl) hnet ip).1 h
    have hfirst : ((to4 ip).getD ip).getD 0 0 = 10 := by
      have hbyte := congrArg (List.getD · 0 0) hboth
      dsimp only at hbyte
      rw [cidrMask, Masks.getD_both_full (by decide) (by decide),
        Masks.getD_both_full (by decide) (by decide)] at hbyte
      exact hbyte.symm
    rw [isPrivate, to4_of_length hlen]
    simp only [Bool.or_eq_true, beq_iff_eq]
    exact .inl (.inl hfirst)
  · simp [hmask, Masks.both, Masks.and_full]

theorem masked_parseSubnet {s : String} {v6 : Bool} {n : IPNet} (h : parseSubnet s v6 = .ok n) :
    Masks.both n.ip n.mask = n.ip := by
  obtain ⟨ip, hreads, -⟩ := parseSubnet_ok h
  cases hreads with
  | v4 hcolon hlen hones => rw [Masks.both_assoc, cidrMask, Masks.both_ofOnes le_rfl]
  | v6 hcolon hlen hones => rw [Masks.both_assoc, cidrMask, Masks.both_ofOnes le_rfl]

theorem tierIPv6_derived (k : Crypto) (key : List UInt8) : TierIPv6 (derivedBy k key).ipv6 := by
  have hnet : IsNet 16 (derivedBy k key).ipv6 := (isNet_derived k _).2
  have hmask : (derivedBy k key).ipv6.mask = Masks.ofOnes 120 16 := rfl
  have hlen : (Masks.both (derivedBy k key).ipv6.ip (Masks.ofOnes 120 16)).length = 16 := by
    rw [Masks.length_both, hnet.1, Masks.length_ofOnes]
    rfl
  refine ⟨⟨hnet.1, ⟨120, by decide, by decide, rfl⟩, fun ip h => ?_⟩, ?_, hnet.2.1⟩
  · obtain ⟨hiplen, hboth⟩ := (contains_iff (.inr rfl) hnet ip).1 h
    have hself := self_of_length (.inl (by rw [hiplen]; decide))
    rw [hself] at hiplen hboth
    refine ⟨hiplen, ?_⟩
    have hbyte := congrArg (List.getD · 0 0) hboth
    rw [hmask, Masks.getD_both_full (by decide) (by decide),
      Masks.getD_both_full (by decide) (by decide)] at hbyte
    rw [← hbyte]
    show (0xfd : UInt8) &&& 0xfe = 0xfc
    decide
  · have hsame : Masks.both (Masks.both (derivedBy k key).ipv6.ip (Masks.ofOnes 120 16))
        (Masks.ofOnes 120 16) = Masks.both (derivedBy k key).ipv6.ip (Masks.ofOnes 120 16) := by
      rw [Masks.both_assoc, Masks.both_ofOnes le_rfl]
    rw [hmask]
    refine Masks.eq_of_both hlen hnet.1 hsame fun i hi => ?_
    rw [Masks.getD_both_empty (by omega), derivedBy_last k key (by omega)]

/-- **The networks of a tier are private, by their own number**, when its IPv4 setting is
plain. -/
theorem tier_tierNetworks {k : Crypto} {ipv4 ipv6 privateKey : String} {n : Networks}
    (h : tierNetworks k ipv4 ipv6 privateKey = .ok n) (hplain : ':' ∉ ipv4.toList) :
    TierIPv4 n.ipv4 ∧ TierIPv6 n.ipv6 := by
  obtain ⟨key, -, h⟩ := bind_ok h
  obtain ⟨v4, hv4, h⟩ := bind_ok h
  obtain ⟨v6, hv6, h⟩ := bind_ok h
  cases h
  constructor
  · unfold networkOr at hv4
    split at hv4
    · have hparse := mapError_ok hv4
      exact ⟨privateIPv4_parseSubnet hparse hplain, masked_parseSubnet hparse⟩
    · cases hv4
      exact tierIPv4_24 _ _
  · unfold networkOr at hv6
    split at hv6
    · have hparse := mapError_ok hv6
      exact ⟨uniqueLocal_parseSubnet hparse, masked_parseSubnet hparse, (isNet_parseSubnet hparse).2.1⟩
    · cases hv6
      exact tierIPv6_derived k _

/-- A network that was moved is still one. -/
theorem tier_moved {k : Crypto} {v : V3} {n : Networks} (dflt : Networks)
    (h : tierNetworks k v.ipv4Subnet v.ipv6Subnet v.privateKey = .ok n)
    (hplain : ':' ∉ v.ipv4Subnet.toList) :
    TierIPv4 (n.moved dflt v).ipv4 ∧ TierIPv6 (n.moved dflt v).ipv6 := by
  obtain ⟨h4, h6⟩ := tier_tierNetworks h hplain
  refine ⟨?_, by rw [moved_ipv6]; exact h6⟩
  unfold Networks.moved
  split
  · rename_i hmeets
    obtain ⟨key, -, h⟩ := bind_ok h
    obtain ⟨v4, hv4, h⟩ := bind_ok h
    obtain ⟨v6, -, h⟩ := bind_ok h
    cases h
    rw [networkOr, if_neg (not_not.2 hmeets.1)] at hv4
    cases hv4
    exact tierIPv4_24 _ _
  · exact h4

/-- The IPv4 settings of both tiers are written without a colon. -/
def Config.Plain (c : Config) : Prop :=
  ':' ∉ c.ipv4Subnet.toList ∧ ∀ v ∈ c.tier3, ':' ∉ v.ipv4Subnet.toList

instance (c : Config) : Decidable c.Plain := inferInstanceAs (Decidable (_ ∧ _))

/-- A network the configuration gives one of its tiers. -/
def Config.Gives (k : Crypto) (c : Config) (n : Networks) : Prop :=
  ∃ dflt v3, c.tunnelNetworks k = .ok (dflt, v3) ∧ (n = dflt ∨ v3 = some n)

/-- **Every network a tier is given is a private one, by its own number.** -/
theorem tier_networks {k : Crypto} {c : Config} {n : Networks} (hplain : c.Plain)
    (h : c.Gives k n) : TierIPv4 n.ipv4 ∧ TierIPv6 n.ipv6 := by
  obtain ⟨dflt, v3, h, hn⟩ := h
  obtain ⟨d, hd, h⟩ := bind_ok h
  split at h
  · cases h
    rcases hn with rfl | hn
    · exact tier_tierNetworks hd hplain.1
    · cases hn
  · rename_i v hv
    obtain ⟨t, ht, h⟩ := bind_ok h
    dsimp only at h
    split at h
    · cases h
    · cases h
      rcases hn with rfl | hn
      · exact tier_tierNetworks hd hplain.1
      · cases hn
        exact tier_moved _ (mapError_ok ht) (hplain.2 v hv)

/-! ## Numbers -/

section Tier

variable {n : IPNet}

theorem TierIPv4.isNet (h : TierIPv4 n) : IsNet 4 n := by
  obtain ⟨ones, -, -, hmask⟩ := h.ones
  exact ⟨h.length, by rw [to4, if_pos h.length]; rfl, ones, hmask⟩

theorem TierIPv6.isNet (h : TierIPv6 n) : IsNet 16 n := by
  obtain ⟨ones, -, -, hmask⟩ := h.ones
  exact ⟨h.length, h.self, ones, hmask⟩

theorem TierIPv6.isPrivate (h : TierIPv6 n) : n.Private := by
  intro ip hip
  obtain ⟨hlen, hfirst⟩ := h.isLocal ip hip
  have hnone : to4 ip = none := to4_eq_none hlen (i := 0) (by decide) fun hzero => by
    rw [hzero] at hfirst
    exact absurd hfirst (by decide)
  exact (isPrivate_six hnone).2 ⟨hlen, hfirst⟩

/-- A mask makes no number larger. -/
theorem setBytes_both_le {a m : List UInt8} (h : a.length = m.length) :
    setBytes (Masks.both a m) ≤ setBytes a := by
  induction a generalizing m with
  | nil => simp [Masks.both]
  | cons x a ih =>
      cases m with
      | nil => cases h
      | cons y m =>
          have hlen : a.length = m.length := Nat.succ.inj h
          have hbyte : (x &&& y).toNat ≤ x.toNat := by
            rw [UInt8.toNat_and]
            exact Nat.and_le_left
          show setBytes ((x &&& y) :: Masks.both a m) ≤ setBytes (x :: a)
          rw [setBytes_cons, setBytes_cons, Masks.length_both, ← hlen, Nat.min_self]
          exact Nat.add_le_add (Nat.mul_le_mul_right _ hbyte) (ih hlen)

/-- A network that is its own number starts there. -/
theorem firstValue_of_masked {len ones : Nat} {ip : List UInt8} (hlen : ip.length = len)
    (h : Masks.both ip (cidrMask ones len) = ip) : firstValue len ones ip = setBytes ip := by
  have hle : firstValue len ones ip ≤ setBytes ip := Nat.div_mul_le_self _ _
  -- the address of the first number masks to the network's own
  obtain ⟨x, hx⟩ := IP.exists_value (n := len) (v := firstValue len ones ip)
    (by have := setBytes_lt ip; rw [hlen] at this; omega)
  have hx' : setBytes x.bytes = firstValue len ones ip := hx
  have hboth : Masks.both x.bytes (cidrMask ones len) = ip := by
    rw [← h]
    refine (both_eq_iff ones x.length_eq hlen).2 ?_
    rw [hx', firstValue, Nat.mul_div_cancel _ (Nat.two_pow_pos _)]
  have hge := setBytes_both_le (a := x.bytes) (m := cidrMask ones len)
    (by rw [x.length_eq, cidrMask, Masks.length_ofOnes])
  rw [hboth, hx'] at hge
  omega

/-- The network as a range of numbers from its own on, with room for sixteen. -/
structure Ranged (m : Nat) (n : IPNet) (hi : Nat) : Prop where
  numbered : Numbered m n (setBytes n.ip) hi
  whole : ∀ ip : IP (m + 1), setBytes n.ip ≤ ip.value → ip.value < hi → n.contains ip.bytes = true
  room : setBytes n.ip + 16 ≤ hi

theorem Ranged.of_masked {m ones : Nat} (hlen : m + 1 = 4 ∨ m + 1 = 16) (hnet : IsNet (m + 1) n)
    (hmask : n.mask = cidrMask ones (m + 1)) (hmasked : Masks.both n.ip n.mask = n.ip)
    (hprivate : n.Private) (hroom : ones + 4 ≤ 8 * (m + 1)) :
    Ranged m n (setBytes n.ip + 2 ^ (8 * (m + 1) - ones)) := by
  obtain ⟨hnum, hwhole⟩ := numbered_of_private hlen hnet hmask hprivate
  rw [hmask] at hmasked
  rw [firstValue_of_masked hnet.1 hmasked] at hnum hwhole
  have hpow : 2 ^ 4 ≤ 2 ^ (8 * (m + 1) - ones) := Nat.pow_le_pow_right (by decide) (by omega)
  exact ⟨hnum, hwhole, Nat.add_le_add_left hpow _⟩

/-- The first two steps from the network's own address stay in it. -/
theorem Ranged.next_value {m hi : Nat} (h : Ranged m n hi) {ip : IP (m + 1)} (hip : ip.bytes = n.ip) :
    ip.value = setBytes n.ip ∧ ip.next.value = setBytes n.ip + 1 ∧
      ip.next.next.value = setBytes n.ip + 2 := by
  have hfirst := h.numbered.first
  have hlast := h.numbered.last
  have hroom := h.room
  have h₀ : ip.value = setBytes n.ip := congrArg setBytes hip
  have h₁ : ip.next.value = ip.value + 1 := IP.next_value (by omega) (by omega)
  have h₂ : ip.next.next.value = ip.next.value + 1 := IP.next_value (by omega) (by omega)
  exact ⟨h₀, by omega, by omega⟩

theorem from4_bytes (h : n.ip.length = 4) : (IP.from4 n.ip).bytes = n.ip := by
  show copyBytes _ _ = _
  rw [to4, if_pos h, copyBytes]
  simp [h]

theorem from16_bytes (h : n.ip.length = 16) : (IP.from16 n.ip).bytes = n.ip := by
  show copyBytes _ (if n.ip.length = 4 then _ else if n.ip.length = 16 then n.ip else []) = _
  rw [if_neg (by rw [h]; decide), if_pos h, copyBytes]
  simp [h]

/-- A network a tier is given, as numbers. -/
theorem TierIPv4.ranged (h : TierIPv4 n) : ∃ ones, ones ≤ 28 ∧ n.mask = cidrMask ones 4 ∧
    Ranged 3 n (setBytes n.ip + 2 ^ (32 - ones)) := by
  obtain ⟨ones, -, hle, hmask⟩ := h.ones
  exact ⟨ones, hle, hmask,
    Ranged.of_masked (.inl rfl) h.isNet hmask h.masked h.isPrivate (by omega)⟩

theorem TierIPv6.ranged (h : TierIPv6 n) : ∃ ones, ones ≤ 124 ∧ n.mask = cidrMask ones 16 ∧
    Ranged 15 n (setBytes n.ip + 2 ^ (128 - ones)) := by
  obtain ⟨ones, -, hle, hmask⟩ := h.ones
  exact ⟨ones, hle, hmask,
    Ranged.of_masked (.inr rfl) h.isNet hmask h.masked h.isPrivate (by omega)⟩

end Tier

/-! ### The broadcast address -/

/-- Under the mask the broadcast address is the network's own. -/
theorem both_broadcast {ip mask : List UInt8} :
    Masks.both (List.zipWith (fun a m => a ||| ~~~m) ip mask) mask = Masks.both ip mask := by
  have hbyte : ∀ a m : UInt8, (a ||| ~~~m) &&& m = a &&& m := by
    intro a m
    apply UInt8.toBitVec_inj.1
    ext i hi
    simp only [UInt8.toBitVec_and, UInt8.toBitVec_or, UInt8.toBitVec_not, BitVec.getElem_and,
      BitVec.getElem_or, BitVec.getElem_not]
    cases m.toBitVec[i] <;> simp
  induction ip generalizing mask with
  | nil => rfl
  | cons a ip ih =>
      cases mask with
      | nil => rfl
      | cons m mask => exact congrArg₂ List.cons (hbyte a m) ih

/-- The last four bits of a mask of at most 28 ones are clear. -/
theorem lastByte_mask : ∀ ones ≤ 28, ((cidrMask ones 4).getD 3 0).toNat % 2 ^ 4 = 0 := by
  decide

/-- A network's own address ends in zeros there, and its broadcast address in ones. -/
theorem lastByte_bits {ones : Nat} (hones : ones ≤ 28) (a : UInt8) :
    (a &&& (cidrMask ones 4).getD 3 0).toNat % 2 ^ 4 = 0 ∧
      (a ||| ~~~(cidrMask ones 4).getD 3 0).toNat % 2 ^ 4 = 15 := by
  have hmask := lastByte_mask ones hones
  have hlt := ((cidrMask ones 4).getD 3 0).toNat_lt
  have hnot : (~~~(cidrMask ones 4).getD 3 0).toNat % 2 ^ 4 = 15 := by
    rw [UInt8.toNat_not, UInt8.size]
    omega
  have hones15 : ∀ x < 2 ^ 4, x ||| 15 = 15 := by decide
  constructor
  · rw [UInt8.toNat_and, Nat.and_mod_two_pow, hmask, Nat.and_zero]
  · rw [UInt8.toNat_or, Nat.or_mod_two_pow, hnot]
    exact hones15 _ (Nat.mod_lt _ (by decide))

theorem exists_four {l : List UInt8} (h : l.length = 4) : ∃ a b c d, l = [a, b, c, d] := by
  match l, h with
  | [a, b, c, d], _ => exact ⟨a, b, c, d, rfl⟩

theorem setBytes_mod {l : List UInt8} (h : l.length = 4) :
    setBytes l % 16 = (l.getD 3 0).toNat % 16 := by
  obtain ⟨a, b, c, d, rfl⟩ := exists_four h
  rw [show [a, b, c, d] = [a, b, c] ++ [d] from rfl, setBytes_concat]
  show _ = d.toNat % 16
  omega

/-- The broadcast address of a network a tier is given. -/
def broadcastIP (n : IPNet) (h : TierIPv4 n) : IP 4 :=
  ⟨broadcast n, by
    obtain ⟨ones, -, -, hmask⟩ := h.ones
    rw [broadcast, List.length_zipWith, h.length, hmask, cidrMask, Masks.length_ofOnes]
    rfl⟩

/-- The broadcast address is in the network, fifteen behind its own at least, and does not end
in 0. -/
theorem broadcast_spec {n : IPNet} (h : TierIPv4 n) :
    n.contains (broadcast n) = true ∧ setBytes n.ip + 15 ≤ (broadcastIP n h).value ∧
      (broadcast n).getD 3 0 ≠ 0 := by
  obtain ⟨ones, hle, hmask, hranged⟩ := h.ranged
  have hin : n.contains (broadcast n) = true := by
    refine (contains_iff (.inl rfl) h.isNet _).2 ?_
    rw [show (to4 (broadcast n)).getD (broadcast n) = broadcast n from
      self_of_length (.inr (broadcastIP n h).length_eq)]
    exact ⟨(broadcastIP n h).length_eq, both_broadcast.symm⟩
  have hlow := (hranged.numbered.mem (broadcastIP n h) hin).1
  -- the last byte of both addresses, through the mask's
  obtain ⟨a, b, c, d, hip⟩ := exists_four h.length
  obtain ⟨m₀, m₁, m₂, m₃, hm⟩ := exists_four (Masks.length_ofOnes ones 4)
  have hbits := lastByte_bits hle d
  rw [cidrMask, hm] at hbits
  change (d &&& m₃).toNat % 16 = 0 ∧ (d ||| ~~~m₃).toNat % 16 = 15 at hbits
  have hbyte : (broadcast n).getD 3 0 = d ||| ~~~m₃ := by rw [broadcast, hip, hmask, cidrMask, hm]; rfl
  have hself : d &&& m₃ = d := by
    have hbytes := h.masked
    rw [hip, hmask, cidrMask, hm] at hbytes
    exact congrArg (List.getD · 3 0) hbytes
  have hnumber : setBytes n.ip % 16 = 0 := by
    rw [setBytes_mod h.length, hip, ← hbits.1, hself]
    rfl
  have hvalue : (broadcastIP n h).value % 16 = 15 := by
    have hmod := setBytes_mod (broadcastIP n h).length_eq
    rwa [show (broadcastIP n h).bytes = broadcast n from rfl, hbyte, hbits.2] at hmod
  refine ⟨hin, by omega, fun hzero => ?_⟩
  rw [← hbyte, hzero] at hbits
  exact absurd hbits.2 (by decide)

end AmneziaWG

/-! ## Runs of the pool -/

namespace IPPool

/-- A call of the pool. -/
inductive Act where
  | get
  | release (ip4 : IP 4) (ip6 : IP 16)

/-- What a call leaves. -/
def step (p : IPPool) : Act → Option IPPool
  | .get => some p.get.2
  | .release ip4 ip6 => some (p.release ip4 ip6)

/-- The states of a pool after some calls. -/
def After (p₀ p : IPPool) : Prop := Steps.Reach step (fun _ _ => True) p₀ p

theorem get_ok {p : IPPool} {ip4 : IP 4} {ip6 : IP 16} {v4 : Pool 4} {v6 : Pool 16}
    (h4 : p.v4.get4 = (.ok ip4, v4)) (h6 : p.v6.get6 = (.ok ip6, v6)) :
    p.get = (.ok (ip4, ip6), ⟨v4, v6⟩) := by
  rw [IPPool.get, h4, h6]

/-- The IPv4 half draws from the network, from the start on. -/
structure Hosting (n : IPNet) (hi : Nat) (start : IP 4) (p : IPPool) : Prop where
  covering : p.v4.Covering (IP.skip 3) (fun ip => !ip.edge) (setBytes n.ip) hi start
  net_eq : p.v4.net = n

variable {n : IPNet} {hi : Nat} {start : IP 4} {p p' : IPPool} {a : Act}

/-- **Whatever `Get` returns is on offer**, also when the IPv6 half has no address and the IPv4
one goes back. -/
theorem Hosting.get (h : p.Hosting n hi start) : p.get.2.Hosting n hi start ∧
    ∀ ip4 ip6, p.get.1 = .ok (ip4, ip6) → Offered (fun ip => !ip.edge) n start ip4 := by
  obtain ⟨hc, rfl⟩ := h
  unfold IPPool.get
  rcases h4 : p.v4.get4 with ⟨e | ip4, v4⟩
  · obtain ⟨-, -, hnet, hc'⟩ := hc.get_error passes_skip h4
    exact ⟨⟨hc', hnet⟩, fun _ _ hok => by cases hok⟩
  · obtain ⟨hoffer, -, -, hnet, hc'⟩ := hc.get_ok passes_skip h4
    rcases h6 : p.v6.get6 with ⟨e | ip6, v6⟩
    · refine ⟨⟨hc'.release ip4, ?_⟩, fun _ _ hok => by cases hok⟩
      exact (Pool.release_net v4 ip4).trans hnet
    · refine ⟨⟨hc', hnet⟩, fun _ _ hok => ?_⟩
      cases hok
      exact hoffer

theorem Hosting.step (h : p.Hosting n hi start) (hstep : p.step a = some p') :
    p'.Hosting n hi start := by
  cases a with
  | get =>
      cases hstep
      exact h.get.1
  | release ip4 ip6 =>
      cases hstep
      exact ⟨h.covering.release ip4, (Pool.release_net p.v4 ip4).trans h.net_eq⟩

end IPPool

namespace AmneziaWG

/-- The pool of a network a tier is given. -/
theorem hosting_pool {n : Networks} {hi : Nat} (h : TierIPv4 n.ipv4) (hr : Ranged 3 n.ipv4 hi) :
    n.pool.Hosting n.ipv4 hi (IP.from4 n.ipv4.ip).next.next := by
  have hstart := (hr.next_value (from4_bytes h.length)).2.2
  have hroom := hr.room
  exact ⟨Pool.Covering.new hr.numbered hr.whole (by omega), rfl⟩

/-- **Where a pool starts keeps the network's own address and the interface's from peers**, and
what it passes over keeps a broadcast address that ends in 255. -/
theorem free_of_offered {n : IPNet} {hi : Nat} (h : TierIPv4 n) (hr : Ranged 3 n hi) {ip : IP 4}
    (hip : Offered (fun ip => !ip.edge) n (IP.from4 n.ip).next.next ip) :
    ip.bytes ≠ n.ip ∧ ip ≠ interfaceIPv4 n ∧
      ((broadcast n).getD 3 0 = 255 → ip.bytes ≠ broadcast n) := by
  obtain ⟨-, hone, htwo⟩ := hr.next_value (from4_bytes h.length)
  have hafter := hip.after
  refine ⟨fun heq => ?_, fun heq => ?_, fun hlast heq => ?_⟩
  · have hvalue : ip.value = setBytes n.ip := congrArg setBytes heq
    omega
  · rw [heq] at hafter
    have hvalue : (interfaceIPv4 n).value = setBytes n.ip + 1 := hone
    omega
  · have husable := hip.usable
    rw [IP.edge, heq, hlast] at husable
    exact absurd husable (by decide)

/-! ## The address the pool does reach -/

/-- So many draws, and nothing given back. -/
structure Drawing (n : Networks) (hi4 hi6 k : Nat) (p : IPPool) : Prop where
  hosting : p.Hosting n.ipv4 hi4 (IP.from4 n.ipv4.ip).next.next
  six : p.v6.Covering id (fun _ => true) (setBytes n.ipv6.ip) hi6 (IP.from16 n.ipv6.ip).next.next
  empty4 : p.v4.available = []
  empty6 : p.v6.available = []
  moved4 : setBytes n.ipv4.ip + 2 + k ≤ p.v4.current.value
  moved6 : p.v6.current.value = setBytes n.ipv6.ip + 2 + k

variable {n : Networks} {hi4 hi6 k : Nat} {p : IPPool}

theorem drawing_pool (h4 : TierIPv4 n.ipv4) (h6 : TierIPv6 n.ipv6) (hr4 : Ranged 3 n.ipv4 hi4)
    (hr6 : Ranged 15 n.ipv6 hi6) : Drawing n hi4 hi6 0 n.pool := by
  have hstart4 := (hr4.next_value (from4_bytes h4.length)).2.2
  have hstart6 := (hr6.next_value (from16_bytes h6.length)).2.2
  have hroom := hr6.room
  exact ⟨hosting_pool h4 hr4, Pool.Covering.new hr6.numbered hr6.whole (by omega), rfl, rfl,
    hstart4.ge, hstart6⟩

/-- Both halves give the address they come to next, as long as one they have yet to come to is
on offer. -/
theorem Drawing.get (h : Drawing n hi4 hi6 k p) {b : IP 4}
    (hb : Offered (fun ip => !ip.edge) n.ipv4 (IP.from4 n.ipv4.ip).next.next b)
    (hahead : p.v4.current.value ≤ b.value) (hroom : setBytes n.ipv6.ip + 2 + k < hi6) :
    p.get.1 = .ok (p.v4.current.skip 3, p.v6.current) ∧ Drawing n hi4 hi6 (k + 1) p.get.2 ∧
      (p.v4.current.skip 3).value ≤ b.value ∧
      p.get.2.v4.current.value = (p.v4.current.skip 3).value + 1 := by
  have hmoved := h.moved4
  have hsix := h.moved6
  have hc4 := h.hosting.covering
  have hge := (Pool.Counting.settled settles_skip hc4.toCounting).1
  obtain ⟨hget4, hle, hnext4⟩ := hc4.get_ahead "ipv4 pool is pull" passes_skip h.empty4
    (h.hosting.net_eq ▸ hb) hahead
  have hoffer6 : Offered (fun _ => true) p.v6.net (IP.from16 n.ipv6.ip).next.next p.v6.current :=
    ⟨h.six.whole _ (by omega) (by omega), h.six.begun, rfl⟩
  obtain ⟨hget6, -, hnext6⟩ := h.six.get_ahead "ipv6 pool is pull" passes_id h.empty6
    hoffer6 le_rfl
  have hget := IPPool.get_ok hget4 hget6
  have hhosting := h.hosting.get.1
  rw [hget] at hhosting ⊢
  refine ⟨rfl, ⟨hhosting, (h.six.get_ok passes_id hget6).2.2.2.2, h.empty4, h.empty6, ?_, ?_⟩,
    hle, hnext4⟩
  · show setBytes n.ipv4.ip + 2 + (k + 1) ≤ (p.v4.current.skip 3).next.value
    omega
  · show (id p.v6.current).next.value = _
    rw [hnext6]
    show p.v6.current.value + 1 = _
    omega

/-- **Whatever is on offer is handed out in some run of draws**, if the IPv6 half lasts. -/
theorem Drawing.exists_get {b : IP 4}
    (hb : Offered (fun ip => !ip.edge) n.ipv4 (IP.from4 n.ipv4.ip).next.next b)
    (hsize : b.value + setBytes n.ipv6.ip < hi6 + setBytes n.ipv4.ip)
    (hdrawing : Drawing n hi4 hi6 k p) (hahead : p.v4.current.value ≤ b.value)
    (hafter : n.pool.After p) : ∃ p' ip6, n.pool.After p' ∧ p'.get.1 = .ok (b, ip6) := by
  -- by what is left to draw before the address
  induction hd : b.value - p.v4.current.value using Nat.strongRecOn generalizing k p with
  | _ d ih =>
      have hmoved := hdrawing.moved4
      obtain ⟨hok, hdrawing', hle, hnext⟩ := hdrawing.get hb hahead (by omega)
      rcases Nat.eq_or_lt_of_le hle with heq | hlt
      · rw [IP.value_inj heq] at hok
        exact ⟨p, p.v6.current, hafter, hok⟩
      · have hge := (Pool.Counting.settled settles_skip hdrawing.hosting.covering.toCounting).1
        exact ih _ (by omega) hdrawing' (by omega) (hafter.next (a := .get) trivial rfl) rfl

/-- **No peer has the network's own address or the interface's, and one has the broadcast address
only where it does not end in 255**; there it is handed out in some run, unless the IPv6
network is the smaller. -/
theorem hosts_free {k : Crypto} {c : Config} {n : Networks} (hplain : c.Plain)
    (hn : c.Gives k n) :
    (∀ p ip4 ip6, n.pool.After p → p.get.1 = .ok (ip4, ip6) →
      ip4.bytes ≠ n.ipv4.ip ∧ ip4 ≠ interfaceIPv4 n.ipv4 ∧
        ((broadcast n.ipv4).getD 3 0 = 255 → ip4.bytes ≠ broadcast n.ipv4)) ∧
    ((broadcast n.ipv4).getD 3 0 ≠ 255 →
      maskSize n.ipv6.mask ≤ 96 + maskSize n.ipv4.mask →
      ∃ p ip4 ip6, n.pool.After p ∧ p.get.1 = .ok (ip4, ip6) ∧ ip4.bytes = broadcast n.ipv4) := by
  obtain ⟨h4, h6⟩ := tier_networks hplain hn
  obtain ⟨ones4, hle4, hmask4, hr4⟩ := h4.ranged
  obtain ⟨ones6, hle6, hmask6, hr6⟩ := h6.ranged
  constructor
  · intro p ip4 ip6 hafter hget
    have hhosting := hafter.invariant (hosting_pool h4 hr4) fun h _ hstep => h.step hstep
    exact free_of_offered h4 hr4 (hhosting.get.2 ip4 ip6 hget)
  · intro hlast hsize
    obtain ⟨hin, hvalue, hfirst⟩ := broadcast_spec h4
    have hstart := (hr4.next_value (from4_bytes h4.length)).2.2
    have hhi := (hr4.numbered.mem (broadcastIP n.ipv4 h4) hin).2
    have hoffer : Offered (fun ip => !ip.edge) n.ipv4 (IP.from4 n.ipv4.ip).next.next
        (broadcastIP n.ipv4 h4) := by
      refine ⟨hin, by omega, ?_⟩
      show (!((broadcast n.ipv4).getD 3 0 == 0 || (broadcast n.ipv4).getD 3 0 == 255)) = true
      simp only [beq_false_of_ne hfirst, beq_false_of_ne hlast, Bool.or_self, Bool.not_false]
    -- the IPv6 network has at least as many addresses
    rw [hmask4, hmask6, maskSize_cidrMask (by omega), maskSize_cidrMask (by omega)] at hsize
    have hpow : 2 ^ (32 - ones4) ≤ 2 ^ (128 - ones6) :=
      Nat.pow_le_pow_right (by decide) (by omega)
    obtain ⟨p, ip6, hafter, hget⟩ := (drawing_pool h4 h6 hr4 hr6).exists_get hoffer
      (by omega) (by show (IP.from4 n.ipv4.ip).next.next.value ≤ _; omega) .start
    exact ⟨p, _, ip6, hafter, hget, rfl⟩

/-- The derived networks of a default tier. -/
theorem hosts_free_derived : ∃ n, derivedConfig.Gives plainCrypto n ∧
    ∀ p ip4 ip6, n.pool.After p → p.get.1 = .ok (ip4, ip6) →
      ip4.bytes ≠ n.ipv4.ip ∧ ip4 ≠ interfaceIPv4 n.ipv4 ∧
        ((broadcast n.ipv4).getD 3 0 = 255 → ip4.bytes ≠ broadcast n.ipv4) := by
  have hok : errorOf (derivedConfig.tunnelNetworks plainCrypto) = none := by decide
  obtain ⟨⟨dflt, v3⟩, hr⟩ := errorOf_eq_none.1 hok
  have hgives : derivedConfig.Gives plainCrypto dflt := ⟨dflt, v3, hr, .inl rfl⟩
  exact ⟨dflt, hgives, (hosts_free (by decide) hgives).1⟩

/-- A tier with a network of sixteen addresses. -/
def smallConfig : Config := { derivedConfig with ipv4Subnet := "10.0.0.0/28", v3 := none }

/-- Its networks. -/
def smallNetworks : Networks :=
  ⟨⟨[10, 0, 0, 0], cidrMask 28 4⟩,
    (derivedBy plainCrypto (List.replicate 32 1)).ipv6⟩

/-- **The fourteenth peer of a /28 gets its broadcast address**, 10.0.0.15. -/
theorem broadcast_handed_out : smallConfig.validate plainCrypto = none ∧
    smallConfig.Gives plainCrypto smallNetworks ∧ broadcast smallNetworks.ipv4 = [10, 0, 0, 15] ∧
    ∃ p ip6, smallNetworks.pool.After p ∧ p.get.1 = .ok (⟨[10, 0, 0, 15], rfl⟩, ip6) := by
  refine ⟨by decide +kernel, ⟨smallNetworks, none, by rfl, .inl rfl⟩, by decide, ?_⟩
  obtain ⟨p, hafter, hget⟩ := Steps.exists_reach IPPool.step (fun _ _ => True) smallNetworks.pool
    (List.replicate 13 .get)
    (fun p => (p.get.1.toOption.map Prod.fst) == some ⟨[10, 0, 0, 15], rfl⟩) (by decide +kernel)
  cases hres : p.get.1 with
  | error e => rw [hres] at hget; cases hget
  | ok ips =>
      rw [hres] at hget
      obtain ⟨ip4, ip6⟩ := ips
      have hfirst : ip4 = ⟨[10, 0, 0, 15], rfl⟩ := Option.some.inj (beq_iff_eq.1 hget)
      exact ⟨p, ip6, hafter, by rw [hres, hfirst]⟩

end AmneziaWG

end Dvpnd
