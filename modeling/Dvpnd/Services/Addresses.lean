import Dvpnd.Lib.Steps
import Dvpnd.Services.WireGuard

/-!
# Addresses are handed out once

A WireGuard peer has an address of each family from the pools of its interface
(`services/wireguard/wireguard.go`, `services/wireguard/types/ip_pool.go`).  On its way an
address is drawn, given back early when IPv6 is off, given back on an error, kept with
the peer, and given back when the peer is removed.

* `IP.next_value` — where no byte of an address is lost, `Next` counts up by one.
* `Pool.Counting` — a pool whose addresses on hand are all below the one it draws next;
  what `Get` and `Release` do to the reserved addresses follows.
* `WireGuard.Accounted` — **the reserved addresses are those of the peers**, and no two
  peers share one.
* `addresses_accounted` — so it is after every call, whatever the tool and the pools do.
-/

namespace Dvpnd

/-! ## Addresses as numbers -/

theorem setBytes_concat (l : List UInt8) (b : UInt8) :
    setBytes (l ++ [b]) = setBytes l * 256 + b.toNat := by
  simp [setBytes]

theorem setBytes_append (k l : List UInt8) :
    setBytes (k ++ l) = setBytes k * 256 ^ l.length + setBytes l := by
  induction l using List.reverseRecOn with
  | nil => simp [setBytes]
  | append_singleton l b ih =>
      rw [← List.append_assoc, setBytes_concat, setBytes_concat, ih, List.length_append,
        List.length_singleton, pow_succ]
      ring

theorem setBytes_cons (b : UInt8) (l : List UInt8) :
    setBytes (b :: l) = b.toNat * 256 ^ l.length + setBytes l := by
  have h := setBytes_append [b] l
  rwa [show setBytes [b] = b.toNat by simp [setBytes]] at h

theorem setBytes_lt (l : List UInt8) : setBytes l < 256 ^ l.length := by
  induction l using List.reverseRecOn with
  | nil => decide
  | append_singleton l b ih =>
      have hb := b.toNat_lt
      rw [setBytes_concat, List.length_append, List.length_singleton, pow_succ]
      omega

theorem setBytes_bigBytes (v : Nat) : setBytes (bigBytes v) = v := by
  induction v using Nat.strongRecOn with
  | _ v ih =>
      rcases Nat.eq_zero_or_pos v with rfl | hv
      · rfl
      · rw [bigBytes_of_pos hv, setBytes_concat, ih (v / 256) (Nat.div_lt_self hv (by decide)),
          UInt8.toNat_ofNat']
        omega

theorem length_bigBytes {v n : Nat} (hlo : 256 ^ n ≤ v) (hhi : v < 256 ^ (n + 1)) :
    (bigBytes v).length = n + 1 := by
  have hle := (Nat.digits_length_le_iff (by decide : 1 < 256) v).2 hhi
  have hlt := (Nat.lt_digits_length_iff (by decide : 1 < 256) v).2 hlo
  rw [bigBytes, List.length_map, List.length_reverse]
  omega

/-- The number an address is. -/
def IP.value {n : Nat} (ip : IP n) : Nat := setBytes ip.bytes

/-- **`Next` counts up by one** from an address that does not start with 0, up to the
last one. -/
theorem IP.next_value {n : Nat} {ip : IP (n + 1)} (hlo : 256 ^ n ≤ ip.value)
    (hhi : ip.value + 1 < 256 ^ (n + 1)) : ip.next.value = ip.value + 1 := by
  have hlen := length_bigBytes (v := ip.value + 1) (by omega) hhi
  show setBytes (copyBytes ip.bytes (bigBytes (ip.value + 1))) = ip.value + 1
  rw [copyBytes, hlen, List.drop_of_length_le (by rw [ip.length_eq]), List.append_nil,
    List.take_of_length_le (by rw [hlen, ip.length_eq]), setBytes_bigBytes]

/-- What a pool passes over before it draws: at most three addresses, and nothing the
second time. -/
structure Settles {n : Nat} (settle : IP (n + 1) → IP (n + 1)) : Prop where
  value : ∀ ip, 256 ^ n ≤ ip.value → ip.value + 3 < 256 ^ (n + 1) →
    ip.value ≤ (settle ip).value ∧ (settle ip).value ≤ ip.value + 3
  again : ∀ ip, settle (settle ip) = settle ip

theorem settles_id {n : Nat} : Settles (n := n) id :=
  ⟨fun _ _ _ => ⟨Nat.le_refl _, Nat.le_add_right _ _⟩, fun _ => rfl⟩

theorem IP.skip_value (fuel : Nat) {ip : IP 4} (hlo : 256 ^ 3 ≤ ip.value)
    (hhi : ip.value + fuel < 256 ^ 4) :
    ip.value ≤ (ip.skip fuel).value ∧ (ip.skip fuel).value ≤ ip.value + fuel := by
  induction fuel generalizing ip with
  | zero => exact ⟨Nat.le_refl _, Nat.le_refl _⟩
  | succ fuel ih =>
      rw [skip]
      split
      · have hnext := IP.next_value (n := 3) hlo (by omega)
        have hlo' : 256 ^ 3 ≤ ip.next.value := by omega
        have hrest := ih hlo' (by omega)
        omega
      · omega

theorem settles_skip : Settles (n := 3) (IP.skip 3) where
  value ip hlo hhi := IP.skip_value 3 hlo hhi
  again ip := by
    have husable := IP.skip_usable ip
    generalize ip.skip 3 = ip' at husable ⊢
    rw [IP.skip, husable]
    rfl

/-! ## Pools -/

/-- The addresses of a network are numbers between two bounds, away from the ends. -/
structure Numbered (n : Nat) (net : IPNet) (lo hi : Nat) : Prop where
  first : 256 ^ n ≤ lo
  last : hi + 6 < 256 ^ (n + 1)
  mem : ∀ ip : IP (n + 1), net.contains ip.bytes = true → lo ≤ ip.value ∧ ip.value < hi

/-- A pool that has not come round: the addresses on hand are in its network, are
different, and are below the one it draws next. -/
structure Pool.Counting {n : Nat} (settle : IP (n + 1) → IP (n + 1)) (lo hi : Nat)
    (p : Pool (n + 1)) : Prop where
  numbered : Numbered n p.net lo hi
  low : lo ≤ p.current.value
  high : p.current.value ≤ hi ∨ settle p.current = p.current ∧ p.current.value ≤ hi + 3
  below : ∀ {ip}, ip ∈ p.available ∨ ip ∈ p.reserved → ip.value < p.current.value
  nodup : p.available.Nodup
  apart : ∀ {ip}, ip ∈ p.available → ip ∉ p.reserved

namespace Pool

variable {n lo hi : Nat} {settle : IP (n + 1) → IP (n + 1)} {full : String}
  {p p' : Pool (n + 1)} {ip : IP (n + 1)}

/-- Where a pool looks next. -/
theorem Counting.settled (hs : Settles settle) (hc : p.Counting settle lo hi) :
    p.current.value ≤ (settle p.current).value ∧ (settle p.current).value ≤ hi + 3 := by
  have hfirst := hc.numbered.first
  have hlast := hc.numbered.last
  have hlow := hc.low
  rcases hc.high with hle | ⟨heq, hle⟩
  · have hv := hs.value p.current (by omega) (by omega)
    omega
  · rw [heq]
    omega

/-- An address from the list of those given back. -/
theorem Counting.pop (hc : p.Counting settle lo hi) {rest : List (IP (n + 1))}
    (havail : p.available = ip :: rest) : ip ∉ p.reserved ∧
      Counting settle lo hi { p with available := rest, reserved := insert ip p.reserved } := by
  have hmem : ip ∈ p.available := by rw [havail]; exact List.mem_cons_self
  have hnodup := hc.nodup
  rw [havail] at hnodup
  obtain ⟨hfresh, hrest⟩ := List.nodup_cons.1 hnodup
  have hsub : ∀ {y}, y ∈ rest → y ∈ p.available := fun hy => by
    rw [havail]
    exact List.mem_cons_of_mem _ hy
  refine ⟨hc.apart hmem, { hc with
    nodup := hrest, below := fun {y} hy => ?_, apart := fun {y} hy hres => ?_ }⟩
  · rcases hy with hy | hy
    · exact hc.below (.inl (hsub hy))
    · rcases Finset.mem_insert.1 hy with rfl | hy
      · exact hc.below (.inl hmem)
      · exact hc.below (.inr hy)
  · rcases Finset.mem_insert.1 hres with rfl | hres
    · exact hfresh hy
    · exact hc.apart (hsub hy) hres

/-- The cursor moves on by one. -/
theorem Counting.next_value (hc : p.Counting settle lo hi)
    (hin : p.net.contains (settle p.current).bytes = true) :
    (settle p.current).next.value = (settle p.current).value + 1 := by
  obtain ⟨hlo, hhi⟩ := hc.numbered.mem _ hin
  have hfirst := hc.numbered.first
  have hlast := hc.numbered.last
  exact IP.next_value (by omega) (by omega)

/-- An address from the cursor. -/
theorem Counting.advance (hs : Settles settle) (hc : p.Counting settle lo hi) (havail : p.available = [])
    (hin : p.net.contains (settle p.current).bytes = true) : settle p.current ∉ p.reserved ∧
      Counting settle lo hi { p with
        current := (settle p.current).next, reserved := insert (settle p.current) p.reserved } := by
  obtain ⟨hge, -⟩ := hc.settled hs
  obtain ⟨hlo, hhi⟩ := hc.numbered.mem _ hin
  have hnext := hc.next_value hin
  refine ⟨fun hout => ?_, { hc with
    low := ?_, high := .inl ?_, below := fun {x} hx => ?_, apart := fun hx => ?_ }⟩
  · have := hc.below (.inr hout)
    omega
  · show lo ≤ (settle p.current).next.value
    omega
  · show (settle p.current).next.value ≤ hi
    omega
  · show x.value < (settle p.current).next.value
    rcases hx with hx | hx
    · have := hc.below (.inl hx)
      omega
    · rcases Finset.mem_insert.1 hx with rfl | hx
      · omega
      · have := hc.below (.inr hx)
        omega
  · rw [havail] at hx
    cases hx

/-- **`Get` draws an address that is not out**, and reserves it. -/
theorem Counting.get_ok (hs : Settles settle) (hc : p.Counting settle lo hi)
    (h : p.getWith settle full = (.ok ip, p')) :
    ip ∉ p.reserved ∧ p'.reserved = insert ip p.reserved ∧ p'.Counting settle lo hi := by
  rcases getWith_cases settle full p with
    ⟨x, rest, havail, heq⟩ | ⟨havail, hin, heq⟩ | ⟨-, -, heq⟩
  · cases heq.symm.trans h
    obtain ⟨hfresh, hcount⟩ := hc.pop havail
    exact ⟨hfresh, rfl, hcount⟩
  · cases heq.symm.trans h
    obtain ⟨hfresh, hcount⟩ := hc.advance hs havail hin
    exact ⟨hfresh, rfl, hcount⟩
  · cases heq.symm.trans h

/-- A `Get` that fails reserves nothing. -/
theorem Counting.get_error (hs : Settles settle) (hc : p.Counting settle lo hi) {e : String}
    (h : p.getWith settle full = (.error e, p')) :
    p'.reserved = p.reserved ∧ p'.Counting settle lo hi := by
  rcases getWith_cases settle full p with ⟨x, rest, -, heq⟩ | ⟨-, -, heq⟩ | ⟨-, -, heq⟩
  · cases heq.symm.trans h
  · cases heq.symm.trans h
  · cases heq.symm.trans h
    obtain ⟨hge, hle⟩ := hc.settled hs
    refine ⟨rfl, { hc with low := ?_, high := .inr ⟨hs.again _, hle⟩, below := fun {x} hx => ?_ }⟩
    · exact hc.low.trans hge
    · exact (hc.below hx).trans_le hge

/-- `Release` gives an address back. -/
theorem release_net (p : Pool n) (ip : IP n) : (p.release ip).net = p.net := by
  unfold Pool.release
  split
  · rfl
  · rfl

theorem release_reserved (p : Pool n) (ip : IP n) :
    (p.release ip).reserved = p.reserved.erase ip := by
  unfold release
  split
  · rfl
  · rename_i h
    exact (Finset.erase_eq_of_notMem h).symm

theorem Counting.release (hc : p.Counting settle lo hi) (ip : IP (n + 1)) :
    (p.release ip).Counting settle lo hi := by
  unfold Pool.release
  split
  · rename_i hout
    refine { hc with below := fun {x} hx => ?_, nodup := ?_, apart := fun {x} hx hres => ?_ }
    · rcases hx with hx | hx
      · rcases List.mem_append.1 hx with hx | hx
        · exact hc.below (.inl hx)
        · cases List.mem_singleton.1 hx
          exact hc.below (.inr hout)
      · exact hc.below (.inr (Finset.mem_of_mem_erase hx))
    · refine List.nodup_append.2 ⟨hc.nodup, List.nodup_singleton _, fun x hx y hy heq => ?_⟩
      cases List.mem_singleton.1 hy
      exact hc.apart hx (heq ▸ hout)
    · obtain ⟨hne, hres⟩ := Finset.mem_erase.1 hres
      rcases List.mem_append.1 hx with hx | hx
      · exact hc.apart hx hres
      · exact hne (List.mem_singleton.1 hx)
  · exact hc

end Pool

/-- Both pools count up. -/
def IPPool.Counting (p : IPPool) : Prop :=
  (∃ lo hi, p.v4.Counting (IP.skip 3) lo hi) ∧ ∃ lo hi, p.v6.Counting id lo hi

/-- **A draw reserves an address of each family that was free**, or changes nothing that is
reserved. -/
theorem IPPool.Counting.get {p : IPPool} (hc : p.Counting) :
    (∃ ip4 ip6 p', p.get = (.ok (ip4, ip6), p') ∧ p'.Counting ∧
      ip4 ∉ p.v4.reserved ∧ p'.v4.reserved = insert ip4 p.v4.reserved ∧
      ip6 ∉ p.v6.reserved ∧ p'.v6.reserved = insert ip6 p.v6.reserved) ∨
    ∃ e p', p.get = (.error e, p') ∧ p'.Counting ∧
      p'.v4.reserved = p.v4.reserved ∧ p'.v6.reserved = p.v6.reserved := by
  obtain ⟨⟨lo4, hi4, hc4⟩, lo6, hi6, hc6⟩ := hc
  unfold IPPool.get
  rcases h4 : p.v4.get4 with ⟨e | ip4, v4⟩
  · obtain ⟨hres, hc4'⟩ := hc4.get_error settles_skip h4
    exact .inr ⟨e, _, rfl, ⟨⟨lo4, hi4, hc4'⟩, lo6, hi6, hc6⟩, hres, rfl⟩
  · obtain ⟨hfresh4, hres4, hc4'⟩ := hc4.get_ok settles_skip h4
    rcases h6 : p.v6.get6 with ⟨e | ip6, v6⟩
    · obtain ⟨hres6, hc6'⟩ := hc6.get_error settles_id h6
      refine .inr ⟨e, _, rfl, ⟨⟨lo4, hi4, hc4'.release ip4⟩, lo6, hi6, hc6'⟩, ?_, hres6⟩
      rw [Pool.release_reserved, hres4, Finset.erase_insert hfresh4]
    · obtain ⟨hfresh6, hres6, hc6'⟩ := hc6.get_ok settles_id h6
      exact .inl ⟨ip4, ip6, _, rfl, ⟨⟨lo4, hi4, hc4'⟩, lo6, hi6, hc6'⟩, hfresh4, hres4, hfresh6,
        hres6⟩

theorem IPPool.Counting.release {p : IPPool} (hc : p.Counting) (ip4 : IP 4) (ip6 : IP 16) :
    (p.release ip4 ip6).Counting := by
  obtain ⟨⟨lo4, hi4, hc4⟩, lo6, hi6, hc6⟩ := hc
  exact ⟨⟨lo4, hi4, hc4.release ip4⟩, lo6, hi6, hc6.release ip6⟩

/-! ## Networks as ranges -/

theorem lastByte_toNat : ∀ ones < 8, ∀ x < 256,
    (UInt8.ofNat x &&& UInt8.ofNat (256 - 2 ^ (8 - ones))).toNat =
      x / 2 ^ (8 - ones) * 2 ^ (8 - ones) := by decide +kernel

/-- The byte in which a mask ends leaves the quotient. -/
theorem and_lastByte_eq_iff {ones : Nat} (h : ones < 8) (x y : UInt8) :
    x &&& UInt8.ofNat (256 - 2 ^ (8 - ones)) = y &&& UInt8.ofNat (256 - 2 ^ (8 - ones)) ↔
      x.toNat / 2 ^ (8 - ones) = y.toNat / 2 ^ (8 - ones) := by
  have hx := lastByte_toNat ones h x.toNat x.toNat_lt
  have hy := lastByte_toNat ones h y.toNat y.toNat_lt
  rw [UInt8.ofNat_toNat] at hx hy
  rw [← UInt8.toNat_inj, hx, hy]
  exact Nat.mul_left_inj (Nat.two_pow_pos _).ne'

/-- The quotient of a number by fewer bits than its last part has, -/
theorem div_of_le {m d x a : Nat} (hd : d ≤ m) (ha : a < 2 ^ m) :
    (x * 2 ^ m + a) / 2 ^ d = x * 2 ^ (m - d) + a / 2 ^ d ∧ a / 2 ^ d < 2 ^ (m - d) := by
  have hsplit : 2 ^ m = 2 ^ d * 2 ^ (m - d) := by rw [← pow_add, Nat.add_sub_cancel' hd]
  constructor
  · rw [hsplit, Nat.mul_left_comm, Nat.mul_add_div (Nat.two_pow_pos _)]
  · exact Nat.div_lt_of_lt_mul (hsplit ▸ ha)

/-- and by more. -/
theorem div_of_ge {m e x a : Nat} (ha : a < 2 ^ m) :
    (x * 2 ^ m + a) / 2 ^ (m + e) = x / 2 ^ e := by
  rw [pow_add, ← Nat.div_div_eq_div_mul, Nat.mul_comm, Nat.mul_add_div (Nat.two_pow_pos _),
    Nat.div_eq_of_lt ha, Nat.add_zero]

theorem mul_add_eq_iff {q x y a b : Nat} (ha : a < q) (hb : b < q) :
    x * q + a = y * q + b ↔ x = y ∧ a = b := by
  constructor
  · intro h
    have hdiv : ∀ {z c}, c < q → (z * q + c) / q = z := by
      intro z c hc
      rw [Nat.mul_comm, Nat.mul_add_div (by omega), Nat.div_eq_of_lt hc, Nat.add_zero]
    obtain rfl : x = y := by rw [← hdiv (z := x) ha, h, hdiv hb]
    exact ⟨rfl, Nat.add_left_cancel h⟩
  · rintro ⟨rfl, rfl⟩
    rfl

/-- **Two addresses agree under a mask when they are the same number without the bits behind
it.** -/
theorem both_eq_iff (ones : Nat) {len : Nat} {a b : List UInt8} (ha : a.length = len)
    (hb : b.length = len) :
    Masks.both a (Masks.ofOnes ones len) = Masks.both b (Masks.ofOnes ones len) ↔
      setBytes a / 2 ^ (8 * len - ones) = setBytes b / 2 ^ (8 * len - ones) := by
  induction len generalizing ones a b with
  | zero =>
      rw [List.length_eq_zero_iff.1 ha, List.length_eq_zero_iff.1 hb]
      exact iff_of_true rfl rfl
  | succ len ih =>
      match a, b, ha, hb with
      | x :: a, y :: b, ha, hb =>
        have ha' : a.length = len := Nat.succ.inj ha
        have hb' : b.length = len := Nat.succ.inj hb
        have hpow : 256 ^ len = 2 ^ (8 * len) := (pow_mul 2 8 len).symm
        have hlta : setBytes a < 2 ^ (8 * len) := hpow ▸ ha' ▸ setBytes_lt a
        have hltb : setBytes b < 2 ^ (8 * len) := hpow ▸ hb' ▸ setBytes_lt b
        rw [setBytes_cons, setBytes_cons, ha', hb', hpow]
        unfold Masks.ofOnes
        split
        · -- the first byte is compared as a whole
          rename_i hones
          have hd : 8 * (len + 1) - ones = 8 * len - (ones - 8) := by omega
          obtain ⟨hdiva, hquota⟩ := div_of_le (x := x.toNat) (Nat.sub_le (8 * len) (ones - 8)) hlta
          obtain ⟨hdivb, hquotb⟩ := div_of_le (x := y.toNat) (Nat.sub_le (8 * len) (ones - 8)) hltb
          rw [hd, hdiva, hdivb, mul_add_eq_iff hquota hquotb, ← ih (ones - 8) ha' hb', UInt8.toNat_inj]
          simp [Masks.both, Masks.and_full]
        · -- the mask ends in it, and the others are masked out
          rename_i hones
          have hd : 8 * (len + 1) - ones = 8 * len + (8 - ones) := by omega
          rw [hd, div_of_ge hlta, div_of_ge hltb, ← and_lastByte_eq_iff (by omega)]
          have hrest := (ih 0 ha' hb').2
            (by rw [Nat.sub_zero, Nat.div_eq_of_lt hlta, Nat.div_eq_of_lt hltb])
          exact ⟨fun h => (List.cons.inj h).1, fun h => congrArg₂ List.cons h hrest⟩

/-- The first number of a network, given one of its addresses. -/
def firstValue (len ones : Nat) (ip : List UInt8) : Nat :=
  setBytes ip / 2 ^ (8 * len - ones) * 2 ^ (8 * len - ones)

/-- **A network is a range.**  An IPv4 address written as an IPv6 one is in no IPv6 network. -/
theorem contains_range {n ones : Nat} {net : IPNet} (hlen : n + 1 = 4 ∨ n + 1 = 16)
    (hnet : IsNet (n + 1) net) (hmask : net.mask = cidrMask ones (n + 1)) (ip : IP (n + 1)) :
    net.contains ip.bytes = true ↔ (to4 ip.bytes).getD ip.bytes = ip.bytes ∧
      firstValue (n + 1) ones net.ip ≤ ip.value ∧
      ip.value < firstValue (n + 1) ones net.ip + 2 ^ (8 * (n + 1) - ones) := by
  have hquot : ip.value / 2 ^ (8 * (n + 1) - ones) = setBytes net.ip / 2 ^ (8 * (n + 1) - ones) ↔
      firstValue (n + 1) ones net.ip ≤ ip.value ∧
        ip.value < firstValue (n + 1) ones net.ip + 2 ^ (8 * (n + 1) - ones) := by
    rw [Nat.div_eq_iff (Nat.two_pow_pos _), firstValue]
    have := Nat.two_pow_pos (8 * (n + 1) - ones)
    omega
  rw [contains_iff hlen hnet, hmask, ← hquot]
  constructor
  · rintro ⟨hbytes, hboth⟩
    have hip := ip.length_eq
    have hself := self_of_length (by omega : _ ≠ 4 ∨ ip.bytes.length = 4)
    rw [hself, cidrMask, both_eq_iff _ hnet.1 ip.length_eq] at hboth
    exact ⟨hself, hboth.symm⟩
  · rintro ⟨hself, heq⟩
    rw [hself, cidrMask, both_eq_iff _ hnet.1 ip.length_eq]
    exact ⟨ip.length_eq, heq.symm⟩

/-- So is the part of it the pools count through. -/
theorem Numbered.of_net {n ones : Nat} {net : IPNet} (hlen : n + 1 = 4 ∨ n + 1 = 16)
    (hnet : IsNet (n + 1) net) (hmask : net.mask = cidrMask ones (n + 1))
    (hfirst : 256 ^ n ≤ firstValue (n + 1) ones net.ip)
    (hlast : firstValue (n + 1) ones net.ip + 2 ^ (8 * (n + 1) - ones) + 6 < 256 ^ (n + 1)) :
    Numbered n net (firstValue (n + 1) ones net.ip)
      (firstValue (n + 1) ones net.ip + 2 ^ (8 * (n + 1) - ones)) :=
  ⟨hfirst, hlast, fun ip hin => ((contains_range hlen hnet hmask ip).1 hin).2⟩

/-- A pool from which nothing was drawn. -/
theorem Pool.Counting.new {n lo hi : Nat} {settle : IP (n + 1) → IP (n + 1)} {net : IPNet}
    {current : IP (n + 1)} (hnet : Numbered n net lo hi) (hlo : lo ≤ current.value)
    (hhi : current.value ≤ hi) :
    Pool.Counting settle lo hi { net, current } where
  numbered := hnet
  low := hlo
  high := .inl hhi
  below h := by
    rcases h with h | h
    · cases h
    · exact absurd h (Finset.notMem_empty _)
  nodup := List.nodup_nil
  apart h := by cases h

/-- Both pools count up, and nothing is drawn. -/
def IPPool.Unused (p : IPPool) : Prop :=
  p.Counting ∧ p.v4.reserved = ∅ ∧ p.v6.reserved = ∅

/-- **So are the pools of a node.** -/
theorem nodePool_unused : nodePool.Unused := by
  have hmask4 : nodePool.v4.net.mask = cidrMask 24 4 := by decide
  have hmask6 : nodePool.v6.net.mask = cidrMask 120 16 := by decide
  have h4 := Numbered.of_net (n := 3) (.inl rfl) ⟨rfl, rfl, 24, hmask4⟩ hmask4 (by decide) (by decide)
  have h6 := Numbered.of_net (n := 15) (.inr rfl) ⟨rfl, by decide, 120, hmask6⟩ hmask6 (by decide)
    (by decide)
  exact ⟨⟨⟨_, _, .new h4 (by decide) (by decide)⟩, _, _, .new h6 (by decide) (by decide)⟩, rfl, rfl⟩

namespace WireGuard

/-! ## The peers and the pools -/

/-- The addresses that are out are those of the peers, and each has its own.  Without IPv6
a peer has no second address. -/
structure Accounted (enableIPv6 : Bool) (s : WireGuard) : Prop where
  v4 : s.pool.v4.reserved = (s.peers.map Peer.ipv4).toFinset
  v6 : s.pool.v6.reserved = if enableIPv6 then (s.peers.map Peer.ipv6).toFinset else ∅
  distinct4 : (s.peers.map Peer.ipv4).Nodup
  distinct6 : enableIPv6 = true → (s.peers.map Peer.ipv6).Nodup

/-- A call of the service.  Only peers that are not there are added. -/
inductive Act
  | addPeer (data : List UInt8) (c : Tool)
  | removePeer (data : List UInt8) (c : Tool)

/-- What the call leaves. -/
def step (enableIPv6 : Bool) (s : WireGuard) : Act → Option WireGuard
  | .addPeer data c => if Key.of data ∈ s.keys then none else some (s.addPeer enableIPv6 data c).2
  | .removePeer data c => some (s.removePeer data c).2

/-- The books and the pools they are about. -/
structure Inv (enableIPv6 : Bool) (s : WireGuard) : Prop extends s.Accounted enableIPv6 where
  counting : s.pool.Counting

variable {enableIPv6 : Bool} {s s' : WireGuard} {a : Act} {data : List UInt8} {c : Tool}

/-- A peer that is not there is put in front. -/
theorem peers_put {v : Peer} (hv : v.empty = false) (h : v.identity ∉ s.keys) :
    (s.put v hv).peers = v :: s.peers ∧ (s.put v hv).pool = s.pool := by
  unfold put
  rw [dif_neg fun hin => h (List.mem_toFinset.2 hin)]
  exact ⟨rfl, rfl⟩

/-- The books stay as they are when the peers and what is reserved do. -/
theorem Inv.same (hi : s.Inv enableIPv6) (hpeers : s'.peers = s.peers) (hc : s'.pool.Counting)
    (h4 : s'.pool.v4.reserved = s.pool.v4.reserved)
    (h6 : s'.pool.v6.reserved = s.pool.v6.reserved) : s'.Inv enableIPv6 where
  v4 := by rw [h4, hpeers, hi.v4]
  v6 := by rw [h6, hpeers, hi.v6]
  distinct4 := by rw [hpeers]; exact hi.distinct4
  distinct6 := by rw [hpeers]; exact hi.distinct6
  counting := hc

/-- A peer with addresses that were free joins. -/
theorem Inv.push (hi : s.Inv enableIPv6) {v : Peer} (hpeers : s'.peers = v :: s.peers)
    (hc : s'.pool.Counting) (hfresh4 : v.ipv4 ∉ s.pool.v4.reserved)
    (h4 : s'.pool.v4.reserved = insert v.ipv4 s.pool.v4.reserved)
    (hfresh6 : enableIPv6 = true → v.ipv6 ∉ s.pool.v6.reserved)
    (h6 : s'.pool.v6.reserved =
      if enableIPv6 then insert v.ipv6 s.pool.v6.reserved else s.pool.v6.reserved) :
    s'.Inv enableIPv6 where
  v4 := by rw [h4, hpeers, hi.v4, List.map_cons, List.toFinset_cons]
  v6 := by
    rw [h6, hpeers, hi.v6, List.map_cons, List.toFinset_cons]
    cases enableIPv6 with
    | false => rfl
    | true => rfl
  distinct4 := by
    rw [hi.v4, List.mem_toFinset] at hfresh4
    rw [hpeers, List.map_cons]
    exact List.nodup_cons.2 ⟨hfresh4, hi.distinct4⟩
  distinct6 hon := by
    have hfresh := hfresh6 hon
    rw [hi.v6, if_pos hon, List.mem_toFinset] at hfresh
    rw [hpeers, List.map_cons]
    exact List.nodup_cons.2 ⟨hfresh, hi.distinct6 hon⟩
  counting := hc

/-- **Every way out of `AddPeer` keeps the books.** -/
theorem Inv.addPeer (hi : s.Inv enableIPv6) (hnew : Key.of data ∉ s.keys) :
    (s.addPeer enableIPv6 data c).2.Inv enableIPv6 := by
  unfold WireGuard.addPeer
  rcases hi.counting.get with ⟨ip4, ip6, p, hget, hc, hfresh4, h4, hfresh6, h6⟩ | ⟨e, p, hget, hc, h4, h6⟩
  · rw [hget]
    have hback4 : (p.v4.release ip4).reserved = s.pool.v4.reserved := by
      rw [Pool.release_reserved, h4, Finset.erase_insert hfresh4]
    have hback6 : (p.v6.release ip6).reserved = s.pool.v6.reserved := by
      rw [Pool.release_reserved, h6, Finset.erase_insert hfresh6]
    cases enableIPv6 with
    | true =>
        dsimp only
        split
        · -- the tool fails: both addresses go back
          exact hi.same rfl (hc.release ip4 ip6) hback4 hback6
        · rename_i hrun
          obtain ⟨hpeers, hpool⟩ := peers_put (s := { s with pool := p })
            (peer_named hrun ip4 ip6) hnew
          show Inv true (({ s with pool := p } : WireGuard).put ⟨Key.of data, ip4, ip6⟩
            (peer_named hrun ip4 ip6))
          exact hi.push hpeers (by rw [hpool]; exact hc) hfresh4 (by rw [hpool]; exact h4)
            (fun _ => hfresh6) (by rw [hpool]; exact h6)
    | false =>
        have hc' : IPPool.Counting { p with v6 := p.v6.release ip6 } := by
          obtain ⟨hc4, lo, hi, hc6⟩ := hc
          exact ⟨hc4, lo, hi, hc6.release ip6⟩
        dsimp only
        split
        · refine hi.same rfl (hc'.release ip4 (IP.zero 16)) hback4 ?_
          -- the zero address is not reserved, so nothing more goes back
          refine (Pool.release_reserved (p.v6.release ip6) (IP.zero 16)).trans ?_
          rw [hback6, hi.v6]
          rfl
        · rename_i hrun
          obtain ⟨hpeers, hpool⟩ := peers_put
            (s := { s with pool := { p with v6 := p.v6.release ip6 } })
            (peer_named hrun ip4 (IP.zero 16)) hnew
          show Inv false (({ s with pool := { p with v6 := p.v6.release ip6 } } : WireGuard).put
            ⟨Key.of data, ip4, IP.zero 16⟩ (peer_named hrun ip4 (IP.zero 16)))
          exact hi.push hpeers (by rw [hpool]; exact hc') hfresh4 (by rw [hpool]; exact h4) nofun
            (by rw [hpool]; exact hback6)
  · rw [hget]
    exact hi.same rfl hc h4 h6

/-- `Get` of a registered key is its peer. -/
theorem get_mem {key : Key} (h : key ∈ s.keys) : s.get key ∈ s.peers := by
  unfold get
  cases hfind : s.peers.find? (·.identity = key) with
  | none =>
      obtain ⟨p, hp, hkey⟩ := mem_keys.1 h
      exact absurd (decide_eq_true hkey) (List.find?_eq_none.1 hfind p hp)
  | some p => exact List.mem_of_find?_eq_some hfind

/-- The addresses of the peers but one, where each has its own. -/
theorem toFinset_filter {n : Nat} {f : Peer → IP n} {v : Peer} (hv : v ∈ s.peers)
    (hnodup : (s.peers.map f).Nodup) :
    ((s.peers.filter (·.identity ≠ v.identity)).map f).toFinset =
      (s.peers.map f).toFinset.erase (f v) := by
  ext ip
  simp only [List.mem_toFinset, List.mem_map, List.mem_filter, decide_eq_true_eq, Finset.mem_erase]
  constructor
  · rintro ⟨p, ⟨hp, hne⟩, rfl⟩
    refine ⟨fun heq => hne ?_, p, hp, rfl⟩
    rw [List.inj_on_of_nodup_map hnodup hp hv heq]
  · rintro ⟨hne, p, hp, rfl⟩
    refine ⟨p, ⟨hp, fun heq => hne ?_⟩, rfl⟩
    rw [List.inj_on_of_nodup_map s.nodup hp hv heq]

/-- **So does every way out of `RemovePeer`.** -/
theorem Inv.removePeer (hi : s.Inv enableIPv6) : (s.removePeer data c).2.Inv enableIPv6 := by
  unfold WireGuard.removePeer
  split
  · exact hi
  · dsimp only
    split
    · exact hi
    · rename_i hempty
      have hreg : Key.of data ∈ s.keys := by
        rcases s.get_spec (Key.of data) with ⟨hk, -, -⟩ | ⟨-, he⟩
        · exact hk
        · exact absurd he hempty
      have hv := get_mem hreg
      generalize s.get (Key.of data) = v at hv
      refine ⟨⟨?_, ?_, ?_, fun hon => ?_⟩, hi.counting.release _ _⟩
      · refine (Pool.release_reserved _ _).trans ?_
        rw [hi.v4]
        exact (toFinset_filter hv hi.distinct4).symm
      · refine (Pool.release_reserved _ _).trans ?_
        rw [hi.v6]
        cases enableIPv6 with
        | false => rfl
        | true => exact (toFinset_filter hv (hi.distinct6 rfl)).symm
      · exact hi.distinct4.sublist (List.filter_sublist.map _)
      · exact (hi.distinct6 hon).sublist (List.filter_sublist.map _)

theorem Inv.step (hi : s.Inv enableIPv6) (h : s.step enableIPv6 a = some s') :
    s'.Inv enableIPv6 := by
  cases a with
  | addPeer data c =>
      change (if Key.of data ∈ s.keys then none else some _) = some s' at h
      split at h
      · cases h
      · rename_i hnew
        cases h
        exact hi.addPeer hnew
  | removePeer data c =>
      cases h
      exact hi.removePeer

theorem inv_fresh {pool : IPPool} (h : pool.Unused) : (fresh pool).Inv enableIPv6 where
  v4 := h.2.1
  v6 := by
    refine h.2.2.trans ?_
    cases enableIPv6 with
    | false => rfl
    | true => rfl
  distinct4 := List.nodup_nil
  distinct6 _ := List.nodup_nil
  counting := h.1

/-- **After every call the reserved addresses are those of the peers**, and no two peers
share one, with pools of any size and whatever the tool does. -/
theorem addresses_accounted {pool : IPPool} (hpool : pool.Unused)
    (h : Steps.Reach (step enableIPv6) (fun _ _ => True) (fresh pool) s) :
    s.Accounted enableIPv6 :=
  (h.invariant (I := Inv enableIPv6) (inv_fresh hpool) fun hi _ hs => hi.step hs).toAccounted

/-- Two peers on a node's own pools, of which the first is removed again; a third one that
the tool does not take. -/
def threePeers : List Act :=
  [.addPeer (List.replicate 32 1) .working, .addPeer (List.replicate 32 2) .working,
    .removePeer (List.replicate 32 1) .working, .addPeer [] .working]

theorem addresses_accounted_threePeers :
    ∃ s : WireGuard, s.peers.length = 1 ∧ s.Accounted true := by
  obtain ⟨s, hreach, hp⟩ := Steps.exists_reach (step true) (fun _ _ => True) (fresh nodePool)
    threePeers (fun s => decide (s.peers.length = 1)) (by decide)
  exact ⟨s, of_decide_eq_true hp, addresses_accounted nodePool_unused hreach⟩

end WireGuard

end Dvpnd
