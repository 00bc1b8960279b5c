import Dvpnd.Lib.Masks
import Mathlib.Data.Finset.Basic
import Mathlib.Data.Nat.Digits.Lemmas
import Mathlib.Tactic.Common

/-!
# Tunnel addresses and the pools they come from

`services/wireguard/types/ip.go` and `ip_pool.go`.  A pool hands out the addresses
of its network in order and keeps the ones that come back for later.

* `IP.next` — the next address, the way `math/big` and `copy` compute it: the bytes
  of the number plus one, **without leading zeros**, over the front of the old
  ones.
* `IP.skip` — the loop that passes over addresses ending in 0 or 255;
  `IP.skip_usable`: three turns of it are enough from any address, strange ones
  included.
* `IPNet`, `Cidr`, `ipText` — networks and texts, as package `net` has them; `IsNet`, a network
  in its usual form, and `contains_iff`, what is in one.
* `Pool`, `IPPool` — the pools with `Get` and `Release`.
-/

namespace Dvpnd

/-! ## Addresses -/

/-- An address of `n` bytes: `IPv4` is `IP 4` and `IPv6` is `IP 16`. -/
structure IP (n : Nat) where
  bytes : List UInt8
  length_eq : bytes.length = n
  deriving DecidableEq

/-- The zero value, `IPv4{}` or `IPv6{}`. -/
def IP.zero (n : Nat) : IP n := ⟨List.replicate n 0, List.length_replicate⟩

/-- `SetBytes` of `big.Int`. -/
def setBytes (bytes : List UInt8) : Nat := bytes.foldl (fun v b => v * 256 + b.toNat) 0

/-- `Bytes` of `big.Int`: the digits to base 256, the most significant first. -/
def bigBytes (v : Nat) : List UInt8 := (Nat.digits 256 v).reverse.map UInt8.ofNat

/-- `copy(dst, src)`. -/
def copyBytes (dst src : List UInt8) : List UInt8 := (src ++ dst.drop src.length).take dst.length

theorem length_copyBytes (dst src : List UInt8) : (copyBytes dst src).length = dst.length := by
  simp only [copyBytes, List.length_take, List.length_append, List.length_drop]
  omega

/-- `Next`. -/
def IP.next {n : Nat} (ip : IP n) : IP n :=
  ⟨copyBytes ip.bytes (bigBytes (setBytes ip.bytes + 1)),
    (length_copyBytes _ _).trans ip.length_eq⟩

/-- The last byte of the address is 0 or 255. -/
def IP.edge (ip : IP 4) : Bool := ip.bytes.getD 3 0 == 0 || ip.bytes.getD 3 0 == 255

/-- The loop of the IPv4 pool that moves on from an edge. -/
def IP.skip : Nat → IP 4 → IP 4
  | 0, ip => ip
  | fuel + 1, ip => if ip.edge then skip fuel ip.next else ip

/-! ### The loop ends -/

/-- The last byte is the remainder; the others write the quotient. -/
theorem bigBytes_of_pos {v : Nat} (hv : 0 < v) :
    bigBytes v = bigBytes (v / 256) ++ [UInt8.ofNat v] := by
  simp only [bigBytes, Nat.digits_def' (by decide : 1 < 256) hv, List.reverse_cons, List.map_append,
    List.map_cons, List.map_nil]
  rw [show UInt8.ofNat (v % 256) = UInt8.ofNat v from UInt8.ofNat_mod_size]

/-- There are no leading zeros. -/
theorem bigBytes_head {v : Nat} (hv : 0 < v) : ∃ b t, bigBytes v = b :: t ∧ b ≠ 0 := by
  induction v using Nat.strongRecOn with
  | _ v ih =>
      rw [bigBytes_of_pos hv]
      by_cases hq : v / 256 = 0
      · refine ⟨UInt8.ofNat v, [], by rw [hq]; rfl, fun h => ?_⟩
        have hmod := congrArg UInt8.toNat h
        simp only [UInt8.toNat_ofNat', UInt8.toNat_zero] at hmod
        omega
      · obtain ⟨b, t, heq, hb⟩ := ih (v / 256) (Nat.div_lt_self hv (by decide)) (by omega)
        exact ⟨b, t ++ [UInt8.ofNat v], by rw [heq]; rfl, hb⟩

/-- So a next address never starts with 0, -/
theorem IP.next_first (ip : IP 4) : ip.next.bytes.getD 0 0 ≠ 0 := by
  obtain ⟨b, t, heq, hb⟩ := bigBytes_head (Nat.succ_pos (setBytes ip.bytes))
  show (copyBytes ip.bytes (bigBytes (setBytes ip.bytes + 1))).getD 0 0 ≠ 0
  rw [heq, copyBytes, ip.length_eq]
  exact hb

/-- and from an address that does not, `Next` counts up the last byte. -/
theorem IP.next_last {ip : IP 4} (hfirst : ip.bytes.getD 0 0 ≠ 0) :
    ip.next.bytes.getD 3 0 = ip.bytes.getD 3 0 + 1 := by
  obtain ⟨bytes, hlen⟩ := ip
  obtain ⟨a, b, c, d, rfl⟩ : ∃ a b c d, bytes = [a, b, c, d] := by
    match bytes, hlen with
    | [a, b, c, d], _ => exact ⟨a, b, c, d, rfl⟩
  have ha : 0 < a.toNat := Nat.pos_iff_ne_zero.2 fun h => hfirst (UInt8.toNat_inj.1 h)
  have := a.toNat_lt
  have := b.toNat_lt
  have := c.toNat_lt
  have := d.toNat_lt
  have hset : setBytes [a, b, c, d] =
      ((a.toNat * 256 + b.toNat) * 256 + c.toNat) * 256 + d.toNat := by
    simp [setBytes]
  show (copyBytes [a, b, c, d] (bigBytes (setBytes [a, b, c, d] + 1))).getD 3 0 = d + 1
  generalize hv : setBytes [a, b, c, d] + 1 = v
  have hd : UInt8.ofNat v = d + 1 := by
    apply UInt8.toNat_inj.1
    simp only [UInt8.toNat_ofNat', UInt8.toNat_add, UInt8.toNat_one]
    omega
  by_cases hlt : v < 256 ^ 4
  · have hbytes : bigBytes v = [UInt8.ofNat (v / 256 / 256 / 256), UInt8.ofNat (v / 256 / 256),
        UInt8.ofNat (v / 256), UInt8.ofNat v] := by
      rw [bigBytes_of_pos (by omega), bigBytes_of_pos (v := v / 256) (by omega),
        bigBytes_of_pos (v := v / 256 / 256) (by omega),
        bigBytes_of_pos (v := v / 256 / 256 / 256) (by omega),
        show v / 256 / 256 / 256 / 256 = 0 by omega]
      rfl
    rw [hbytes, ← hd]
    rfl
  · -- after 255.255.255.255 the fifth byte is cut off, and 1.0.0.0 is left
    obtain rfl : v = 256 ^ 4 := by omega
    rw [← hd, show bigBytes (256 ^ 4) = [1, 0, 0, 0, 0] by decide]
    rfl

/-- Behind an edge there is at most one more. -/
theorem IP.edge_next_next {ip : IP 4} (hfirst : ip.bytes.getD 0 0 ≠ 0) (h : ip.edge = true)
    (h' : ip.next.edge = true) : ip.next.next.edge = false := by
  unfold edge at h h' ⊢
  rw [next_last ip.next_first, next_last hfirst]
  rw [next_last hfirst] at h'
  simp only [Bool.or_eq_true, beq_iff_eq] at h
  rcases h with h | h
  · rw [h] at h'
    cases h'
  · rw [h]
    rfl

/-- **The loop ends**: three turns lead past the edges from any address. -/
theorem IP.skip_usable (ip : IP 4) : (ip.skip 3).edge = false := by
  simp only [skip]
  split
  · split
    · split
      · exact edge_next_next ip.next_first ‹_› ‹_›
      · exact Bool.not_eq_true _ ▸ ‹_›
    · exact Bool.not_eq_true _ ▸ ‹_›
  · exact Bool.not_eq_true _ ▸ ‹_›

/-! ## Networks -/

/-- `To4`: the four bytes of an IPv4 address, also when it is written as an IPv6
one. -/
def to4 (ip : List UInt8) : Option (List UInt8) :=
  if ip.length = 4 then some ip
  else if ip.length = 16 ∧ ip.take 12 = List.replicate 10 0 ++ [255, 255] then some (ip.drop 12)
  else none

/-- `net.IPNet`. -/
structure IPNet where
  ip : List UInt8
  mask : List UInt8
  deriving DecidableEq

/-- `networkNumberAndMask`. -/
def IPNet.numberAndMask (n : IPNet) : Option (List UInt8 × List UInt8) :=
  let ip := (to4 n.ip).getD n.ip
  if ip.length ≠ 4 ∧ ip.length ≠ 16 then none
  else if n.mask.length = 4 ∧ ip.length = 4 then some (ip, n.mask)
  else if n.mask.length = 16 then some (ip, if ip.length = 4 then n.mask.drop 12 else n.mask)
  else none

/-- `Contains`. -/
def IPNet.contains (n : IPNet) (ip : List UInt8) : Bool :=
  let ip := (to4 ip).getD ip
  match n.numberAndMask with
  | none => false
  | some (number, mask) =>
      ip.length == number.length &&
        List.zipWith (· &&& ·) number mask == List.zipWith (· &&& ·) ip mask

/-- What `net.ParseCIDR` reads in a plain CIDR: an address, which is of four bytes or is an
IPv6 address that stands for no IPv4 one, and the length of the network's part. -/
structure Cidr where
  ip : List UInt8
  ones : Nat
  plain : ip.length = 4 ∧ ones ≤ 32 ∨ ip.length = 16 ∧ to4 ip = none ∧ ones ≤ 128

/-- `net.CIDRMask`, for an address of so many bytes. -/
def cidrMask (ones bytes : Nat) : List UInt8 := Masks.ofOnes ones bytes

/-- The network of the address. -/
def Cidr.net (c : Cidr) : IPNet :=
  ⟨Masks.both c.ip (cidrMask c.ones c.ip.length), cidrMask c.ones c.ip.length⟩

/-- A network in the form package `net` keeps it: an address of so many bytes that stands for
itself, under a mask whose ones come first. -/
def IsNet (len : Nat) (n : IPNet) : Prop :=
  n.ip.length = len ∧ (to4 n.ip).getD n.ip = n.ip ∧ ∃ ones, n.mask = cidrMask ones len

theorem isNet_four {ip : List UInt8} (h : ip.length = 4) (ones : Nat) :
    IsNet 4 ⟨ip, cidrMask ones 4⟩ := ⟨h, by rw [to4, if_pos h]; rfl, ones, rfl⟩

/-- An address is in the network when it has its bytes and agrees with it under the mask. -/
theorem contains_iff {len : Nat} {n : IPNet} (hlen : len = 4 ∨ len = 16) (hn : IsNet len n)
    (ip : List UInt8) : n.contains ip = true ↔
      ((to4 ip).getD ip).length = len ∧
        Masks.both n.ip n.mask = Masks.both ((to4 ip).getD ip) n.mask := by
  obtain ⟨hip, hown, ones, hmask⟩ := hn
  have hmasklen : n.mask.length = len := by rw [hmask, cidrMask, Masks.length_ofOnes]
  have hnumber : n.numberAndMask = some (n.ip, n.mask) := by
    rcases hlen with rfl | rfl
    · simp [IPNet.numberAndMask, hown, hip, hmasklen]
    · simp [IPNet.numberAndMask, hown, hip, hmasklen]
  simp [IPNet.contains, hnumber, hip, Masks.both]

/-- An address that is not compared as four bytes, or has no more, is compared as it is. -/
theorem self_of_length {ip : List UInt8} (h : ((to4 ip).getD ip).length ≠ 4 ∨ ip.length = 4) :
    (to4 ip).getD ip = ip := by
  unfold to4 at h ⊢
  split
  · rfl
  · rename_i hfour
    rw [if_neg hfour] at h
    split
    · rename_i hmapped
      rw [if_pos hmapped, Option.getD_some, List.length_drop, hmapped.1] at h
      omega
    · rfl

/-- The same of another network's number, -/
theorem contains_number {len : Nat} {n m : IPNet} (hlen : len = 4 ∨ len = 16) (hn : IsNet len n)
    (hm : IsNet len m) :
    n.contains m.ip = true ↔ Masks.both n.ip n.mask = Masks.both m.ip n.mask := by
  rw [contains_iff hlen hn, hm.2.1]
  exact and_iff_right hm.1

/-- and its own. -/
theorem contains_self {len : Nat} {n : IPNet} (hlen : len = 4 ∨ len = 16) (hn : IsNet len n) :
    n.contains n.ip = true := (contains_number hlen hn hn).2 rfl

/-! ### Texts -/

/-- Eight groups of sixteen bits. -/
def groups : List UInt8 → List Nat
  | a :: b :: rest => (a.toNat * 256 + b.toNat) :: groups rest
  | _ => []

/-- The zeros from a group on. -/
def zerosFrom (gs : List Nat) (i : Nat) : Nat := ((gs.drop i).takeWhile (· == 0)).length

/-- The first of the longest runs of two zero groups or more: where it starts and its
length. -/
def zeroRun (gs : List Nat) : Nat × Nat :=
  (List.range 8).foldl
    (fun best i => if 2 ≤ zerosFrom gs i ∧ best.2 < zerosFrom gs i then (i, zerosFrom gs i) else best)
    (0, 0)

/-- Groups in hexadecimal with colons between them. -/
def colons (gs : List Nat) : String :=
  ":".intercalate (gs.map fun g => String.ofList (Nat.toDigits 16 g))

/-- `IP.String`, of an address of 4 or 16 bytes. -/
def ipText (ip : List UInt8) : String :=
  match to4 ip with
  | some b => ".".intercalate (b.map fun x => toString x.toNat)
  | none =>
      let gs := groups ip
      let (start, len) := zeroRun gs
      if len = 0 then colons gs
      else colons (gs.take start) ++ "::" ++ colons (gs.drop (start + len))

/-- The CIDR as it is written. -/
def Cidr.text (c : Cidr) : String := ipText c.ip ++ "/" ++ toString c.ones

/-! ## Pools -/

/-- `IPv4Pool` and `IPv6Pool`. -/
structure Pool (n : Nat) where
  net : IPNet
  current : IP n
  available : List (IP n) := []
  reserved : Finset (IP n) := ∅

/-- `Get` of both pools, which differ in the addresses they pass over and in what
they say when the network is used up. -/
def Pool.getWith {n : Nat} (settle : IP n → IP n) (full : String) (p : Pool n) :
    Except String (IP n) × Pool n :=
  match p.available with
  | [] =>
      let ip := settle p.current
      if p.net.contains ip.bytes then
        (.ok ip, { p with current := ip.next, reserved := insert ip p.reserved })
      else (.error full, { p with current := ip })
  | ip :: rest => (.ok ip, { p with available := rest, reserved := insert ip p.reserved })

/-- The three ways of `Get`: from the list, from the cursor, or not at all. -/
theorem Pool.getWith_cases {n : Nat} (settle : IP n → IP n) (full : String) (p : Pool n) :
    (∃ ip rest, p.available = ip :: rest ∧ p.getWith settle full =
      (.ok ip, { p with available := rest, reserved := insert ip p.reserved })) ∨
    (p.available = [] ∧ p.net.contains (settle p.current).bytes = true ∧ p.getWith settle full =
      (.ok (settle p.current), { p with
        current := (settle p.current).next, reserved := insert (settle p.current) p.reserved })) ∨
    (p.available = [] ∧ p.net.contains (settle p.current).bytes = false ∧ p.getWith settle full =
      (.error full, { p with current := settle p.current })) := by
  unfold getWith
  split
  · rename_i havail
    dsimp only
    split
    · rename_i hin
      exact .inr (.inl ⟨havail, hin, rfl⟩)
    · rename_i hout
      exact .inr (.inr ⟨havail, Bool.eq_false_iff.2 hout, rfl⟩)
  · rename_i ip rest havail
    exact .inl ⟨ip, rest, havail, rfl⟩

/-- `IPv4Pool.Get`. -/
def Pool.get4 : Pool 4 → Except String (IP 4) × Pool 4 := getWith (IP.skip 3) "ipv4 pool is pull"

/-- `IPv6Pool.Get`. -/
def Pool.get6 : Pool 16 → Except String (IP 16) × Pool 16 := getWith id "ipv6 pool is pull"

/-- `Release`: only an address that is out comes back. -/
def Pool.release {n : Nat} (p : Pool n) (ip : IP n) : Pool n :=
  if ip ∈ p.reserved then
    { p with reserved := p.reserved.erase ip, available := p.available ++ [ip] }
  else p

/-- `IPPool`. -/
structure IPPool where
  v4 : Pool 4
  v6 : Pool 16

/-- `IPPool.Get`: an address of each family, or of none. -/
def IPPool.get (p : IPPool) : Except String (IP 4 × IP 16) × IPPool :=
  match p.v4.get4 with
  | (.error e, v4) => (.error e, { p with v4 := v4 })
  | (.ok ip4, v4) =>
      match p.v6.get6 with
      | (.error e, v6) => (.error e, ⟨v4.release ip4, v6⟩)
      | (.ok ip6, v6) => (.ok (ip4, ip6), ⟨v4, v6⟩)

/-- `IPPool.Release`. -/
def IPPool.release (p : IPPool) (ip4 : IP 4) (ip6 : IP 16) : IPPool :=
  ⟨p.v4.release ip4, p.v6.release ip6⟩

end Dvpnd
