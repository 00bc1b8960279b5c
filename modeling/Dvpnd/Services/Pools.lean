import Dvpnd.Services.Addresses
import Dvpnd.Services.Subnets

/-!
# Every address of a pool is served

A pool draws from a cursor that only moves on, and keeps what comes back in a list
(`services/wireguard/types/ip_pool.go`).  Behind the cursor nothing is lost: **what a client
could be given is in the list, is out, or is still ahead.**

* `IPNet.Private`, `numbered_of_private` — a private network is a range away from both ends of
  the numbers, so that the cursor does not come round in it.
* `Offered` — the addresses a pool is for: in its network, not before the start, and not one it
  passes over.
* `Pool.Covering` — the invariant; `Drawn.Inv.step` for each call.
* `pools_serve` — **in every run `Get` returns an address on offer that is not out, and fails
  exactly when all of them are.**
-/

namespace Dvpnd

/-! ## Private networks -/

/-- All addresses of the network are private. -/
def IPNet.Private (net : IPNet) : Prop := ∀ ip, net.contains ip = true → isPrivate ip = true

/-- There is an address for every number. -/
theorem IP.exists_value {n v : Nat} (h : v < 256 ^ n) : ∃ ip : IP n, ip.value = v := by
  induction n generalizing v with
  | zero => exact ⟨⟨[], rfl⟩, by rw [pow_zero] at h; exact (Nat.lt_one_iff.1 h).symm⟩
  | succ n ih =>
      rw [pow_succ] at h
      obtain ⟨ip, hip⟩ := ih (v := v / 256) (Nat.div_lt_of_lt_mul (by rwa [Nat.mul_comm]))
      refine ⟨⟨ip.bytes ++ [UInt8.ofNat v], by rw [List.length_append, ip.length_eq]; rfl⟩, ?_⟩
      show setBytes (ip.bytes ++ [UInt8.ofNat v]) = v
      rw [setBytes_concat, show setBytes ip.bytes = v / 256 from hip, UInt8.toNat_ofNat']
      omega

/-- An address is its number. -/
theorem IP.value_inj {n : Nat} {ip ip' : IP n} (h : ip.value = ip'.value) : ip = ip' := by
  have hbytes := (both_eq_iff (8 * n) ip.length_eq ip'.length_eq).2
    (congrArg (· / 2 ^ (8 * n - 8 * n)) h)
  have heq := Masks.eq_of_both ip.length_eq ip'.length_eq hbytes fun i hi => ?_
  · cases ip
    cases ip'
    cases heq
    rfl
  · rw [List.getD_eq_default _ 0 (by rw [ip.length_eq]; omega),
      List.getD_eq_default _ 0 (by rw [ip'.length_eq]; omega)]

/-- The first byte of an address, by its number. -/
theorem IP.first_of_value {n : Nat} (ip : IP (n + 1)) :
    (ip.bytes.getD 0 0).toNat * 256 ^ n ≤ ip.value ∧
      ip.value < ((ip.bytes.getD 0 0).toNat + 1) * 256 ^ n := by
  obtain ⟨bytes, hlen⟩ := ip
  match bytes, hlen with
  | b :: rest, hlen =>
      have hrest := setBytes_lt rest
      have hn : rest.length = n := Nat.succ.inj hlen
      show b.toNat * 256 ^ n ≤ setBytes (b :: rest) ∧ setBytes (b :: rest) < (b.toNat + 1) * 256 ^ n
      rw [setBytes_cons, hn, Nat.succ_mul]
      rw [hn] at hrest
      omega

/-- An IPv6 address of a large number is not an IPv4 one. -/
theorem IP.self_of_value {n : Nat} (hlen : n + 1 = 4 ∨ n + 1 = 16) {ip : IP (n + 1)}
    (h : 256 ^ n ≤ ip.value + 1) : (to4 ip.bytes).getD ip.bytes = ip.bytes := by
  rcases hlen with hfour | hsixteen
  · exact self_of_length (.inr (ip.length_eq.trans hfour))
  · obtain rfl : n = 15 := by omega
    have hnone : to4 ip.bytes = none := by
      rw [to4, ip.length_eq, if_neg (by decide), if_neg]
      rintro ⟨-, htake⟩
      have hvalue : ip.value = setBytes (ip.bytes.take 12) * 256 ^ 4 + setBytes (ip.bytes.drop 12) := by
        have happ := setBytes_append (ip.bytes.take 12) (ip.bytes.drop 12)
        rwa [List.take_append_drop, List.length_drop, ip.length_eq] at happ
      have hlast := setBytes_lt (ip.bytes.drop 12)
      rw [List.length_drop, ip.length_eq] at hlast
      rw [htake, show setBytes (List.replicate 10 0 ++ [255, 255]) = 65535 by decide] at hvalue
      omega
    rw [hnone]
    rfl

theorem first_of_uniqueLocal : ∀ b < 256,
    UInt8.ofNat b &&& 0xfe = 0xfc → 1 ≤ b ∧ b + 1 ≤ 254 := by decide +kernel

/-- A private address begins neither with 0 nor with 254 or 255. -/
theorem value_of_private {n : Nat} {ip : IP (n + 1)}
    (hself : (to4 ip.bytes).getD ip.bytes = ip.bytes) (h : isPrivate ip.bytes = true) :
    256 ^ n ≤ ip.value ∧ ip.value < 254 * 256 ^ n := by
  have hfirst : 1 ≤ (ip.bytes.getD 0 0).toNat ∧ (ip.bytes.getD 0 0).toNat + 1 ≤ 254 := by
    cases hto4 : to4 ip.bytes with
    | none =>
        have hbyte := ((isPrivate_six hto4).1 h).2
        refine first_of_uniqueLocal _ (UInt8.toNat_lt _) ?_
        rwa [UInt8.ofNat_toNat]
    | some b =>
        rw [hto4, Option.getD_some] at hself
        rw [isPrivate, hto4, hself] at h
        simp only [Bool.or_eq_true, Bool.and_eq_true, beq_iff_eq] at h
        rcases h with (h | ⟨h, -⟩) | ⟨h, -⟩
        · rw [h]; decide
        · rw [h]; decide
        · rw [h]; decide
  obtain ⟨hlo, hhi⟩ := ip.first_of_value
  have hpos : 0 < 256 ^ n := Nat.pow_pos (by decide)
  constructor
  · exact (Nat.le_mul_of_pos_left _ hfirst.1).trans hlo
  · exact hhi.trans_le (Nat.mul_le_mul_right _ hfirst.2)

/-- **A private network is a range away from the ends**: an address that begins with 0 or 254
would be in a wider one. -/
theorem numbered_of_private {n ones : Nat} {net : IPNet} (hlen : n + 1 = 4 ∨ n + 1 = 16)
    (hnet : IsNet (n + 1) net) (hmask : net.mask = cidrMask ones (n + 1))
    (hprivate : net.Private) :
    Numbered n net (firstValue (n + 1) ones net.ip)
      (firstValue (n + 1) ones net.ip + 2 ^ (8 * (n + 1) - ones)) ∧
    ∀ ip : IP (n + 1), firstValue (n + 1) ones net.ip ≤ ip.value →
      ip.value < firstValue (n + 1) ones net.ip + 2 ^ (8 * (n + 1) - ones) →
      net.contains ip.bytes = true := by
  have hrange := contains_range hlen hnet hmask
  generalize firstValue (n + 1) ones net.ip = lo at hrange ⊢
  generalize lo + 2 ^ (8 * (n + 1) - ones) = hi at hrange ⊢
  have hpow : 256 ≤ 256 ^ n := Nat.le_self_pow (by omega) 256
  have hsucc : 256 ^ (n + 1) = 256 * 256 ^ n := by rw [pow_succ, Nat.mul_comm]
  have hin : ∀ ip : IP (n + 1), 256 ^ n ≤ ip.value + 1 → lo ≤ ip.value → ip.value < hi →
      net.contains ip.bytes = true := fun ip hself hlo hhi =>
    (hrange ip).2 ⟨ip.self_of_value hlen hself, hlo, hhi⟩
  have hout : ∀ ip : IP (n + 1), net.contains ip.bytes = true →
      256 ^ n ≤ ip.value ∧ ip.value < 254 * 256 ^ n := fun ip h =>
    value_of_private ((hrange ip).1 h).1 (hprivate _ h)
  have hnumber := contains_self hlen hnet
  obtain ⟨-, hlo, hhi⟩ := (hrange ⟨net.ip, hnet.1⟩).1 hnumber
  obtain ⟨hge, hlt⟩ := hout ⟨net.ip, hnet.1⟩ hnumber
  have hfirst : 256 ^ n ≤ lo := by
    by_contra hlow
    obtain ⟨ip, hip⟩ := IP.exists_value (n := n + 1) (v := 256 ^ n - 1) (by omega)
    have := hout ip (hin ip (by omega) (by omega) (by omega))
    omega
  have hlast : hi + 6 < 256 ^ (n + 1) := by
    by_contra hhigh
    obtain ⟨ip, hip⟩ := IP.exists_value (n := n + 1) (v := 254 * 256 ^ n) (by omega)
    have := hout ip (hin ip (by omega) (by omega) (by omega))
    omega
  exact ⟨⟨hfirst, hlast, fun ip h => ((hrange ip).1 h).2⟩, fun ip h h' => hin ip (by omega) h h'⟩

/-! ## What a pool offers -/

/-- The addresses a pool is for: those of its network from the start on that it does not pass
over. -/
structure Offered {n : Nat} (usable : IP n → Bool) (net : IPNet) (start ip : IP n) : Prop where
  inside : net.contains ip.bytes = true
  after : start.value ≤ ip.value
  usable : usable ip = true

/-- What a pool passes over is not usable, and what it stops at is. -/
structure Passes {n : Nat} (settle : IP (n + 1) → IP (n + 1)) (usable : IP (n + 1) → Bool) : Prop
    extends Settles settle where
  stops : ∀ ip, usable (settle ip) = true
  skips : ∀ ip x : IP (n + 1), 256 ^ n ≤ ip.value → ip.value + 3 < 256 ^ (n + 1) →
    ip.value ≤ x.value → x.value < (settle ip).value → usable x = false

theorem passes_id {n : Nat} : Passes (n := n) id fun _ => true where
  toSettles := settles_id
  stops _ := rfl
  skips _ _ _ _ hge hlt := absurd hlt (Nat.not_lt.2 hge)

/-- The loop of the IPv4 pool passes over edges. -/
theorem IP.skip_edges (fuel : Nat) {ip x : IP 4} (hlo : 256 ^ 3 ≤ ip.value)
    (hhi : ip.value + fuel < 256 ^ 4) (hge : ip.value ≤ x.value)
    (hlt : x.value < (ip.skip fuel).value) : x.edge = true := by
  induction fuel generalizing ip with
  | zero => exact absurd hlt (Nat.not_lt.2 hge)
  | succ fuel ih =>
      rw [skip] at hlt
      split at hlt
      · rename_i hedge
        rcases Nat.eq_or_lt_of_le hge with heq | hgt
        · rwa [← IP.value_inj heq]
        · have hnext := IP.next_value (n := 3) hlo (by omega)
          exact ih (by omega) (by omega) (by omega) hlt
      · exact absurd hlt (Nat.not_lt.2 hge)

theorem passes_skip : Passes (n := 3) (IP.skip 3) fun ip => !ip.edge where
  toSettles := settles_skip
  stops ip := by rw [IP.skip_usable ip]; rfl
  skips ip x hlo hhi hge hlt := by rw [IP.skip_edges 3 hlo hhi hge hlt]; rfl

namespace Pool

/-- What is on offer behind the cursor is in the list or out, and nothing else is. -/
structure Covering {n : Nat} (settle : IP (n + 1) → IP (n + 1)) (usable : IP (n + 1) → Bool)
    (lo hi : Nat) (start : IP (n + 1)) (p : Pool (n + 1)) : Prop
    extends p.Counting settle lo hi where
  whole : ∀ ip : IP (n + 1), lo ≤ ip.value → ip.value < hi → p.net.contains ip.bytes = true
  begun : start.value ≤ p.current.value
  offered : ∀ {ip}, ip ∈ p.available ∨ ip ∈ p.reserved → Offered usable p.net start ip
  covered : ∀ {ip}, Offered usable p.net start ip → ip.value < p.current.value →
    ip ∈ p.available ∨ ip ∈ p.reserved

variable {n lo hi : Nat} {settle : IP (n + 1) → IP (n + 1)} {usable : IP (n + 1) → Bool}
  {full : String} {start ip : IP (n + 1)} {p p' : Pool (n + 1)}

/-- A pool from which nothing was drawn. -/
theorem Covering.new {net : IPNet} (hnet : Numbered n net lo hi)
    (hwhole : ∀ ip : IP (n + 1), lo ≤ ip.value → ip.value < hi → net.contains ip.bytes = true)
    (hstart : lo ≤ start.value ∧ start.value < hi) :
    Covering settle usable lo hi start { net, current := start } where
  toCounting := Counting.new hnet hstart.1 hstart.2.le
  whole := hwhole
  begun := Nat.le_refl _
  offered h := by
    rcases h with h | h
    · cases h
    · exact absurd h (Finset.notMem_empty _)
  covered h hlt := absurd hlt (Nat.not_lt.2 h.after)

/-- The cursor may move past what is not usable. -/
theorem Covering.passed (hs : Passes settle usable) (hc : p.Covering settle usable lo hi start)
    (hip : Offered usable p.net start ip) (hlt : ip.value < (settle p.current).value) :
    ip ∈ p.available ∨ ip ∈ p.reserved := by
  refine hc.covered hip (Nat.lt_of_not_le fun hge => ?_)
  have hfirst := hc.numbered.first
  have hlast := hc.numbered.last
  have hlow := hc.low
  rcases hc.high with hle | ⟨heq, -⟩
  · have hskip := hs.skips p.current ip (by omega) (by omega) hge hlt
    rw [hip.usable] at hskip
    cases hskip
  · rw [heq] at hlt
    exact absurd hlt (Nat.not_lt.2 hge)

/-- An address from the list was on offer, and stays accounted for. -/
theorem Covering.pop (hc : p.Covering settle usable lo hi start) {rest : List (IP (n + 1))}
    (havail : p.available = ip :: rest) : Offered usable p.net start ip ∧
      Covering settle usable lo hi start
        { p with available := rest, reserved := insert ip p.reserved } := by
  have hoffer := hc.offered (.inl (havail ▸ List.mem_cons_self))
  refine ⟨hoffer, { (Counting.pop hc.toCounting havail).2 with
    whole := hc.whole, begun := hc.begun, offered := fun {y} hy => ?_
    covered := fun {y} hy hlt => ?_ }⟩
  · rcases hy with hy | hy
    · exact hc.offered (.inl (havail ▸ List.mem_cons_of_mem _ hy))
    · rcases Finset.mem_insert.1 hy with rfl | hy
      · exact hoffer
      · exact hc.offered (.inr hy)
  · rcases hc.covered hy hlt with hmem | hmem
    · rw [havail] at hmem
      rcases List.mem_cons.1 hmem with rfl | hmem
      · exact .inr (Finset.mem_insert_self _ _)
      · exact .inl hmem
    · exact .inr (Finset.mem_insert_of_mem hmem)

/-- So is one from the cursor. -/
theorem Covering.advance (hs : Passes settle usable) (hc : p.Covering settle usable lo hi start)
    (havail : p.available = []) (hin : p.net.contains (settle p.current).bytes = true) :
    Offered usable p.net start (settle p.current) ∧ Covering settle usable lo hi start { p with
      current := (settle p.current).next, reserved := insert (settle p.current) p.reserved } := by
  obtain ⟨hge, -⟩ := Counting.settled hs.toSettles hc.toCounting
  have hbegun := hc.begun
  have hnext := Counting.next_value hc.toCounting hin
  have hoffer : Offered usable p.net start (settle p.current) := ⟨hin, hbegun.trans hge, hs.stops _⟩
  refine ⟨hoffer, { (Counting.advance hs.toSettles hc.toCounting havail hin).2 with
    whole := hc.whole, begun := ?_, offered := fun {y} hy => ?_
    covered := fun {y} hy hlt => ?_ }⟩
  · show start.value ≤ (settle p.current).next.value
    omega
  · rcases hy with hy | hy
    · exact hc.offered (.inl hy)
    · rcases Finset.mem_insert.1 hy with rfl | hy
      · exact hoffer
      · exact hc.offered (.inr hy)
  · have hle : y.value ≤ (settle p.current).value :=
      Nat.le_of_lt_succ (Nat.lt_of_lt_of_eq hlt hnext)
    rcases Nat.eq_or_lt_of_le hle with hsame | hbelow
    · rw [IP.value_inj hsame]
      exact .inr (Finset.mem_insert_self _ _)
    · rcases hc.passed hs hy hbelow with hmem | hmem
      · exact .inl hmem
      · exact .inr (Finset.mem_insert_of_mem hmem)

/-- **`Get` returns an address on offer that is not out.** -/
theorem Covering.get_ok (hs : Passes settle usable) (hc : p.Covering settle usable lo hi start)
    (h : p.getWith settle full = (.ok ip, p')) :
    Offered usable p.net start ip ∧ ip ∉ p.reserved ∧ p'.reserved = insert ip p.reserved ∧
      p'.net = p.net ∧ p'.Covering settle usable lo hi start := by
  obtain ⟨hfresh, hres, -⟩ := Counting.get_ok hs.toSettles hc.toCounting h
  rcases getWith_cases settle full p with
    ⟨x, rest, havail, heq⟩ | ⟨havail, hin, heq⟩ | ⟨-, -, heq⟩
  · cases heq.symm.trans h
    obtain ⟨hoffer, hcover⟩ := hc.pop havail
    exact ⟨hoffer, hfresh, hres, rfl, hcover⟩
  · cases heq.symm.trans h
    obtain ⟨hoffer, hcover⟩ := hc.advance hs havail hin
    exact ⟨hoffer, hfresh, hres, rfl, hcover⟩
  · cases heq.symm.trans h

/-- **`Get` fails when everything on offer is out**: the cursor is behind the network. -/
theorem Covering.get_error (hs : Passes settle usable) (hc : p.Covering settle usable lo hi start)
    {e : String} (h : p.getWith settle full = (.error e, p')) :
    (∀ x, Offered usable p.net start x → x ∈ p.reserved) ∧ p'.reserved = p.reserved ∧
      p'.net = p.net ∧ p'.Covering settle usable lo hi start := by
  obtain ⟨hres, hcount⟩ := Counting.get_error hs.toSettles hc.toCounting h
  rcases getWith_cases settle full p with ⟨x, rest, -, heq⟩ | ⟨-, -, heq⟩ | ⟨havail, hout, heq⟩
  · cases heq.symm.trans h
  · cases heq.symm.trans h
  · cases heq.symm.trans h
    obtain ⟨hge, -⟩ := Counting.settled hs.toSettles hc.toCounting
    have hlow := hc.low
    have hend : hi ≤ (settle p.current).value := by
      by_contra hlt
      rw [hc.whole _ (by omega) (by omega)] at hout
      cases hout
    refine ⟨fun x hx => ?_, rfl, rfl, { hcount with
      whole := hc.whole, begun := hc.begun.trans hge, offered := hc.offered
      covered := hc.passed hs }⟩
    have hx' := (hc.numbered.mem _ hx.inside).2
    rcases hc.passed hs hx (by omega) with hmem | hmem
    · rw [havail] at hmem
      cases hmem
    · exact hmem

variable (full) in
/-- With nothing given back and something on offer ahead, `Get` returns what the cursor comes to
next. -/
theorem Covering.get_ahead (hs : Passes settle usable) (hc : p.Covering settle usable lo hi start)
    (havail : p.available = []) (hip : Offered usable p.net start ip)
    (hahead : p.current.value ≤ ip.value) :
    p.getWith settle full = (.ok (settle p.current), { p with
      current := (settle p.current).next, reserved := insert (settle p.current) p.reserved }) ∧
    (settle p.current).value ≤ ip.value ∧
    (settle p.current).next.value = (settle p.current).value + 1 := by
  have hfree : ip ∉ p.reserved := fun hmem => absurd (hc.below (.inr hmem)) (Nat.not_lt.2 hahead)
  rcases getWith_cases settle full p with
    ⟨x, rest, hcons, -⟩ | ⟨-, hin, heq⟩ | ⟨-, -, heq⟩
  · rw [havail] at hcons
    cases hcons
  · refine ⟨heq, Nat.le_of_not_lt fun hlt => ?_, Counting.next_value hc.toCounting hin⟩
    rcases hc.passed hs hip hlt with hmem | hmem
    · rw [havail] at hmem
      cases hmem
    · exact hfree hmem
  · exact absurd ((hc.get_error hs heq).1 ip hip) hfree

/-- `Release` keeps what it takes back on offer. -/
theorem Covering.release (hc : p.Covering settle usable lo hi start) (ip : IP (n + 1)) :
    (p.release ip).Covering settle usable lo hi start := by
  have hcount := Counting.release hc.toCounting ip
  unfold Pool.release at hcount ⊢
  split
  · rename_i hres
    rw [if_pos hres] at hcount
    refine { hcount with
      whole := hc.whole, begun := hc.begun, offered := fun {y} hy => ?_
      covered := fun {y} hy hlt => ?_ }
    · rcases hy with hy | hy
      · rcases List.mem_append.1 hy with hy | hy
        · exact hc.offered (.inl hy)
        · rw [List.mem_singleton.1 hy]
          exact hc.offered (.inr hres)
      · exact hc.offered (.inr (Finset.mem_of_mem_erase hy))
    · rcases hc.covered hy hlt with hmem | hmem
      · exact .inl (List.mem_append_left _ hmem)
      · by_cases heq : y = ip
        · exact .inl (List.mem_append_right _ (List.mem_singleton.2 heq))
        · exact .inr (Finset.mem_erase.2 ⟨heq, hmem⟩)
  · exact hc

end Pool

/-! ## Runs -/

/-- A pool and the addresses that were returned by `Get` and not given back. -/
structure Drawn (n : Nat) where
  pool : Pool n
  out : Finset (IP n)

namespace Drawn

/-- A call of the pool. -/
inductive Act (n : Nat)
  | get
  | release (ip : IP n)

/-- A pool as `NewIPv4Pool` or `NewIPv6Pool` makes it. -/
def fresh {n : Nat} (net : IPNet) (start : IP n) : Drawn n := ⟨{ net, current := start }, ∅⟩

/-- What a call leaves. -/
def step {n : Nat} (get : Pool n → Except String (IP n) × Pool n) (s : Drawn n) :
    Act n → Option (Drawn n)
  | .get =>
      match get s.pool with
      | (.ok ip, p) => some ⟨p, insert ip s.out⟩
      | (.error _, p) => some ⟨p, s.out⟩
  | .release ip => some ⟨s.pool.release ip, s.out.erase ip⟩

/-- The next `Get` returns an address on offer that is not out, or all of them are. -/
def Serves {n : Nat} (get : Pool n → Except String (IP n) × Pool n) (usable : IP n → Bool)
    (net : IPNet) (start : IP n) (s : Drawn n) : Prop :=
  (∀ ip, (get s.pool).1 = .ok ip → Offered usable net start ip ∧ ip ∉ s.out) ∧
    ((∃ e, (get s.pool).1 = .error e) ↔ ∀ ip, Offered usable net start ip → ip ∈ s.out)

/-- The pool's own books are right. -/
structure Inv {n : Nat} (settle : IP (n + 1) → IP (n + 1)) (usable : IP (n + 1) → Bool)
    (lo hi : Nat) (net : IPNet) (start : IP (n + 1)) (s : Drawn (n + 1)) : Prop where
  covering : s.pool.Covering settle usable lo hi start
  reserved : s.pool.reserved = s.out
  net_eq : s.pool.net = net

variable {n lo hi : Nat} {settle : IP (n + 1) → IP (n + 1)} {usable : IP (n + 1) → Bool}
  {full : String} {net : IPNet} {start : IP (n + 1)} {s s' : Drawn (n + 1)} {c : Act (n + 1)}

theorem Inv.step (hs : Passes settle usable) (hi' : s.Inv settle usable lo hi net start)
    (h : s.step (Pool.getWith settle full) c = some s') :
    s'.Inv settle usable lo hi net start := by
  obtain ⟨hc, hres, hnet⟩ := hi'
  cases c with
  | get =>
      simp only [Drawn.step] at h
      split at h
      · rename_i ip p hget
        cases h
        obtain ⟨-, -, hres', hnet', hc'⟩ := hc.get_ok hs hget
        exact ⟨hc', by rw [hres', hres], hnet'.trans hnet⟩
      · rename_i e p hget
        cases h
        obtain ⟨-, hres', hnet', hc'⟩ := hc.get_error hs hget
        exact ⟨hc', hres'.trans hres, hnet'.trans hnet⟩
  | release ip =>
      cases h
      refine ⟨hc.release ip, ?_, (Pool.release_net _ _).trans hnet⟩
      rw [Pool.release_reserved, hres]

theorem Inv.serves (hs : Passes settle usable) (hi' : s.Inv settle usable lo hi net start) :
    s.Serves (Pool.getWith settle full) usable net start := by
  obtain ⟨hc, hres, rfl⟩ := hi'
  unfold Serves
  rw [← hres]
  rcases hget : Pool.getWith settle full s.pool with ⟨e | ip, p⟩
  · obtain ⟨hall, -⟩ := hc.get_error hs hget
    refine ⟨fun ip hip => ?_, iff_of_true ⟨e, rfl⟩ hall⟩
    cases hip
  · obtain ⟨hoffer, hfree, -⟩ := hc.get_ok hs hget
    refine ⟨fun x hx => ?_, ?_⟩
    · cases hx
      exact ⟨hoffer, hfree⟩
    · exact iff_of_false (fun ⟨e, he⟩ => by cases he) fun hall => hfree (hall ip hoffer)

/-- A pool over a private network serves in every run. -/
theorem serves_of_private (hs : Passes settle usable) (hlen : n + 1 = 4 ∨ n + 1 = 16)
    (hnet : IsNet (n + 1) net) (hprivate : net.Private) (hstart : net.contains start.bytes = true)
    (h : Steps.Reach (Drawn.step (Pool.getWith settle full)) (fun _ _ => True)
      (fresh net start) s) : s.Serves (Pool.getWith settle full) usable net start := by
  obtain ⟨ones, hmask⟩ := hnet.2.2
  obtain ⟨hnum, hwhole⟩ := numbered_of_private hlen hnet hmask hprivate
  have hinv : (fresh net start).Inv settle usable _ _ net start :=
    ⟨Pool.Covering.new hnum hwhole (hnum.mem start hstart), rfl, rfl⟩
  exact (h.invariant hinv fun hi' _ hstep => hi'.step hs hstep).serves hs

end Drawn

/-- **The pools of private networks serve every address they have.** -/
theorem pools_serve :
    (∀ net (start : IP 4), IsNet 4 net → net.Private → net.contains start.bytes = true →
      ∀ s, Steps.Reach (Drawn.step Pool.get4) (fun _ _ => True) (Drawn.fresh net start) s →
        s.Serves Pool.get4 (fun ip => !ip.edge) net start) ∧
    ∀ net (start : IP 16), IsNet 16 net → net.Private → net.contains start.bytes = true →
      ∀ s, Steps.Reach (Drawn.step Pool.get6) (fun _ _ => True) (Drawn.fresh net start) s →
        s.Serves Pool.get6 (fun _ => true) net start := by
  constructor
  · intro net start hnet hprivate hstart s h
    exact Drawn.serves_of_private passes_skip (.inl rfl) hnet hprivate hstart h
  · intro net start hnet hprivate hstart s h
    exact Drawn.serves_of_private passes_id (.inr rfl) hnet hprivate hstart h

/-- The pool of 10.8.0.0/24 from its second host on. -/
theorem pools_serve_subnet :
    ∃ net, AmneziaWG.parseSubnet "10.8.0.0/24" false = .ok net ∧
      ∀ s, Steps.Reach (Drawn.step Pool.get4) (fun _ _ => True)
        (Drawn.fresh net ⟨[10, 8, 0, 2], rfl⟩) s →
          s.Serves Pool.get4 (fun ip => !ip.edge) net ⟨[10, 8, 0, 2], rfl⟩ := by
  have hparse : AmneziaWG.parseSubnet "10.8.0.0/24" false = .ok ⟨[10, 8, 0, 0], cidrMask 24 4⟩ := rfl
  have hprivate := (AmneziaWG.privateIPv4_parseSubnet hparse (by decide)).isPrivate
  exact ⟨_, hparse, pools_serve.1 _ _ (isNet_four rfl 24) hprivate (by decide)⟩

end Dvpnd
