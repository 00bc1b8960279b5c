import Dvpnd.Lib.Lists
import Dvpnd.Lib.Steps
import Dvpnd.Services.Clients

/-!
# What Hysteria2's `Peers` reports

The server counts traffic under the session key of a client, and `/traffic?clear=1`
returns the counters and resets them (`services/hysteria/hysteria.go`).  `Peers` adds what
it gets to totals of its own, for the keys that have some; a removal strikes those out,
and an `AddPeer` begins new ones.  **A kick does not reset the server's counter**, so what
is unread when a peer is removed is added to the totals of the next one with its key.

* `Hysteria`, `step` — the service, the server's counters, and calls at any point.
* `Orderly` — when totals come out right: above all, a peer is added only once everything
  counted under its key is read.
* `peers_exact` — **in every such run** a call returns what was counted since the peer was
  last added; `unread_bytes_charged` — and in others it does not.
-/

namespace Dvpnd

/-! ## Counters -/

/-- A line of the server's statistics.  From the client's point of view: `tx` is what it
has sent. -/
structure Stat where
  id : Key
  tx : Nat
  rx : Nat
  deriving DecidableEq

def Stat.bytes (e : Stat) : Direction → Nat
  | .upload => e.tx
  | .download => e.rx

/-- The server counts traffic under an id. -/
def bump (id : Key) (tx rx : Nat) : List Stat → List Stat
  | [] => [⟨id, tx, rx⟩]
  | e :: stats =>
      if e.id = id then ⟨id, e.tx + tx, e.rx + rx⟩ :: stats else e :: bump id tx rx stats

/-- What the statistics have for a key. -/
def bytesOf (key : Key) (d : Direction) : List Stat → Nat
  | [] => 0
  | e :: stats => (if e.id = key then e.bytes d else 0) + bytesOf key d stats

/-- A number that does not fit an `int64` does not decode. -/
def Stat.decodes (e : Stat) : Prop := e.tx < 2 ^ 63 ∧ e.rx < 2 ^ 63

instance (e : Stat) : Decidable e.decodes := inferInstanceAs (Decidable (_ ∧ _))

/-- The loop of `Peers`, for one line: a key without totals is passed over. -/
def Clients.charge (s : Clients) (e : Stat) : Clients :=
  match s.traffic e.id with
  | none => s
  | some t => { s with
      traffic := Function.update s.traffic e.id
        (some (t.add ⟨Int64.ofNat e.tx, Int64.ofNat e.rx⟩)) }

/-- What `Peers` returns after the loop. -/
def Clients.peersOf (s : Clients) (key : Key) : Option Traffic :=
  if key ∈ s.peers.keys then some ((s.traffic key).getD {}) else none

/-! ## The service and its server -/

/-- A call of `Peers` whose request is answered.  `seen` is what the server had counted
under each key by then, and `due` what of that was counted since its peer was added. -/
inductive Query
  | holding (delta : List Stat) (seen : Key → Direction → Nat)
  | returned (items : Key → Option Traffic) (due : Key → Direction → Nat)
  | failed

/-- What the call has read and not added up. -/
def Query.delta : Query → List Stat
  | .holding delta _ => delta
  | _ => []

/-- The call has its answer and has not added it up. -/
def Query.isHolding : Query → Bool
  | .holding _ _ => true
  | _ => false

/-- The service, the counters of the server, and the calls that are under way. -/
structure Hysteria where
  clients : Clients
  stats : List Stat
  queries : List Query
  /-- The `AddPeer` and `RemovePeer` calls between the lock and the set of peers. -/
  adding : List (List UInt8)
  removing : List (List UInt8)
  /-- All that was counted under a key, and how much of it when its peer was last added. -/
  counted : Key → Direction → Nat
  base : Key → Direction → Nat

namespace Hysteria

/-- A service that has just started. -/
def start : Hysteria := ⟨Clients.empty, [], [], [], [], fun _ _ => 0, fun _ _ => 0⟩

/-- Traffic moves, under any key. -/
def count (s : Hysteria) (key : Key) (tx rx : Nat) : Hysteria :=
  { s with
    stats := bump key tx rx s.stats
    counted := Function.update s.counted key fun d => s.counted key d + Stat.bytes ⟨key, tx, rx⟩ d }

/-- `AddPeer` takes the lock.  With data it does not accept it changes nothing. -/
def record (s : Hysteria) (data : List UInt8) : Hysteria :=
  if checkPeerData data = none then
    { s with
      clients := s.clients.record data
      adding := data :: s.adding
      base := Function.update s.base (Key.of data) (s.counted (Key.of data)) }
  else s

/-- `AddPeer` returns. -/
def put (s : Hysteria) (data : List UInt8) : Option Hysteria :=
  match h : checkPeerData data with
  | some _ => none
  | none =>
      if data ∈ s.adding then
        some { s with clients := s.clients.put data h, adding := s.adding.erase data }
      else none

/-- `RemovePeer` takes the lock. -/
def strike (s : Hysteria) (data : List UInt8) : Hysteria :=
  if checkPeerData data = none then
    { s with clients := s.clients.strike data, removing := data :: s.removing }
  else s

/-- `RemovePeer` goes on to the set of peers.  Its kick changes no counter. -/
def delete (s : Hysteria) (data : List UInt8) : Option Hysteria :=
  if data ∈ s.removing then
    some { s with clients := s.clients.delete data, removing := s.removing.erase data }
  else none

/-- The server answers a `/traffic?clear=1`. -/
def clear (s : Hysteria) : Hysteria :=
  { s with stats := [], queries := s.queries ++ [.holding s.stats s.counted] }

/-- What a call returns that has added up what it holds. -/
def answer (s : Hysteria) (seen : Key → Direction → Nat) : Query :=
  .returned s.clients.peersOf fun key d => seen key d - s.base key d

/-- `Peers` has decoded the answer and takes the lock. -/
def lock (s : Hysteria) (i : Nat) : Option Hysteria :=
  match s.queries[i]? with
  | some (.holding delta seen) =>
      if ∀ e ∈ delta, e.decodes then
        let s' := { s with clients := delta.foldl Clients.charge s.clients }
        some { s' with queries := s.queries.set i (s'.answer seen) }
      else none
  | _ => none

/-- The answer does not arrive, or it is not one that decodes. -/
def fail (s : Hysteria) (i : Nat) : Option Hysteria :=
  match s.queries[i]? with
  | some (.holding _ _) => some { s with queries := s.queries.set i .failed }
  | _ => none

/-- Who takes the next turn. -/
inductive Act
  | count (key : Key) (tx rx : Nat)
  | record (data : List UInt8)
  | put (data : List UInt8)
  | strike (data : List UInt8)
  | delete (data : List UInt8)
  | clear
  | lock (i : Nat)
  | fail (i : Nat)

/-- One turn. -/
def step (s : Hysteria) : Act → Option Hysteria
  | .count key tx rx => some (s.count key tx rx)
  | .record data => some (s.record data)
  | .put data => s.put data
  | .strike data => some (s.strike data)
  | .delete data => s.delete data
  | .clear => some s.clear
  | .lock i => s.lock i
  | .fail i => s.fail i

/-! ## What is to be returned, and when it is -/

/-- A call returns for each peer what was counted since it was last added. -/
def Exact : Query → Prop
  | .returned items due => ∀ key t d, items key = some t → (t.get d).toInt = due key d
  | _ => True

/-- What calls have read and not added up. -/
def held (s : Hysteria) (key : Key) (d : Direction) : Nat :=
  (s.queries.map fun q => bytesOf key d q.delta).sum

/-- Nothing counted under a key is still to be added to a total, or is part of one. -/
def Settled (s : Hysteria) (key : Key) : Prop :=
  (∀ d, bytesOf key d s.stats = 0 ∧ s.held key d = 0) ∧ (s.clients.traffic key).getD {} = {}

/-- The step keeps the totals in order: a peer is added when its key is settled, calls of
`Peers` follow one another and none fails with something in hand, no change of a peer is
overtaken by another call, and the counters stay in the range of an `int64`. -/
def Orderly (s : Hysteria) : Act → Prop
  | .count key tx rx =>
      s.counted key .upload + tx < 2 ^ 63 ∧ s.counted key .download + rx < 2 ^ 63
  | .record data => checkPeerData data = none → s.Settled (Key.of data) ∧ data ∉ s.removing
  | .strike data => data ∉ s.adding
  | .clear => ∀ q ∈ s.queries, q.isHolding = false
  | .lock _ => ∀ data ∈ s.removing, Key.of data ∉ s.clients.peers.keys
  | .fail i => ∀ q ∈ s.queries[i]?, ∀ e ∈ q.delta, s.clients.traffic e.id = none
  | .put _ | .delete _ => True

instance (s : Hysteria) (key : Key) : Decidable (s.Settled key) := by
  unfold Settled; infer_instance

instance (s : Hysteria) : (a : Act) → Decidable (s.Orderly a)
  | .count key tx rx => inferInstanceAs (Decidable
      (s.counted key .upload + tx < 2 ^ 63 ∧ s.counted key .download + rx < 2 ^ 63))
  | .record data => inferInstanceAs (Decidable
      (checkPeerData data = none → s.Settled (Key.of data) ∧ data ∉ s.removing))
  | .strike data => inferInstanceAs (Decidable (data ∉ s.adding))
  | .clear => inferInstanceAs (Decidable (∀ q ∈ s.queries, q.isHolding = false))
  | .lock _ => inferInstanceAs (Decidable (∀ data ∈ s.removing, Key.of data ∉ s.clients.peers.keys))
  | .fail i => inferInstanceAs (Decidable
      (∀ q ∈ s.queries[i]?, ∀ e ∈ q.delta, s.clients.traffic e.id = none))
  | .put _ | .delete _ => inferInstanceAs (Decidable True)

end Hysteria

/-! ## Adding up -/

theorem bytesOf_bump (id : Key) (tx rx : Nat) (key : Key) (d : Direction) (stats : List Stat) :
    bytesOf key d (bump id tx rx stats) =
      bytesOf key d stats + if id = key then Stat.bytes ⟨id, tx, rx⟩ d else 0 := by
  induction stats with
  | nil => simp [bump, bytesOf]
  | cons e stats ih =>
      rw [bump]
      split
      · rename_i he
        by_cases hk : id = key
        · have hsum : Stat.bytes ⟨id, e.tx + tx, e.rx + rx⟩ d =
              e.bytes d + Stat.bytes ⟨id, tx, rx⟩ d := by cases d <;> rfl
          simp only [bytesOf, he, if_pos hk, hsum]
          omega
        · simp [bytesOf, he, hk]
      · rw [bytesOf, ih, bytesOf]
        omega

/-- Lines for other keys add nothing. -/
theorem bytesOf_eq_zero {key : Key} {stats : List Stat} (h : ∀ e ∈ stats, e.id ≠ key)
    (d : Direction) : bytesOf key d stats = 0 := by
  induction stats with
  | nil => rfl
  | cons e stats ih =>
      rw [bytesOf, if_neg (h e List.mem_cons_self), ih fun e' he => h e' (List.mem_cons_of_mem _ he)]

namespace Clients

variable {s : Clients} {key : Key}

@[simp] theorem charge_keys (s : Clients) (e : Stat) : (s.charge e).peers.keys = s.peers.keys := by
  unfold charge
  split <;> rfl

theorem charge_traffic (s : Clients) (e : Stat) (key : Key) :
    (s.charge e).traffic key = if e.id = key then
      (s.traffic key).map fun t => t.add ⟨Int64.ofNat e.tx, Int64.ofNat e.rx⟩
    else s.traffic key := by
  unfold charge
  split
  · rename_i hnone
    split
    · rename_i heq
      rw [← heq, hnone]
      rfl
    · rfl
  · rename_i t ht
    by_cases heq : e.id = key
    · subst heq
      simp [ht]
    · simp [heq, Function.update_of_ne (Ne.symm heq)]

theorem foldl_charge_keys (s : Clients) (delta : List Stat) :
    (delta.foldl charge s).peers.keys = s.peers.keys := by
  induction delta generalizing s with
  | nil => rfl
  | cons e delta ih => rw [List.foldl_cons, ih, charge_keys]

/-- The loop begins no totals. -/
theorem foldl_charge_none {delta : List Stat} (h : s.traffic key = none) :
    (delta.foldl charge s).traffic key = none := by
  induction delta generalizing s with
  | nil => exact h
  | cons e delta ih =>
      rw [List.foldl_cons]
      refine ih ?_
      rw [charge_traffic, h]
      split <;> rfl

/-- **The loop adds what was read**, as long as the sum is in range. -/
theorem foldl_charge_some {delta : List Stat} {t : Traffic} (h : s.traffic key = some t)
    (hdec : ∀ e ∈ delta, e.decodes) (hpos : ∀ d, 0 ≤ (t.get d).toInt)
    (hlt : ∀ d, (t.get d).toInt + bytesOf key d delta < 2 ^ 63) :
    ∃ t', (delta.foldl charge s).traffic key = some t' ∧
      ∀ d, (t'.get d).toInt = (t.get d).toInt + bytesOf key d delta := by
  induction delta generalizing s t with
  | nil => exact ⟨t, h, fun d => by simp [bytesOf]⟩
  | cons e delta ih =>
      have hrest := fun e' he => hdec e' (List.mem_cons_of_mem _ he)
      rw [List.foldl_cons]
      by_cases he : e.id = key
      · -- the line is for the key: its counters are added first
        obtain ⟨htx, hrx⟩ := hdec e List.mem_cons_self
        have hline : ∀ d, (Traffic.get ⟨Int64.ofNat e.tx, Int64.ofNat e.rx⟩ d).toInt = e.bytes d
          | .upload => Int64.toInt_ofNat_of_lt htx
          | .download => Int64.toInt_ofNat_of_lt hrx
        have hadd : ∀ d, ((t.add ⟨Int64.ofNat e.tx, Int64.ofNat e.rx⟩).get d).toInt =
            (t.get d).toInt + e.bytes d := fun d => by
          have hsum := hlt d
          rw [bytesOf, if_pos he] at hsum
          have hp := hpos d
          rw [Traffic.get_add, toInt_add_of_lt hp (by rw [hline]; omega) (by rw [hline]; omega), hline]
        obtain ⟨t', ht', hget⟩ := ih (s := s.charge e)
          (by rw [charge_traffic, if_pos he, h]; rfl) hrest
          (fun d => by rw [hadd d]; have hp := hpos d; omega)
          (fun d => by
            have hsum := hlt d
            rw [bytesOf, if_pos he] at hsum
            rw [hadd d]
            omega)
        refine ⟨t', ht', fun d => ?_⟩
        rw [hget d, hadd d, bytesOf, if_pos he]
        omega
      · obtain ⟨t', ht', hget⟩ := ih (s := s.charge e) (by rw [charge_traffic, if_neg he]; exact h)
          hrest hpos (fun d => by have hsum := hlt d; rw [bytesOf, if_neg he] at hsum; omega)
        refine ⟨t', ht', fun d => ?_⟩
        rw [hget d, bytesOf, if_neg he, Nat.zero_add]

end Clients

namespace Hysteria

variable {s s' : Hysteria} {a : Act} {i : Nat} {q : Query}

/-! ## The books -/

theorem delta_of_not_isHolding (h : q.isHolding = false) : q.delta = [] := by
  cases q with
  | holding delta seen => cases h
  | returned items due => rfl
  | failed => rfl

theorem held_set (h : s.queries[i]? = some q) {q' : Query}
    (hset : s'.queries = s.queries.set i q') (hq' : q'.isHolding = false) (key : Key)
    (d : Direction) :
    s'.held key d + bytesOf key d q.delta = s.held key d := by
  have hsum := Lists.sum_map_set (g := fun q => bytesOf key d q.delta) q' h
  rw [delta_of_not_isHolding hq'] at hsum
  rw [held, held, hset]
  exact hsum

theorem held_eq_zero (h : ∀ q ∈ s.queries, q.isHolding = false) (key : Key) (d : Direction) :
    s.held key d = 0 := by
  refine List.sum_eq_zero fun n hn => ?_
  obtain ⟨q, hq, rfl⟩ := List.mem_map.1 hn
  rw [delta_of_not_isHolding (h q hq)]
  rfl

/-- Everything counted under a key with totals since its peer was last added is in the
totals, in the hands of a call, or unread. -/
structure Inv (s : Hysteria) : Prop where
  bounded : ∀ key d, s.counted key d < 2 ^ 63
  accounts : ∀ {key t}, s.clients.traffic key = some t → ∀ d, 0 ≤ (t.get d).toInt ∧
    (t.get d).toInt + (s.held key d + bytesOf key d s.stats + s.base key d : Nat) =
      s.counted key d
  solo : ∀ {i j : Nat} {q r : Query}, s.queries[i]? = some q → s.queries[j]? = some r →
    q.isHolding = true → r.isHolding = true → i = j
  seen : ∀ {i : Nat} {delta seen}, s.queries[i]? = some (.holding delta seen) →
    ∀ key d, seen key d + bytesOf key d s.stats = s.counted key d
  listed : ∀ {key}, key ∈ s.clients.peers.keys →
    (s.clients.traffic key).isSome ∨ ∃ data ∈ s.removing, Key.of data = key
  opened : ∀ {data}, data ∈ s.adding →
    (s.clients.traffic (Key.of data)).isSome ∧ data ∉ s.removing
  exact : ∀ q ∈ s.queries, Exact q

theorem inv_start : start.Inv where
  bounded _ _ := Nat.two_pow_pos 63
  accounts h := by cases h
  solo h := by cases h
  seen h := by cases h
  listed h := absurd h (Finset.notMem_empty _)
  opened h := by cases h
  exact _ h := by cases h

theorem Inv.count (hi : s.Inv) {key : Key} {tx rx : Nat} (hok : s.Orderly (.count key tx rx)) :
    (s.count key tx rx).Inv := by
  have hcounted : ∀ k d, (s.count key tx rx).counted k d =
      s.counted k d + if key = k then Stat.bytes ⟨key, tx, rx⟩ d else 0 := fun k d => by
    by_cases hk : key = k
    · subst hk
      simp [Hysteria.count]
    · simp [Hysteria.count, hk, Function.update_of_ne (Ne.symm hk)]
  refine { hi with
    bounded := fun k d => ?_, accounts := fun {k t} ht d => ?_, seen := fun {j delta sn} hq k d => ?_ }
  · rw [hcounted]
    by_cases hk : key = k
    · subst hk
      rw [if_pos rfl]
      cases d with
      | upload => exact hok.1
      | download => exact hok.2
    · rw [if_neg hk]
      exact hi.bounded k d
  · obtain ⟨hpos, heq⟩ := hi.accounts ht d
    refine ⟨hpos, ?_⟩
    rw [hcounted]
    have hstats := bytesOf_bump key tx rx k d s.stats
    show _ + ((s.held k d + bytesOf k d (bump key tx rx s.stats) + s.base k d : Nat) : Int) = _
    omega
  · have hold := hi.seen hq k d
    rw [hcounted, ← hold, Nat.add_assoc]
    exact congrArg _ (bytesOf_bump key tx rx k d s.stats)

theorem Inv.clear (hi : s.Inv) (hok : s.Orderly .clear) : s.clear.Inv := by
  have hnew : ∀ {j : Nat} {r : Query}, s.clear.queries[j]? = some r →
      r ∈ s.queries ∨ j = s.queries.length ∧ r = .holding s.stats s.counted := fun hr =>
    (Lists.getElem?_concat_cases hr).imp_left List.mem_of_getElem?
  have hidle : ∀ {r}, r ∈ s.queries → r.isHolding = true → False := fun hr hh => by
    rw [hok _ hr] at hh
    cases hh
  refine { hi with
    accounts := fun {k t} ht d => ?_, solo := fun hq hr hhq hhr => ?_,
    seen := fun {j delta sn} hq k d => ?_, exact := fun r hr => ?_ }
  · obtain ⟨hpos, heq⟩ := hi.accounts ht d
    refine ⟨hpos, ?_⟩
    have hheld : s.clear.held k d = s.held k d + bytesOf k d s.stats := by
      simp [held, Hysteria.clear, Query.delta]
    rw [hheld]
    exact heq
  · rcases hnew hq with hq | ⟨rfl, -⟩
    · exact (hidle hq hhq).elim
    · rcases hnew hr with hr | ⟨rfl, -⟩
      · exact (hidle hr hhr).elim
      · rfl
  · rcases hnew hq with hq | ⟨-, heq⟩
    · exact (hidle hq rfl).elim
    · cases heq
      rfl
  · rcases List.mem_append.1 hr with hr | hr
    · exact hi.exact r hr
    · cases List.mem_singleton.1 hr
      trivial

/-- A peer is added: its totals begin with nothing, and nothing is on its way to them. -/
theorem Inv.record (hi : s.Inv) {data : List UInt8} (hok : s.Orderly (.record data)) :
    (s.record data).Inv := by
  unfold Hysteria.record
  split
  · rename_i haccepted
    obtain ⟨⟨hnone, hzero⟩, hremoving⟩ := hok haccepted
    have htraffic : ∀ key, (s.clients.record data).traffic key =
        if key = Key.of data then some {} else s.clients.traffic key := fun key => by
      by_cases hk : key = Key.of data
      · subst hk
        simp [Clients.record, hzero]
      · simp [Clients.record, hk]
    refine { hi with
      accounts := fun {k t} ht d => ?_, listed := fun {k} hk => ?_, opened := fun {d} hd => ?_ }
    · rw [htraffic] at ht
      split at ht
      · rename_i hk
        subst hk
        cases ht
        obtain ⟨hstats, hheld⟩ := hnone d
        rw [Traffic.get_default]
        refine ⟨le_rfl, ?_⟩
        show (0 : Int) + ((s.held (Key.of data) d + bytesOf (Key.of data) d s.stats +
          Function.update s.base (Key.of data) (s.counted (Key.of data)) (Key.of data) d : Nat) :
            Int) = s.counted (Key.of data) d
        rw [hstats, hheld, Function.update_self]
        omega
      · rename_i hk
        obtain ⟨hpos, heq⟩ := hi.accounts ht d
        refine ⟨hpos, ?_⟩
        show (t.get d).toInt + ((s.held k d + bytesOf k d s.stats +
          Function.update s.base (Key.of data) (s.counted (Key.of data)) k d : Nat) : Int) =
            s.counted k d
        rw [Function.update_of_ne hk]
        exact heq
    · rcases hi.listed hk with hsome | hleaving
      · left
        rw [htraffic]
        split
        · rfl
        · exact hsome
      · exact .inr hleaving
    · rw [htraffic]
      rcases List.mem_cons.1 hd with rfl | hd
      · exact ⟨by rw [if_pos rfl]; rfl, hremoving⟩
      · obtain ⟨hsome, hnot⟩ := hi.opened hd
        refine ⟨?_, hnot⟩
        split
        · rfl
        · exact hsome
  · exact hi

theorem Inv.put (hi : s.Inv) {data : List UInt8} (h : s.put data = some s') : s'.Inv := by
  unfold Hysteria.put at h
  split at h
  · cases h
  · split at h
    · rename_i hadding
      cases h
      refine { hi with listed := fun {k} hk => ?_, opened := fun {d} hd => ?_ }
      · rcases Finset.mem_insert.1 hk with rfl | hk
        · exact .inl (hi.opened hadding).1
        · exact hi.listed hk
      · exact hi.opened (List.mem_of_mem_erase hd)
    · cases h

theorem Inv.strike (hi : s.Inv) {data : List UInt8} (hok : s.Orderly (.strike data)) :
    (s.strike data).Inv := by
  unfold Hysteria.strike
  split
  · have htraffic : ∀ {key}, key ≠ Key.of data →
        (s.clients.strike data).traffic key = s.clients.traffic key := fun hk =>
      Function.update_of_ne hk _ _
    have hgone : (s.clients.strike data).traffic (Key.of data) = none := Function.update_self _ _ _
    refine { hi with
      accounts := fun {k t} ht d => ?_, listed := fun {k} hk => ?_, opened := fun {d} hd => ?_ }
    · by_cases hk : k = Key.of data
      · rw [hk, hgone] at ht
        cases ht
      · rw [htraffic hk] at ht
        exact hi.accounts ht d
    · by_cases heq : k = Key.of data
      · exact .inr ⟨data, List.mem_cons_self, heq.symm⟩
      · rcases hi.listed hk with hsome | ⟨d, hd, hkey⟩
        · exact .inl (by rw [htraffic heq]; exact hsome)
        · exact .inr ⟨d, List.mem_cons_of_mem _ hd, hkey⟩
    · have hne : d ≠ data := fun heq => hok (heq ▸ hd)
      obtain ⟨hsome, hnot⟩ := hi.opened hd
      rw [htraffic fun heq => hne (Key.of_injective heq)]
      exact ⟨hsome, List.not_mem_cons_of_ne_of_not_mem hne hnot⟩
  · exact hi

theorem Inv.delete (hi : s.Inv) {data : List UInt8} (h : s.delete data = some s') : s'.Inv := by
  unfold Hysteria.delete at h
  split at h
  · cases h
    refine { hi with listed := fun {k} hk => ?_, opened := fun {d} hd => ?_ }
    · obtain ⟨hne, hk⟩ := Finset.mem_erase.1 hk
      rcases hi.listed hk with hsome | ⟨d, hd, rfl⟩
      · exact .inl hsome
      · -- the removal of another peer is still under way
        have hdata : d ≠ data := fun heq => hne (heq ▸ rfl)
        exact .inr ⟨d, (List.mem_erase_of_ne hdata).2 hd, rfl⟩
    · obtain ⟨hsome, hnot⟩ := hi.opened hd
      exact ⟨hsome, fun hin => hnot (List.mem_of_mem_erase hin)⟩
  · cases h

/-- What only the one call in hand holds. -/
theorem Inv.held_eq (hi : s.Inv) {delta : List Stat} {sn : Key → Direction → Nat}
    (h : s.queries[i]? = some (.holding delta sn)) (key : Key) (d : Direction) :
    s.held key d = bytesOf key d delta := by
  have hset : held { s with queries := s.queries.set i .failed } key d + bytesOf key d delta =
      s.held key d := held_set h rfl rfl key d
  rw [← hset, held_eq_zero, Nat.zero_add]
  · intro r hr
    obtain ⟨j, hj⟩ := List.getElem?_of_mem hr
    rcases Lists.getElem?_set_cases hj with ⟨-, rfl⟩ | ⟨hne, hold⟩
    · rfl
    · cases hh : r.isHolding with
      | false => rfl
      | true => exact absurd (hi.solo hold h hh rfl) hne

/-- A call is done: what it held is in the totals, or was no part of them. -/
theorem Inv.done (hi : s.Inv) {r : Query} (hq : s.queries[i]? = some q)
    (hr : r.isHolding = false) (hset : s'.queries = s.queries.set i r) (hstats : s'.stats = s.stats)
    (hadding : s'.adding = s.adding) (hremoving : s'.removing = s.removing)
    (hcounted : s'.counted = s.counted) (hbase : s'.base = s.base)
    (hkeys : s'.clients.peers.keys = s.clients.peers.keys)
    (hnone : ∀ key, s.clients.traffic key = none → s'.clients.traffic key = none)
    (hsome : ∀ key t, s.clients.traffic key = some t → ∃ t', s'.clients.traffic key = some t' ∧
      ∀ d, (t'.get d).toInt = (t.get d).toInt + bytesOf key d q.delta)
    (hexact : Exact r) : s'.Inv where
  bounded := by
    rw [hcounted]
    exact hi.bounded
  accounts {key t'} ht' d := by
    cases ht : s.clients.traffic key with
    | none =>
        rw [hnone key ht] at ht'
        cases ht'
    | some t =>
        obtain ⟨u, hu, hget⟩ := hsome key t ht
        cases hu.symm.trans ht'
        obtain ⟨hpos, heq⟩ := hi.accounts ht d
        have hheld := held_set hq hset hr key d
        rw [hget d, hstats, hbase, hcounted]
        exact ⟨by omega, by omega⟩
  solo {j k p p'} hj hk hp hp' := by
    rw [hset] at hj hk
    rcases Lists.getElem?_set_cases hj with ⟨-, rfl⟩ | ⟨-, hj⟩
    · rw [hr] at hp
      cases hp
    · rcases Lists.getElem?_set_cases hk with ⟨-, rfl⟩ | ⟨-, hk⟩
      · rw [hr] at hp'
        cases hp'
      · exact hi.solo hj hk hp hp'
  seen {j delta sn} hj := by
    rw [hset] at hj
    rcases Lists.getElem?_set_cases hj with ⟨-, rfl⟩ | ⟨-, hj⟩
    · cases hr
    · rw [hstats, hcounted]
      exact hi.seen hj
  listed {key} hkey := by
    rw [hkeys] at hkey
    rw [hremoving]
    refine (hi.listed hkey).imp_left fun hold => ?_
    obtain ⟨t, ht⟩ := Option.isSome_iff_exists.1 hold
    obtain ⟨t', ht', -⟩ := hsome key t ht
    rw [ht']
    rfl
  opened {data} hdata := by
    rw [hadding] at hdata
    rw [hremoving]
    obtain ⟨hold, hnot⟩ := hi.opened hdata
    obtain ⟨t, ht⟩ := Option.isSome_iff_exists.1 hold
    obtain ⟨t', ht', -⟩ := hsome _ t ht
    exact ⟨by rw [ht']; rfl, hnot⟩
  exact p hp := by
    rw [hset] at hp
    rcases List.mem_or_eq_of_mem_set hp with hp | rfl
    · exact hi.exact p hp
    · exact hexact

theorem Inv.fail (hi : s.Inv) (hok : s.Orderly (.fail i)) (h : s.fail i = some s') : s'.Inv := by
  unfold Hysteria.fail at h
  split at h
  · rename_i delta sn hq
    cases h
    refine hi.done hq rfl rfl rfl rfl rfl rfl rfl rfl (fun _ hnone => hnone) (fun key t ht => ?_)
      trivial
    -- the lines that are lost are for keys without totals
    refine ⟨t, ht, fun d => ?_⟩
    have hzero : bytesOf key d delta = 0 := by
      refine bytesOf_eq_zero (fun e he heq => ?_) d
      have hnone := hok _ hq e he
      rw [heq, ht] at hnone
      cases hnone
    show _ = _ + ((bytesOf key d delta : Nat) : Int)
    rw [hzero]
    omega
  · cases h

/-- What a call returns for a peer after it has added up what it held. -/
theorem Inv.exact_answer (hi : s.Inv) (hok : s.Orderly (.lock i)) {delta : List Stat}
    {sn : Key → Direction → Nat} (hq : s.queries[i]? = some (.holding delta sn))
    (hdec : ∀ e ∈ delta, e.decodes) :
    (∀ key t, s.clients.traffic key = some t →
      ∃ t', (delta.foldl Clients.charge s.clients).traffic key = some t' ∧
        ∀ d, (t'.get d).toInt = (t.get d).toInt + bytesOf key d delta) ∧
    Exact (answer { s with clients := delta.foldl Clients.charge s.clients } sn) := by
  have hsome : ∀ key t, s.clients.traffic key = some t →
      ∃ t', (delta.foldl Clients.charge s.clients).traffic key = some t' ∧
        ∀ d, (t'.get d).toInt = (t.get d).toInt + bytesOf key d delta := fun key t ht => by
    refine Clients.foldl_charge_some ht hdec (fun d => (hi.accounts ht d).1) fun d => ?_
    have hacc := (hi.accounts ht d).2
    have hheld := hi.held_eq hq key d
    have hlt := hi.bounded key d
    omega
  refine ⟨hsome, fun key u d hu => ?_⟩
  unfold Clients.peersOf at hu
  split at hu
  · rename_i hkey
    rw [Clients.foldl_charge_keys] at hkey
    -- no removal of this peer is under way, so it has its totals
    have htraffic : (s.clients.traffic key).isSome := by
      refine (hi.listed hkey).resolve_right ?_
      rintro ⟨data, hdata, rfl⟩
      exact hok data hdata hkey
    obtain ⟨t, ht⟩ := Option.isSome_iff_exists.1 htraffic
    obtain ⟨t', ht', hget⟩ := hsome key t ht
    rw [ht', Option.getD_some] at hu
    cases hu
    obtain ⟨hpos, hacc⟩ := hi.accounts ht d
    have hheld := hi.held_eq hq key d
    have hseen := hi.seen hq key d
    rw [hget d]
    show _ = ((sn key d - s.base key d : Nat) : Int)
    omega
  · cases hu

theorem Inv.lock (hi : s.Inv) (hok : s.Orderly (.lock i)) (h : s.lock i = some s') : s'.Inv := by
  unfold Hysteria.lock at h
  split at h
  · rename_i delta sn hq
    split at h
    · rename_i hdec
      cases h
      obtain ⟨hsome, hexact⟩ := hi.exact_answer hok hq hdec
      exact hi.done hq rfl rfl rfl rfl rfl rfl rfl (Clients.foldl_charge_keys _ _)
        (fun _ hnone => Clients.foldl_charge_none hnone) hsome hexact
    · cases h
  · cases h

theorem Inv.step (hi : s.Inv) (hok : s.Orderly a) (h : s.step a = some s') : s'.Inv := by
  cases a with
  | count key tx rx =>
      cases h
      exact hi.count hok
  | record data =>
      cases h
      exact hi.record hok
  | put data => exact hi.put h
  | strike data =>
      cases h
      exact hi.strike hok
  | delete data => exact hi.delete h
  | clear =>
      cases h
      exact hi.clear hok
  | lock i => exact hi.lock hok h
  | fail i => exact hi.fail hok h

/-- **Every call of `Peers` returns for each peer the bytes counted since it was last
added**, as of the read of the counters, in every orderly run. -/
theorem peers_exact (h : Steps.Reach step Orderly start s) : ∀ q ∈ s.queries, Exact q :=
  (h.invariant inv_start Inv.step).exact

/-- The data of a peer. -/
def onePeer : List UInt8 := List.replicate 16 7

/-- What a call reports for it. -/
def Query.report : Query → Option Traffic
  | .returned items _ => items (Key.of onePeer)
  | _ => none

/-- A peer moves data and is removed once that is read; then it is back. -/
def settledRun : List Act :=
  [.record onePeer, .put onePeer, .count (Key.of onePeer) 100 40, .clear, .lock 0, .strike onePeer,
    .delete onePeer, .record onePeer, .put onePeer, .count (Key.of onePeer) 7 5, .clear, .lock 1]

theorem peers_exact_settledRun : ∃ s : Hysteria, s.queries.map Query.report =
    [some ⟨100, 40⟩, some ⟨7, 5⟩] ∧ ∀ q ∈ s.queries, Exact q := by
  obtain ⟨s, hreach, hp⟩ := Steps.exists_reach step Orderly start settledRun
    (fun s => decide (s.queries.map Query.report = [some ⟨100, 40⟩, some ⟨7, 5⟩])) (by decide)
  exact ⟨s, of_decide_eq_true hp, peers_exact hreach⟩

/-- A peer is removed before what it moved is read, and comes back. -/
def unreadRun : List Act :=
  [.record onePeer, .put onePeer, .count (Key.of onePeer) 100 40, .strike onePeer, .delete onePeer,
    .record onePeer, .put onePeer, .clear, .lock 0]

/-- **The next peer with the key is charged for it**: it has moved nothing, and `Peers`
reports 100 bytes up and 40 down. -/
theorem unread_bytes_charged :
    ∃ s, Steps.Reach step (fun _ _ => True) start s ∧ ∃ q ∈ s.queries, ¬ Exact q := by
  obtain ⟨s, hreach, hp⟩ := Steps.exists_reach step (fun _ _ => True) start unreadRun
    (fun s => s.queries.any fun q => match q with
      | .returned items due => decide (items (Key.of onePeer) = some ⟨100, 40⟩ ∧
          due (Key.of onePeer) .upload = 0)
      | _ => false) (by decide)
  obtain ⟨q, hq, htest⟩ := List.any_eq_true.1 hp
  refine ⟨s, hreach, q, hq, fun hexact => ?_⟩
  cases q with
  | returned items due =>
      obtain ⟨hitems, hdue⟩ := of_decide_eq_true htest
      have hget := hexact (Key.of onePeer) ⟨100, 40⟩ .upload hitems
      rw [hdue] at hget
      exact absurd hget (by decide)
  | _ => cases htest

end Hysteria

end Dvpnd
