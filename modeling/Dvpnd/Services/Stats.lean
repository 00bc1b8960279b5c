import Dvpnd.Lib.Lists
import Dvpnd.Lib.Steps
import Dvpnd.Node.SetSessions
import Dvpnd.Services.Clients

/-!
# What the `Peers` of the proxies reports

XRay and V2Ray (`services/xray`, `services/v2ray`) count each user's traffic under its
e-mail, which is the session key, **for as long as the proxy runs**.  `Peers` reads the
counters and resets nothing; neither removing a user nor adding it changes them.  The
node takes what it is told for what moved since the peer was added (`reportedUsage`).

* `statName` — the names the counters have; `statName_inj` — no two are one.
* `Proxy`, `step` — the service and the proxy's counters; XRay asks for all of them at
  once, V2Ray for one after another, with the set of peers locked.
* `peers_since_added` — **in every run in which a peer is added only with a key that has
  counted nothing**, a report counts from the addition and the totals to store are the
  session's bases and what moved since.
* `used_key_charged` — for either service, a run in which they are not.
-/

namespace Dvpnd

/-! ## Names -/

/-- The last part of a counter's name. -/
def Direction.link : Direction → String
  | .upload => ">>>traffic>>>uplink"
  | .download => ">>>traffic>>>downlink"

/-- The name of a user's counter. -/
def statName (key : Key) (d : Direction) : String := "user>>>" ++ key.text ++ d.link

/-- **No two counters have one name.** -/
theorem statName_inj {k l : Key} {d e : Direction} (h : statName k d = statName l e) :
    k = l ∧ d = e := by
  have hlist := congrArg String.toList h
  simp only [statName, String.toList_append, List.append_assoc] at hlist
  have htail := List.append_cancel_left hlist
  by_cases hde : d = e
  · subst hde
    exact ⟨Key.ext (String.toList_inj.1 (List.append_cancel_right htail)), rfl⟩
  · -- the two directions differ in the sixth character from the end
    have hrev := congrArg (fun l : List Char => l.reverse.take 6) htail
    simp only [List.reverse_append] at hrev
    cases d with
    | upload =>
        cases e with
        | upload => exact absurd rfl hde
        | download => exact absurd hrev (by simp [Direction.link])
    | download =>
        cases e with
        | upload => exact absurd hrev (by simp [Direction.link])
        | download => exact absurd rfl hde

/-! ## The service and its proxy -/

/-- Which of the two services. -/
inductive ProxyKind
  | xray
  | v2ray
  deriving DecidableEq

/-- The data each accepts. -/
def ProxyKind.check : ProxyKind → List UInt8 → Option String
  | .xray => xrayCheck
  | .v2ray => v2rayCheck

/-- A call of `Peers`: what it has got, and what the peers had moved by then. -/
inductive StatsCall
  | queried (got seen : Key → Direction → Nat)
  | iterating (keys : List Key) (todo : List (Key × Direction))
      (got seen : Key → Direction → Nat)
  | returned (items : Key → Option Traffic) (since : Key → Direction → Nat)
  | failed

/-- V2Ray keeps the lock of its peers while it goes over them. -/
def StatsCall.isIterating : StatsCall → Bool
  | .iterating _ _ _ _ => true
  | _ => false

/-- The counter V2Ray asks for next. -/
def StatsCall.next : StatsCall → Option (Key × Direction)
  | .iterating _ todo _ _ => todo.head?
  | _ => none

/-- The service, the proxy's counters and the calls under way. -/
structure Proxy (kind : ProxyKind) where
  users : Users kind.check
  /-- The counters by name; one the proxy has nothing for does not exist. -/
  stats : String → Option Nat
  /-- `AddPeer` and `RemovePeer` calls the proxy has carried out. -/
  adding : List (List UInt8)
  removing : List (List UInt8)
  calls : List StatsCall
  /-- The bytes that were moved under a key, and how many when its user was last added. -/
  moved : Key → Direction → Nat
  base : Key → Direction → Nat

namespace Proxy

variable {kind : ProxyKind}

/-- A service that has just started. -/
def start : Proxy kind := ⟨Users.empty, fun _ => none, [], [], [], fun _ _ => 0, fun _ _ => 0⟩

/-- What the proxy has counted. -/
def counted (s : Proxy kind) (key : Key) (d : Direction) : Nat := (s.stats (statName key d)).getD 0

/-- A table with one entry changed. -/
def setAt (f : Key → Direction → Nat) (key : Key) (d : Direction) (n : Nat) :
    Key → Direction → Nat :=
  Function.update f key (Function.update (f key) d n)

/-- Traffic moves, under any e-mail. -/
def count (s : Proxy kind) (key : Key) (d : Direction) (n : Nat) : Proxy kind :=
  { s with
    stats := Function.update s.stats (statName key d) (some (s.counted key d + n))
    moved := setAt s.moved key d (s.moved key d + n) }

/-- `AddPeer` calls the proxy, and fails or has a user added. -/
def addUser (s : Proxy kind) (data : List UInt8) (c : Rpc) : Proxy kind :=
  match ((rpcService kind.check).addPeer data c s.users).1 with
  | .error _ => s
  | .ok _ => { s with
      adding := data :: s.adding
      base := Function.update s.base (Key.of data) (s.moved (Key.of data)) }

/-- The peers are not locked. -/
def Unlocked (s : Proxy kind) : Prop := ∀ c ∈ s.calls, c.isIterating = false

instance (s : Proxy kind) : Decidable s.Unlocked := by unfold Unlocked; infer_instance

-- named, so that membership is decided with one proof wherever the file is read
local instance lawfulBEq_data : LawfulBEq (List UInt8) := inferInstance

/-- `AddPeer` writes the peer down. -/
def put (s : Proxy kind) (data : List UInt8) : Option (Proxy kind) :=
  match h : kind.check data with
  | some _ => none
  | none =>
      if data ∈ s.adding ∧ s.Unlocked then
        some { s with users := s.users.put data h, adding := s.adding.erase data }
      else none

/-- `RemovePeer` calls the proxy, and fails or has the user removed.  The counters stay. -/
def removeUser (s : Proxy kind) (data : List UInt8) (c : Rpc) : Proxy kind :=
  match ((rpcService kind.check).removePeer data c s.users).1 with
  | some _ => s
  | none => { s with removing := data :: s.removing }

/-- `RemovePeer` strikes the peer out. -/
def delete (s : Proxy kind) (data : List UInt8) : Option (Proxy kind) :=
  if data ∈ s.removing ∧ s.Unlocked then
    some { s with users := s.users.delete (Key.of data), removing := s.removing.erase data }
  else none

/-- V2Ray's loop before its first turn: both counters of each peer are to be read. -/
def iteration (order : List Key) : StatsCall :=
  .iterating order (order.flatMap fun key => [(key, .upload), (key, .download)])
    (fun _ _ => 0) (fun _ _ => 0)

/-- `Peers` begins: XRay with the one query it makes, V2Ray with the lock and the peers in
the order the loop takes them. -/
def ask (s : Proxy kind) (order : List Key) : Option (Proxy kind) :=
  match kind with
  | .xray => some { s with calls := s.calls ++ [.queried s.counted s.moved] }
  | .v2ray =>
      if order.Nodup ∧ order.toFinset = s.users.keys then
        some { s with calls := s.calls ++ [iteration order] }
      else none

/-- V2Ray asks for a counter.  One that is not found counts as zero, and the proxy's error
is known by its text. -/
def getStats (s : Proxy kind) (i : Nat) (err : Option String) : Option (Proxy kind) :=
  match s.calls[i]? with
  | some (.iterating keys ((key, d) :: todo) got seen) =>
      let seen' := setAt seen key d (s.moved key d)
      match err with
      | none =>
          let got' := setAt got key d (s.counted key d)
          some { s with calls := s.calls.set i (.iterating keys todo got' seen') }
      | some e =>
          if notFound e then
            let got' := setAt got key d 0
            some { s with calls := s.calls.set i (.iterating keys todo got' seen') }
          else some { s with calls := s.calls.set i .failed }
  | _ => none

/-- What `Peers` returns: the readings as they are. -/
def answer (s : Proxy kind) (keys : List Key) (got seen : Key → Direction → Nat) : StatsCall :=
  .returned
    (fun key => if key ∈ keys then
      some ⟨Int64.ofNat (got key .upload), Int64.ofNat (got key .download)⟩ else none)
    fun key d => seen key d - s.base key d

/-- `Peers` returns.  XRay takes the peers only now. -/
def finish (s : Proxy kind) (i : Nat) (order : List Key) : Option (Proxy kind) :=
  match s.calls[i]? with
  | some (.queried got seen) =>
      if order.Nodup ∧ order.toFinset = s.users.keys then
        some { s with calls := s.calls.set i (s.answer order got seen) }
      else none
  | some (.iterating keys [] got seen) =>
      some { s with calls := s.calls.set i (s.answer keys got seen) }
  | _ => none

/-- Who takes the next turn. -/
inductive Act
  | count (key : Key) (d : Direction) (n : Nat)
  | addUser (data : List UInt8) (c : Rpc)
  | put (data : List UInt8)
  | removeUser (data : List UInt8) (c : Rpc)
  | delete (data : List UInt8)
  | ask (order : List Key)
  | getStats (i : Nat) (err : Option String)
  | finish (i : Nat) (order : List Key)

/-- One turn. -/
def step (s : Proxy kind) : Act → Option (Proxy kind)
  | .count key d n => some (s.count key d n)
  | .addUser data c => some (s.addUser data c)
  | .put data => s.put data
  | .removeUser data c => some (s.removeUser data c)
  | .delete data => s.delete data
  | .ask order => s.ask order
  | .getStats i err => s.getStats i err
  | .finish i order => s.finish i order

/-! ## What a report is to say, and when it does -/

/-- Each peer of a report has what was moved since it was added, and the totals to store
for its session are the session's bases and that. -/
def FromAddition : StatsCall → Prop
  | .returned items since => ∀ peer : Peer,
      items peer.key = some ⟨peer.upload, peer.download⟩ →
      peer.upload = Int64.ofNat (since peer.key .upload) ∧
      peer.download = Int64.ofNat (since peer.key .download) ∧
      ∀ item : Session, item.key = peer.key → ∃ moved, reportedUsage item peer =
        (item.baseUpload + Int64.ofNat (since peer.key .upload),
          item.baseDownload + Int64.ofNat (since peer.key .download), moved)
  | _ => True

/-- The step keeps reports right: a user is added only with an e-mail that has counted
nothing, and the proxy does not deny a counter it has. -/
def FreshKeys (s : Proxy kind) : Act → Prop
  | .addUser data c => ((rpcService kind.check).addPeer data c s.users).1.isOk = true →
      ∀ d, s.counted (Key.of data) d = 0
  | .getStats i (some e) => notFound e = true →
      ∀ c ∈ s.calls[i]?, ∀ stat ∈ c.next, s.counted stat.1 stat.2 = 0
  | _ => True

instance (s : Proxy kind) : (a : Act) → Decidable (s.FreshKeys a)
  | .addUser data c => inferInstanceAs (Decidable (
      ((rpcService kind.check).addPeer data c s.users).1.isOk = true →
        ∀ d, s.counted (Key.of data) d = 0))
  | .getStats i (some e) => inferInstanceAs (Decidable (notFound e = true →
      ∀ c ∈ s.calls[i]?, ∀ stat ∈ c.next, s.counted stat.1 stat.2 = 0))
  | .count _ _ _ | .put _ | .removeUser _ _ | .delete _ | .ask _ | .getStats _ none
  | .finish _ _ => inferInstanceAs (Decidable True)

/-! ## Every run -/

variable {s s' : Proxy kind} {a : Act}

/-- What a call has read is what was moved, and what it returned counts from the addition. -/
def Faithful : StatsCall → Prop
  | .queried got seen => got = seen
  | .iterating _ _ got seen => got = seen
  | c => FromAddition c

/-- The counters are right, and none had anything when its user was added. -/
structure Inv (s : Proxy kind) : Prop where
  counted : ∀ key d, s.counted key d = s.moved key d
  base : ∀ key d, s.base key d = 0
  calls : ∀ c ∈ s.calls, Faithful c

theorem inv_start : (start : Proxy kind).Inv := ⟨fun _ _ => rfl, fun _ _ => rfl, nofun⟩

theorem Inv.count (hi : s.Inv) (key : Key) (d : Direction) (n : Nat) : (s.count key d n).Inv := by
  refine { hi with counted := fun k e => ?_ }
  by_cases hk : k = key ∧ e = d
  · obtain ⟨rfl, rfl⟩ := hk
    simp [Proxy.count, Proxy.counted, setAt, ← hi.counted]
  · -- another name, and another entry
    have hname : statName k e ≠ statName key d := fun heq => hk (statName_inj heq)
    have hstat : (s.count key d n).counted k e = s.counted k e := by
      simp [Proxy.count, Proxy.counted, hname]
    rw [hstat, hi.counted]
    by_cases hkey : k = key
    · subst hkey
      have hdir : e ≠ d := fun heq => hk ⟨rfl, heq⟩
      simp [Proxy.count, setAt, hdir]
    · simp [Proxy.count, setAt, hkey]

theorem Inv.addUser (hi : s.Inv) {data : List UInt8} {c : Rpc}
    (hok : s.FreshKeys (.addUser data c)) : (s.addUser data c).Inv := by
  unfold Proxy.addUser
  split
  · exact hi
  · rename_i hadded
    have hzero := hok (by rw [hadded]; rfl)
    refine { hi with base := fun key d => ?_ }
    by_cases hk : key = Key.of data
    · subst hk
      exact (congrFun (Function.update_self ..) d).trans ((hi.counted _ d).symm.trans (hzero d))
    · exact (congrFun (Function.update_of_ne hk ..) d).trans (hi.base key d)

/-- A step that only sets one call. -/
theorem Inv.set (hi : s.Inv) {i : Nat} {c : StatsCall} (hc : Faithful c) :
    Inv { s with calls := s.calls.set i c } := by
  refine { hi with calls := fun c' hc' => ?_ }
  rcases List.mem_or_eq_of_mem_set hc' with hold | rfl
  · exact hi.calls c' hold
  · exact hc

theorem Inv.ask (hi : s.Inv) {order : List Key} (h : s.ask order = some s') : s'.Inv := by
  have hpush : ∀ {c}, Faithful c → Inv { s with calls := s.calls ++ [c] } := fun {c} hc => by
    refine { hi with calls := fun c' hc' => ?_ }
    rcases List.mem_append.1 hc' with hold | hnew
    · exact hi.calls c' hold
    · cases List.mem_singleton.1 hnew
      exact hc
  unfold Proxy.ask at h
  split at h
  · cases h
    exact hpush (funext fun key => funext fun d => hi.counted key d)
  · split at h
    · cases h
      exact hpush rfl
    · cases h

theorem Inv.getStats (hi : s.Inv) {i : Nat} {err : Option String}
    (hok : s.FreshKeys (.getStats i err)) (h : s.getStats i err = some s') : s'.Inv := by
  unfold Proxy.getStats at h
  split at h
  · rename_i keys key d todo got seen hcall
    have hsame : got = seen := hi.calls _ (List.mem_of_getElem? hcall)
    split at h
    · cases h
      exact hi.set (by rw [hsame, hi.counted key d]; rfl)
    · rename_i e
      split at h
      · rename_i hnf
        cases h
        have hzero : s.counted key d = 0 := hok hnf _ hcall (key, d) rfl
        exact hi.set (by rw [hsame, ← hi.counted key d, hzero]; rfl)
      · cases h
        exact hi.set trivial
  · cases h

/-- Counters read since the peer was added are what moved since. -/
theorem Inv.fromAddition (hi : s.Inv) (keys : List Key) (seen : Key → Direction → Nat) :
    FromAddition (s.answer keys seen seen) := by
  intro peer hpeer
  have hsince : ∀ d, seen peer.key d - s.base peer.key d = seen peer.key d := fun d => by
    rw [hi.base, Nat.sub_zero]
  simp only [hsince]
  beta_reduce at hpeer
  split at hpeer
  · obtain ⟨hup, hdown⟩ := Traffic.mk.inj (Option.some.inj hpeer)
    refine ⟨hup.symm, hdown.symm, fun item _ =>
      ⟨item.baseUpload + peer.upload != item.upload, ?_⟩⟩
    rw [hup, hdown]
    rfl
  · cases hpeer

theorem Inv.finish (hi : s.Inv) {i : Nat} {order : List Key} (h : s.finish i order = some s') :
    s'.Inv := by
  unfold Proxy.finish at h
  split at h
  · rename_i got seen hcall
    split at h
    · cases h
      have hsame : got = seen := hi.calls _ (List.mem_of_getElem? hcall)
      rw [hsame]
      exact hi.set (hi.fromAddition order seen)
    · cases h
  · rename_i keys got seen hcall
    cases h
    have hsame : got = seen := hi.calls _ (List.mem_of_getElem? hcall)
    rw [hsame]
    exact hi.set (hi.fromAddition keys seen)
  · cases h

theorem Inv.step (hi : s.Inv) (hok : s.FreshKeys a) (h : s.step a = some s') : s'.Inv := by
  cases a with
  | count key d n =>
      cases h
      exact hi.count key d n
  | addUser data c =>
      cases h
      exact hi.addUser hok
  | put data =>
      change s.put data = some s' at h
      unfold Proxy.put at h
      split at h
      · cases h
      · split at h <;> cases h
        exact { hi with }
  | removeUser data c =>
      cases h
      unfold Proxy.removeUser
      split
      · exact hi
      · exact { hi with }
  | delete data =>
      change s.delete data = some s' at h
      unfold Proxy.delete at h
      split at h <;> cases h
      exact { hi with }
  | ask order => exact hi.ask h
  | getStats i err => exact hi.getStats hok h
  | finish i order => exact hi.finish h

/-- **A report counts from the moment its peer was added**, in every run in which no key is
added that has counted something. -/
theorem peers_since_added (h : Steps.Reach step FreshKeys (start : Proxy kind) s) :
    ∀ c ∈ s.calls, FromAddition c := by
  intro c hc
  have hfaithful := (h.invariant inv_start Inv.step).calls c hc
  cases c with
  | iterating keys todo got seen => trivial
  | queried got seen => trivial
  | returned items since => exact hfaithful
  | failed => exact hfaithful

/-- Peer data that both services accept. -/
def vlessPeer : List UInt8 := proxyVLESS :: List.replicate 16 7

/-- The peer with some counters. -/
def vlessReport (upload download : Int64) : Peer := ⟨Key.of vlessPeer, upload, download, by decide⟩

/-- A call of `Peers` as each service makes it, the only one so far. -/
def reportRun : ProxyKind → List Act
  | .xray => [.ask [], .finish 0 [Key.of vlessPeer]]
  | .v2ray => [.ask [Key.of vlessPeer], .getStats 0 none, .getStats 0 (some "not found"), .finish 0 []]

/-- The call lists the peer with these counters, and this much was counted since it was
added. -/
def StatsCall.reads (t : Traffic) (upload : Nat) : StatsCall → Bool
  | .returned items since =>
      decide (items (Key.of vlessPeer) = some t ∧ since (Key.of vlessPeer) .upload = upload)
  | _ => false

/-- A peer is added, and moves data in one direction. -/
def freshRun (kind : ProxyKind) : List Act :=
  [.addUser vlessPeer {}, .put vlessPeer, .count (Key.of vlessPeer) .upload 100] ++ reportRun kind

theorem peers_since_added_freshRun : ∃ s : Proxy .v2ray,
    s.calls.any (StatsCall.reads ⟨100, 0⟩ 100) = true ∧ ∀ c ∈ s.calls, FromAddition c := by
  obtain ⟨s, hreach, hp⟩ := Steps.exists_reach step FreshKeys (start : Proxy .v2ray)
    (freshRun .v2ray) (fun s => s.calls.any (StatsCall.reads ⟨100, 0⟩ 100)) (by decide)
  exact ⟨s, hp, peers_since_added hreach⟩

/-- The peer is removed, and added again. -/
def reusedRun (kind : ProxyKind) : List Act :=
  [.addUser vlessPeer {}, .put vlessPeer, .count (Key.of vlessPeer) .upload 100,
    .removeUser vlessPeer {}, .delete vlessPeer, .addUser vlessPeer {}, .put vlessPeer] ++
    reportRun kind

theorem reusedRun_reported (kind : ProxyKind) :
    (Steps.runs step (fun _ _ => True) (start : Proxy kind) (reusedRun kind)).map
      (fun s => s.calls.any (StatsCall.reads ⟨100, 0⟩ 0)) = some true := by
  cases kind with
  | xray => decide
  | v2ray => decide

theorem reusedRun_not_fromAddition (kind : ProxyKind) : ∃ s : Proxy kind,
    Steps.Reach step (fun _ _ => True) start s ∧ ∃ c ∈ s.calls, ¬ FromAddition c := by
  obtain ⟨s, hreach, hp⟩ := Steps.exists_reach step (fun _ _ => True) (start : Proxy kind)
    (reusedRun kind) _ (reusedRun_reported kind)
  obtain ⟨c, hc, hsays⟩ := List.any_eq_true.1 hp
  refine ⟨s, hreach, c, hc, fun hfrom => ?_⟩
  cases c with
  | returned items since =>
      obtain ⟨hitems, hsince⟩ := of_decide_eq_true hsays
      have hup := (hfrom (vlessReport 100 0) hitems).1
      rw [show (vlessReport 100 0).key = Key.of vlessPeer from rfl, hsince] at hup
      exact absurd hup (by decide)
  | _ => cases hsays

/-- **A key that was used before is charged for that**: with either service the peer has
moved nothing since it was added, and `Peers` reports 100 bytes. -/
theorem used_key_charged :
    (∃ s : Proxy .xray, Steps.Reach step (fun _ _ => True) start s ∧
      ∃ c ∈ s.calls, ¬ FromAddition c) ∧
    ∃ s : Proxy .v2ray, Steps.Reach step (fun _ _ => True) start s ∧
      ∃ c ∈ s.calls, ¬ FromAddition c :=
  ⟨reusedRun_not_fromAddition .xray, reusedRun_not_fromAddition .v2ray⟩

end Proxy

end Dvpnd
