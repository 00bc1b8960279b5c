import Dvpnd.Lib.Threads
import Dvpnd.Types.Chain
import Dvpnd.Types.Service

/-!
# The node's shared state and the calls that act on it

The handshakes and the jobs share one context (`context/context.go`): the VPN
service, the session database, the chain client and the admission lock.  This
file says what each call they make does to it, one atomic operation a call, and
everything outside the node (the chain, the disk, the daemons, the clock) is an
`Env` that may answer differently at every moment.

* `Node` — the table and the service's state, with a record of what happened:
  the questions put to the chain and the reports sent to it (`log`), the peers
  no control call has cut off yet (`uncut`), and the moments at which peers were
  added and counters were read.
* `Op`, `exec`, `machine` — the operations.
* `removePeer`, `hasPeer`, `removePeerIfExists` — `context/service.go`.
* `Quiet` — the relation of two states that differ in nothing the admission lock
  protects; `Op.IsRead.quiet` says that every read keeps it.
-/

namespace Dvpnd

open Effect

/-! ## Errors, events and the state -/

/-- The errors of the node's own calls.  `external` is a message from the
outside; `session` is `fmt.Errorf("session %d: %w", …)`. -/
inductive Err where
  | external (msg : String)
  | corruptInput
  | missingWhereClause
  | uniqueConstraint
  | session (id : Nat) (err : Err)
  deriving DecidableEq

/-- Which of the node's calls to the service this is. -/
inductive CallSite where
  /-- `admit` adds the peer. -/
  | admission
  /-- `admit` drops an earlier peer of the account. -/
  | eviction
  /-- `admit` takes out a peer whose row could not be written. -/
  | rollback
  /-- `setSessions` removes a peer without a row. -/
  | unknown
  /-- `setSessions` removes a peer that used up its allocation. -/
  | exceeded
  /-- `retire` removes the peer of a session that has ended. -/
  | retirement
  deriving DecidableEq, Repr

/-- What passed between the node and the chain. -/
inductive Event where
  | asked (id : Nat) (answer : Except String (Option ChainSession))
  | askedSubscription (id : Nat) (answer : Except String (Option Subscription))
  | reported (items : List Session) (ok : Bool)

/-- `setSessions` used a peer's counters on a session: whose they are, when they
were read, and when that peer was last added. -/
structure Usage where
  key : Key
  readAt : Nat
  addedAt : Nat
  deriving DecidableEq

/-- The state the threads of the node share. -/
structure Node (S : Service) where
  /-- The number of calls made so far. -/
  clock : Nat
  /-- The session table. -/
  table : Table
  /-- The VPN service. -/
  svc : S.State
  /-- What passed between the node and the chain, oldest first. -/
  log : List Event
  /-- The peers added since a control call last cut them off. -/
  uncut : Finset Key
  /-- When a peer was last added under a key. -/
  addedAt : Key → Nat
  /-- When the service's counters were last read. -/
  readAt : Nat
  /-- The peers listed by a `set_sessions` pass that has read the counters and
  not taken the lock yet. -/
  waiting : Option (List Key)
  /-- The uses `setSessions` has made of counters. -/
  usage : List Usage

/-- A node with nothing registered and an empty table. -/
def Node.fresh {S : Service} (svc : S.State) : Node S :=
  ⟨0, .empty, svc, [], ∅, fun _ => 0, 0, none, []⟩

/-- The keys of the peers registered with the service. -/
def Node.registered {S : Service} (s : Node S) : Finset Key := S.registered s.svc

/-- Everything the node does not decide: every answer may depend on the moment
it is asked for, and a database call fails when `database` has an error for
it. -/
structure Env (S : Service) where
  now : Nat → Int
  database : Nat → Option String
  peers : Nat → Except String (List Peer)
  control : Nat → CallSite → S.Ctl
  querySession : Nat → Nat → Except String (Option ChainSession)
  querySubscription : Nat → Nat → Except String (Option Subscription)
  queryAllocation : Nat → Nat → String → Except String (Option Allocation)
  updateSessions : Nat → List Session → Option String

/-! ## The operations -/

/-- One call of the node to its service, its database or the chain. -/
inductive Op where
  | peerCount
  | hasPeer (data : List UInt8)
  | addPeer (data : List UInt8)
  | removePeer (site : CallSite) (data : List UInt8)
  | peers
  | count (cond : Session)
  | find (cond : Session) (limit : Option Nat)
  | create (row : Session)
  | updates (cond : Session) (upload download : Int64)
  | delete (cond : Session)
  | deleteAll
  | vacuum
  | querySession (id : Nat)
  | querySubscription (id : Nat)
  | queryAllocation (id : Nat) (accAddress : String)
  | updateSessions (items : List Session)

/-- What a call returns; `none` is a nil error. -/
@[reducible] def Op.Res : Op → Type
  | .peerCount => Nat
  | .hasPeer _ => Bool
  | .addPeer _ => Except String (List UInt8)
  | .removePeer _ _ => Option String
  | .peers => Except String (List Peer)
  | .count _ => Except Err Nat
  | .find _ _ => Except Err (List Session)
  | .create _ => Option Err
  | .updates _ _ _ => Option Err
  | .delete _ => Option Err
  | .deleteAll => Option Err
  | .vacuum => Option Err
  | .querySession _ => Except String (Option ChainSession)
  | .querySubscription _ => Except String (Option Subscription)
  | .queryAllocation _ _ => Except String (Option Allocation)
  | .updateSessions _ => Option String

/-- The node's code: what it computes, with the calls it makes. -/
abbrev NodeM := Prog Op.Res

/-- Make one call. -/
def call (o : Op) : NodeM o.Res := Prog.perform o

variable {S : Service}

/-- A moment passes. -/
def Node.tick (s : Node S) : Node S := { s with clock := s.clock + 1 }

/-- The answer of a database read. -/
def dbRead {α : Type} (env : Env S) (s : Node S) (a : α) : Except Err α :=
  match env.database s.clock with
  | some e => .error (.external e)
  | none => .ok a

/-- A database write: it fails when the database does, or when the statement
itself is refused, and then changes nothing. -/
def dbWrite (env : Env S) (s : Node S) (w : Except Err (Node S)) : Option Err × Node S :=
  match env.database s.clock with
  | some e => (some (.external e), s.tick)
  | none =>
      match w with
      | .error e => (some e, s.tick)
      | .ok s' => (none, s'.tick)

/-- `Create(&row)`. -/
def execCreate (env : Env S) (row : Session) (s : Node S) : Option Err × Node S :=
  let now := env.now s.clock
  dbWrite env s <|
    match s.table.create { row with createdAt := now, updatedAt := now } with
    | none => .error .uniqueConstraint
    | some t => .ok { s with table := t }

/-- `Where(&cond).Updates(upload, download)`. -/
def execUpdates (env : Env S) (cond : Session) (upload download : Int64) (s : Node S) :
    Option Err × Node S :=
  dbWrite env s <|
    if cond.isZero then .error .missingWhereClause
    else .ok { s with
      table := s.table.setUsage cond upload download (env.now s.clock)
      usage := s.usage ++ (s.table.find cond).map fun r => ⟨r.key, s.readAt, s.addedAt r.key⟩ }

/-- `Where(&cond).Unscoped().Delete`. -/
def execDelete (env : Env S) (cond : Session) (s : Node S) : Option Err × Node S :=
  dbWrite env s <|
    if cond.isZero then .error .missingWhereClause
    else .ok { s with table := s.table.delete cond }

/-- The service's `AddPeer`. -/
def execAddPeer (env : Env S) (data : List UInt8) (s : Node S) :
    Except String (List UInt8) × Node S :=
  let r := S.addPeer data (env.control s.clock .admission) s.svc
  match r.1 with
  | .error e => (.error e, { s.tick with svc := r.2 })
  | .ok m => (.ok m, { s.tick with
      svc := r.2
      uncut := insert (Key.of data) s.uncut
      addedAt := Function.update s.addedAt (Key.of data) s.clock })

/-- The service's `RemovePeer`. -/
def execRemovePeer (env : Env S) (site : CallSite) (data : List UInt8) (s : Node S) :
    Option String × Node S :=
  let c := env.control s.clock site
  let r := S.removePeer data c s.svc
  (r.1, { s.tick with
    svc := r.2
    uncut := if S.cutOff data c s.svc then s.uncut.erase (Key.of data) else s.uncut
    usage := if site = .exceeded then
        s.usage ++ [⟨Key.of data, s.readAt, s.addedAt (Key.of data)⟩]
      else s.usage })

/-- The service's `Peers`. -/
def execPeers (env : Env S) (s : Node S) : Except String (List Peer) × Node S :=
  (env.peers s.clock, { s.tick with
    readAt := s.clock
    waiting := match env.peers s.clock with
      | .ok items => some (items.map Peer.key)
      | .error _ => none })

/-- What one call does. -/
def exec (env : Env S) : (o : Op) → Node S → o.Res × Node S
  | .peerCount, s => (S.peerCount s.svc, s.tick)
  | .hasPeer data, s => (S.hasPeer data s.svc, s.tick)
  | .addPeer data, s => execAddPeer env data s
  | .removePeer site data, s => execRemovePeer env site data s
  | .peers, s => execPeers env s
  | .count cond, s => (dbRead env s (s.table.find cond).length, s.tick)
  | .find cond limit, s =>
      (dbRead env s (match limit with
        | none => s.table.find cond
        | some n => (s.table.find cond).take n), s.tick)
  | .create row, s => execCreate env row s
  | .updates cond upload download, s => execUpdates env cond upload download s
  | .delete cond, s => execDelete env cond s
  | .deleteAll, s => dbWrite env s (.ok { s with table := .empty })
  | .vacuum, s => dbWrite env s (.ok s)
  | .querySession id, s =>
      (env.querySession s.clock id,
        { s.tick with log := s.log ++ [.asked id (env.querySession s.clock id)] })
  | .querySubscription id, s =>
      (env.querySubscription s.clock id,
        { s.tick with log := s.log ++ [.askedSubscription id (env.querySubscription s.clock id)] })
  | .queryAllocation id accAddress, s => (env.queryAllocation s.clock id accAddress, s.tick)
  | .updateSessions items, s =>
      (env.updateSessions s.clock items,
        { s.tick with log := s.log ++ [.reported items (env.updateSessions s.clock items).isNone] })

/-- The threads of the node: the two jobs, each of which runs one pass after
another, and any number of handshakes. -/
inductive Actor where
  | setSessions
  | updateSessions
  | handshake (n : Nat)
  deriving DecidableEq, Repr

/-- The node as a machine.  A `set_sessions` pass that takes the lock is no
longer waiting for it. -/
def machine (env : Env S) : Machine Op.Res Actor (Node S) where
  exec := exec env
  acquire i s := if i = .setSessions then { s with waiting := none } else s

/-! ## What a read leaves alone -/

/-- The two states differ in nothing the admission lock protects. -/
structure Quiet (s s' : Node S) : Prop where
  table : s'.table = s.table
  svc : s'.svc = s.svc
  uncut : s'.uncut = s.uncut

theorem Quiet.refl (s : Node S) : Quiet s s := ⟨rfl, rfl, rfl⟩

theorem Quiet.trans {a b c : Node S} (hab : Quiet a b) (hbc : Quiet b c) : Quiet a c :=
  ⟨hbc.table.trans hab.table, hbc.svc.trans hab.svc, hbc.uncut.trans hab.uncut⟩

theorem Node.tick_quiet (s : Node S) : Quiet s s.tick := ⟨rfl, rfl, rfl⟩

theorem Quiet.registered {s s' : Node S} (h : Quiet s s') : s'.registered = s.registered := by
  unfold Node.registered
  rw [h.svc]

/-- A write fails and changes nothing, or leaves what its statement asks for. -/
theorem dbWrite_cases (env : Env S) (s : Node S) (w : Except Err (Node S)) :
    (∃ e, dbWrite env s w = (some e, s.tick)) ∨
      ∃ t, w = .ok t ∧ dbWrite env s w = (none, t.tick) := by
  unfold dbWrite
  split
  · exact .inl ⟨_, rfl⟩
  · split
    · exact .inl ⟨_, rfl⟩
    · exact .inr ⟨_, rfl, rfl⟩

/-- An insert fails, or adds the row, stamped. -/
theorem execCreate_cases (env : Env S) (row : Session) (s : Node S) :
    (∃ e, execCreate env row s = (some e, s.tick)) ∨
      ∃ t, s.table.create { row with createdAt := env.now s.clock, updatedAt := env.now s.clock } =
          some t ∧
        execCreate env row s = (none, { s.tick with table := t }) := by
  rcases dbWrite_cases env s _ with he | ⟨t, ht, he⟩
  · exact .inl he
  · split at ht
    · cases ht
    · rename_i hcreate
      cases ht
      exact .inr ⟨_, hcreate, he⟩

/-- An update fails, or had a condition and writes the rows that meet it. -/
theorem execUpdates_cases (env : Env S) (cond : Session) (up down : Int64) (s : Node S) :
    (∃ e, execUpdates env cond up down s = (some e, s.tick)) ∨
      cond.isZero = false ∧ execUpdates env cond up down s = (none, { s.tick with
        table := s.table.setUsage cond up down (env.now s.clock)
        usage := s.usage ++
          (s.table.find cond).map fun r => ⟨r.key, s.readAt, s.addedAt r.key⟩ }) := by
  rcases dbWrite_cases env s _ with he | ⟨t, ht, he⟩
  · exact .inl he
  · split at ht
    · cases ht
    · rename_i hz
      cases ht
      exact .inr ⟨Bool.eq_false_iff.2 hz, he⟩

/-- A delete fails, or had a condition and takes the rows that meet it. -/
theorem execDelete_cases (env : Env S) (cond : Session) (s : Node S) :
    (∃ e, execDelete env cond s = (some e, s.tick)) ∨
      cond.isZero = false ∧
        execDelete env cond s = (none, { s.tick with table := s.table.delete cond }) := by
  rcases dbWrite_cases env s _ with he | ⟨t, ht, he⟩
  · exact .inl he
  · split at ht
    · cases ht
    · rename_i hz
      cases ht
      exact .inr ⟨Bool.eq_false_iff.2 hz, he⟩

/-- `AddPeer` fails and leaves what the service then leaves, or the peer's traffic
may pass from this moment on. -/
theorem execAddPeer_cases (env : Env S) (data : List UInt8) (s : Node S) :
    (∃ e, (S.addPeer data (env.control s.clock .admission) s.svc).1 = .error e ∧
      execAddPeer env data s = (.error e, { s.tick with
        svc := (S.addPeer data (env.control s.clock .admission) s.svc).2 })) ∨
    ∃ m, (S.addPeer data (env.control s.clock .admission) s.svc).1 = .ok m ∧
      execAddPeer env data s = (.ok m, { s.tick with
        svc := (S.addPeer data (env.control s.clock .admission) s.svc).2
        uncut := insert (Key.of data) s.uncut
        addedAt := Function.update s.addedAt (Key.of data) s.clock }) := by
  unfold execAddPeer
  dsimp only
  split
  · rename_i e hadd
    exact .inl ⟨e, hadd, rfl⟩
  · rename_i m hadd
    exact .inr ⟨m, hadd, rfl⟩

/-- The statements that write to the database. -/
def Op.IsStatement : Op → Prop
  | .create _ | .updates _ _ _ | .delete _ | .deleteAll | .vacuum => True
  | _ => False

/-- A statement changes the table and, when it stores usage, the record of that;
the rest of the node stays. -/
theorem Op.IsStatement.frame (env : Env S) {o : Op} (ho : o.IsStatement) (s : Node S) :
    ∃ T U, (exec env o s).2 = { s.tick with table := T, usage := U } ∧
      ((∀ cond up down, o ≠ .updates cond up down) → U = s.usage) := by
  cases o with
  | create row =>
      rcases execCreate_cases env row s with ⟨e, he⟩ | ⟨t, -, he⟩
      · exact ⟨s.table, s.usage, congrArg Prod.snd he, fun _ => rfl⟩
      · exact ⟨t, s.usage, congrArg Prod.snd he, fun _ => rfl⟩
  | updates cond up down =>
      rcases execUpdates_cases env cond up down s with ⟨e, he⟩ | ⟨-, he⟩
      · exact ⟨s.table, s.usage, congrArg Prod.snd he, fun _ => rfl⟩
      · exact ⟨_, _, congrArg Prod.snd he, fun hne => absurd rfl (hne cond up down)⟩
  | delete cond =>
      rcases execDelete_cases env cond s with ⟨e, he⟩ | ⟨-, he⟩
      · exact ⟨s.table, s.usage, congrArg Prod.snd he, fun _ => rfl⟩
      · exact ⟨_, s.usage, congrArg Prod.snd he, fun _ => rfl⟩
  | deleteAll =>
      rcases dbWrite_cases env s (.ok { s with table := .empty }) with ⟨e, he⟩ | ⟨t, ht, he⟩
      · exact ⟨s.table, s.usage, congrArg Prod.snd he, fun _ => rfl⟩
      · cases ht
        exact ⟨.empty, s.usage, congrArg Prod.snd he, fun _ => rfl⟩
  | vacuum =>
      rcases dbWrite_cases env s (.ok s) with ⟨e, he⟩ | ⟨t, ht, he⟩
      · exact ⟨s.table, s.usage, congrArg Prod.snd he, fun _ => rfl⟩
      · cases ht
        exact ⟨s.table, s.usage, congrArg Prod.snd he, fun _ => rfl⟩
  | _ => exact absurd ho id

/-- The calls that only ask.  `Peers` is not one of them: when the counters were
read is on record. -/
def Op.IsRead : Op → Prop
  | .addPeer _ | .removePeer _ _ | .peers | .create _ | .updates _ _ _ | .delete _
  | .deleteAll => False
  | _ => True

/-- A statement that writes no row is quiet whether or not it fails. -/
theorem dbWrite_quiet (env : Env S) (s : Node S) : Quiet s (dbWrite env s (.ok s)).2 := by
  rcases dbWrite_cases env s (.ok s) with ⟨e, he⟩ | ⟨t, ht, he⟩
  · rw [he]
    exact s.tick_quiet
  · cases ht
    rw [he]
    exact s.tick_quiet

/-- **Reads are quiet**: a call that only asks changes nothing the lock protects. -/
theorem Op.IsRead.quiet (env : Env S) {o : Op} (ho : o.IsRead) (s : Node S) :
    Quiet s (exec env o s).2 := by
  cases o with
  | addPeer _ | removePeer _ _ | peers | create _ | updates _ _ _ | delete _ | deleteAll =>
      exact absurd ho id
  | vacuum => exact dbWrite_quiet env s
  | peerCount | hasPeer _ | count _ | find _ _ | querySession _ | querySubscription _
  | queryAllocation _ _ | updateSessions _ => exact ⟨rfl, rfl, rfl⟩

/-- A record only grows. -/
theorem Op.IsRead.log_prefix (env : Env S) {o : Op} (ho : o.IsRead) (s : Node S) :
    s.log <+: (exec env o s).2.log := by
  cases o with
  | addPeer _ | removePeer _ _ | peers | create _ | updates _ _ _ | delete _ | deleteAll =>
      exact absurd ho id
  | querySession _ | querySubscription _ | updateSessions _ => exact List.prefix_append _ _
  | vacuum =>
      obtain ⟨T, U, he, -⟩ := Op.IsStatement.frame env (o := .vacuum) trivial s
      rw [he]
      exact List.prefix_rfl
  | peerCount | hasPeer _ | count _ | find _ _ | queryAllocation _ _ => exact List.prefix_rfl

theorem acquire_quiet (env : Env S) (i : Actor) (s : Node S) :
    Quiet s ((machine env).acquire i s) := by
  show Quiet s (if i = .setSessions then { s with waiting := none } else s)
  split
  · exact ⟨rfl, rfl, rfl⟩
  · exact Quiet.refl s

/-- A program that only asks leaves the table and the peers alone and adds to the
record. -/
theorem reads_run (env : Env S) (i : Actor) {α : Type} {p : NodeM α} (hp : Prog.Plain Op.IsRead p)
    (s : Node S) :
    Quiet s (p.run (machine env) i s).2 ∧ s.log <+: (p.run (machine env) i s).2.log := by
  refine ⟨hp.uses.run_rel (machine env) i Quiet.refl Quiet.trans (acquire_quiet env i)
      (fun o t ho => ho.quiet env t) s,
    hp.uses.run_rel (machine env) i (R := fun s t => s.log <+: t.log) (fun _ => List.prefix_rfl)
      List.IsPrefix.trans (fun t => ?_) (fun o t ho => ho.log_prefix env t) s⟩
  show t.log <+: (if i = .setSessions then { t with waiting := none } else t).log
  split <;> exact List.prefix_rfl

/-- What an unlimited query returns, when it returns, is what the table holds. -/
theorem find_ok {env : Env S} {s : Node S} {cond : Session} {items : List Session}
    (h : (exec env (.find cond none) s).1 = .ok items) : items = s.table.find cond := by
  have h' : dbRead env s (s.table.find cond) = .ok items := h
  unfold dbRead at h'
  split at h'
  · cases h'
  · cases h'; rfl

/-- What a count returns, when it returns. -/
theorem count_ok {env : Env S} {s : Node S} {cond : Session} {n : Nat}
    (h : (exec env (.count cond) s).1 = .ok n) : (s.table.find cond).length = n := by
  have h' : dbRead env s (s.table.find cond).length = .ok n := h
  unfold dbRead at h'
  split at h'
  · cases h'
  · exact Except.ok.inj h'

/-- The query without a condition returns the whole table. -/
theorem find_all {env : Env S} {s : Node S} {items : List Session}
    (h : (exec env (.find {} none) s).1 = .ok items) : items = s.table.rows := by
  rw [find_ok h]
  exact List.filter_eq_self.2 fun r _ => Session.satisfies_id.2 (Or.inl rfl)

/-- The calls that do not write to the table. -/
def Op.KeepsTable : Op → Prop
  | .create _ | .updates _ _ _ | .delete _ | .deleteAll => False
  | _ => True

theorem Op.KeepsTable.table (env : Env S) {o : Op} (ho : o.KeepsTable) (s : Node S) :
    (exec env o s).2.table = s.table := by
  cases o with
  | create _ | updates _ _ _ | delete _ | deleteAll => exact absurd ho id
  | addPeer data =>
      show (execAddPeer env data s).2.table = s.table
      rcases execAddPeer_cases env data s with ⟨e, -, he⟩ | ⟨m, -, he⟩ <;> rw [he] <;> rfl
  | removePeer _ _ | peers => rfl
  | peerCount | hasPeer _ | count _ | find _ _ | vacuum | querySession _ | querySubscription _
  | queryAllocation _ _ | updateSessions _ => exact (Op.IsRead.quiet env (by exact trivial) s).table

theorem Op.IsRead.keepsTable {o : Op} (ho : o.IsRead) : o.KeepsTable := by
  cases o with
  | addPeer _ | removePeer _ _ | peers | create _ | updates _ _ _ | delete _ | deleteAll =>
      exact absurd ho id
  | peerCount | hasPeer _ | count _ | find _ _ | vacuum | querySession _ | querySubscription _
  | queryAllocation _ _ | updateSessions _ => trivial

/-- The calls that neither add a peer nor add or delete a row. -/
def Op.KeepsRows : Op → Prop
  | .addPeer _ | .create _ | .delete _ | .deleteAll => False
  | _ => True

/-- The calls that add no peer. -/
def Op.AddsNoPeer : Op → Prop
  | .addPeer _ => False
  | _ => True

theorem Op.KeepsRows.addsNoPeer {o : Op} (ho : o.KeepsRows) : o.AddsNoPeer := by
  cases o with
  | addPeer _ => exact ho
  | _ => trivial

theorem Op.IsRead.addsNoPeer {o : Op} (ho : o.IsRead) : o.AddsNoPeer := by
  cases o with
  | addPeer _ => exact ho
  | _ => trivial

/-- Such a call is a removal, or has nothing to do with the service. -/
theorem Op.AddsNoPeer.cases (env : Env S) {o : Op} (ho : o.AddsNoPeer) (s : Node S) :
    (∃ site data, o = .removePeer site data) ∨
      ((exec env o s).2.svc = s.svc ∧ (exec env o s).2.uncut = s.uncut) := by
  by_cases hst : o.IsStatement
  · obtain ⟨T, U, he, -⟩ := hst.frame env s
    rw [he]
    exact .inr ⟨rfl, rfl⟩
  cases o with
  | addPeer _ => exact absurd ho id
  | removePeer site data => exact .inl ⟨site, data, rfl⟩
  | create _ | updates _ _ _ | delete _ | deleteAll | vacuum => exact absurd trivial hst
  | peers | peerCount | hasPeer _ | count _ | find _ _ | querySession _ | querySubscription _
  | queryAllocation _ _ | updateSessions _ => exact .inr ⟨rfl, rfl⟩

/-- It leaves a service that is well formed so. -/
theorem Op.AddsNoPeer.wf (hS : S.Sound) (env : Env S) {o : Op} (ho : o.AddsNoPeer) (s : Node S)
    (h : S.wf s.svc) : S.wf (exec env o s).2.svc := by
  rcases ho.cases env s with ⟨site, data, rfl⟩ | ⟨hsvc, -⟩
  · exact hS.wf_removePeer h
  · rw [hsvc]; exact h

theorem wf_run (hS : S.Sound) (env : Env S) (i : Actor) {α : Type} {p : NodeM α}
    (hp : Prog.Uses Op.AddsNoPeer p) (s : Node S) (h : S.wf s.svc) :
    S.wf (p.run (machine env) i s).2.svc := by
  refine hp.run_rel (machine env) i (R := fun s t => S.wf s.svc → S.wf t.svc) (fun _ => id)
    (fun hab hbc ha => hbc (hab ha)) (fun t ht => ?_) (fun o t ho ht => ho.wf hS env t ht) s h
  rw [(acquire_quiet env i t).svc]
  exact ht

/-! ## The calls of `context/service.go` -/

/-- `Context.RemovePeer`. -/
def removePeer (site : CallSite) (key : Key) : NodeM (Option Err) :=
  match Base64.decodeString key.text with
  | none => return some .corruptInput
  | some data => do
      let err ← call (.removePeer site data)
      return err.map .external

/-- `Context.HasPeer`. -/
def hasPeer (key : Key) : NodeM (Except Err Bool) :=
  match Base64.decodeString key.text with
  | none => return .error .corruptInput
  | some data => do
      let ok ← call (.hasPeer data)
      return .ok ok

/-- `Context.RemovePeerIfExists`. -/
def removePeerIfExists (site : CallSite) (key : Key) : NodeM (Option Err) := do
  match ← hasPeer key with
  | .error e => return some e
  | .ok false => return none
  | .ok true => removePeer site key

theorem removePeer_plain {P : Op → Prop} {site : CallSite} (h : ∀ data, P (.removePeer site data))
    (key : Key) : Prog.Plain P (removePeer site key) := by
  unfold removePeer
  split
  · exact .ret _
  · exact .perform_bind (h _) fun _ => .ret _

theorem removePeerIfExists_plain {P : Op → Prop} {site : CallSite} (hhas : ∀ data, P (.hasPeer data))
    (h : ∀ data, P (.removePeer site data)) (key : Key) :
    Prog.Plain P (removePeerIfExists site key) := by
  unfold removePeerIfExists hasPeer
  split
  · exact .ret _
  · refine .perform_bind (hhas _) fun r => ?_
    cases r with
    | false => exact .ret _
    | true => exact removePeer_plain h key

/-! ## What those calls do when run -/

section Run

variable (env : Env S) (i : Actor)

/-- `RemovePeer` of a key is the service's removal of the data it stands for. -/
theorem run_removePeer (site : CallSite) (data : List UInt8) (s : Node S) :
    (removePeer site (Key.of data)).run (machine env) i s =
      ((execRemovePeer env site data s).1.map .external, (execRemovePeer env site data s).2) := by
  unfold removePeer
  rw [show Base64.decodeString (Key.of data).text = some data from
    Base64.decodeString_encodeToString data]
  rfl

/-- `RemovePeerIfExists` leaves an unknown peer alone and removes a known one. -/
theorem run_removePeerIfExists (site : CallSite) (data : List UInt8) (s : Node S) :
    (removePeerIfExists site (Key.of data)).run (machine env) i s =
      if S.hasPeer data s.svc then (removePeer site (Key.of data)).run (machine env) i s.tick
      else (none, s.tick) := by
  unfold removePeerIfExists hasPeer
  rw [show Base64.decodeString (Key.of data).text = some data from
    Base64.decodeString_encodeToString data]
  show Prog.run _ _ (match (Except.ok (S.hasPeer data s.svc) : Except Err Bool) with
    | .error e => pure (some e)
    | .ok false => pure none
    | .ok true => removePeer site (Key.of data)) s.tick = _
  cases S.hasPeer data s.svc with
  | false => rfl
  | true => rfl

end Run

/-- Nothing happens but that the peer of `key` may be gone. -/
structure PeerOut (key : Key) (s s' : Node S) : Prop where
  table : s'.table = s.table
  log : s'.log = s.log
  peers : s'.registered = s.registered ∨ s'.registered = s.registered.erase key
  wf : S.wf s'.svc

/-- `RemovePeerIfExists` touches no other peer, and returns nil only when the peer
is gone. -/
theorem removePeerIfExists_spec (hS : S.Sound) (env : Env S) (i : Actor) (site : CallSite)
    (key : Key) {s : Node S} (hwf : S.wf s.svc) :
    PeerOut key s ((removePeerIfExists site key).run (machine env) i s).2 ∧
      (((removePeerIfExists site key).run (machine env) i s).1 = none →
        key ∉ ((removePeerIfExists site key).run (machine env) i s).2.registered) := by
  obtain ⟨data, -, rfl⟩ := key.decode
  rw [run_removePeerIfExists, run_removePeer]
  cases hhas : S.hasPeer data s.svc with
  | false =>
      refine ⟨⟨rfl, rfl, Or.inl rfl, hwf⟩, fun _ hmem => ?_⟩
      rw [(hS.hasPeer_iff data s.svc).2 hmem] at hhas
      cases hhas
  | true =>
      refine ⟨⟨rfl, rfl, hS.removePeer_cases data _ s.tick.svc,
        hS.wf_removePeer (s := s.tick.svc) hwf⟩, fun hnone => ?_⟩
      have hok : (S.removePeer data (env.control s.tick.clock site) s.tick.svc).1 = none := by
        simpa [execRemovePeer] using hnone
      show Key.of data ∉ S.registered (S.removePeer data _ s.tick.svc).2
      rw [hS.removePeer_ok (s := s.tick.svc) hwf hok]
      exact Finset.notMem_erase _ _

end Dvpnd
