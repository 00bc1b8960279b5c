import Dvpnd.Lib.Lists
import Dvpnd.Lib.Steps
import Dvpnd.Services.Clients

/-!
# Deciding about clients while one is removed

OpenVPN presents each connecting client to the node and waits for its decision
(`services/openvpn/management.go`).  Four parties take turns: the server, the reader
of its output, a goroutine of `send` for each decision on its way, and the calls of
`RemovePeer`, which ask for the status table and kill the clients it lists.

* `Link`, `step` — the state they share and what each of them can do.
* `Moves`, `step_moves` — what one step can do to the decisions and the connections.
* `Barring` — **no connection of a name is authorised, or will be, but for those still
  to be killed**; every step but an `AddPeer` of the name keeps it.
* `removal_bars_of_settled` — a removal that waits for the decisions on their way
  before it asks for the table bars its client for good.
* `late_decision_readmits` — as it is, a decision that is overtaken by the removal
  authorises the client after `RemovePeer` has returned without an error.
-/

namespace Dvpnd

/-! ## The state -/

/-- A connection at the server. -/
structure Connection where
  commonName : String
  /-- The key id it waits for a decision on. -/
  pending : Option Nat
  authorised : Bool := false
  alive : Bool := true
  deriving DecidableEq

namespace Connection

/-- `client-auth-nt`: of no effect unless the connection waits for this decision. -/
def authorise (kid : Nat) (c : Connection) : Connection :=
  if c.alive ∧ c.pending = some kid then { c with authorised := true, pending := none } else c

/-- A new key waits for a decision; the connection goes on meanwhile. -/
def renew (kid : Nat) (c : Connection) : Connection := { c with pending := some kid }

/-- The connection ends. -/
def close (c : Connection) : Connection :=
  { c with authorised := false, alive := false, pending := none }

/-- `client-deny`. -/
def deny (kid : Nat) (c : Connection) : Connection :=
  if c.pending = some kid then c.close else c

end Connection

/-- What the node writes to the server.  A client id is the index of the connection;
`call` is the call of `RemovePeer` that waits for the reply. -/
inductive Command
  | clientAuth (cid kid : Nat)
  | clientDeny (cid kid : Nat)
  | status (call : Nat)
  | clientKill (call cid : Nat)
  deriving DecidableEq

/-- What the server writes: an event that asks for a decision, or a reply.  The
replies to decisions are read by no one. -/
inductive Output
  | event (cid kid : Nat) (commonName : String)
  | table (call : Nat) (rows : List (Nat × String))
  | killed (call cid : Nat) (err : Option String)
  | failed (call : Nat)
  deriving DecidableEq

/-- The call a command is written for. -/
def Command.call : Command → Option Nat
  | .status call | .clientKill call _ => some call
  | .clientAuth _ _ | .clientDeny _ _ => none

/-- The call a reply is for. -/
def Output.call : Output → Option Nat
  | .table call _ | .killed call _ _ | .failed call => some call
  | .event _ _ _ => none

/-- How far a call of `RemovePeer` has come. -/
inductive Stage
  /-- The peer is forgotten, nothing is written yet. -/
  | struck
  /-- It waits for the status table. -/
  | asked
  /-- These clients are still to be killed. -/
  | killing (cids : List Nat)
  /-- It waits for the reply to the first `client-kill`. -/
  | waiting (cid : Nat) (cids : List Nat)
  | returned (ok : Bool)
  deriving DecidableEq

/-- A call that is not waiting for a reply. -/
def Stage.idle : Stage → Bool
  | .struck | .killing _ => true
  | .asked | .waiting _ _ | .returned _ => false

/-- A call of `RemovePeer`, and whether the peer has been added since it was struck
out. -/
structure Removal where
  commonName : String
  stage : Stage := .struck
  readded : Bool := false
  deriving DecidableEq

namespace Removal

/-- The client ids `kill` goes through: those of the rows with the peer's name. -/
def own (rows : List (Nat × String)) (r : Removal) : List Nat :=
  (rows.filter fun row => row.2 = r.commonName).map Prod.fst

/-- The rows of `status` reach `kill`. -/
def gotTable (rows : List (Nat × String)) (r : Removal) : Removal :=
  match r.stage with
  | .asked => { r with stage := .killing (r.own rows) }
  | _ => r

/-- The reply to a `client-kill`: an error ends the loop, unless it says the client was
not found. -/
def gotKilled (cid : Nat) (err : Option String) (r : Removal) : Removal :=
  match r.stage with
  | .waiting c cids =>
      if c = cid then
        { r with stage := if err.all notFound then .killing cids else .returned false }
      else r
  | _ => r

/-- A reply the call does not wait for changes nothing. -/
theorem gotKilled_of_not_waiting {r : Removal} {cid : Nat} {err : Option String}
    (h : ¬ ∃ cids, r.stage = .waiting cid cids) : r.gotKilled cid err = r := by
  unfold gotKilled
  cases hstage : r.stage with
  | waiting c cids =>
      have hcid : c ≠ cid := fun hcid => h ⟨cids, by rw [hstage, hcid]⟩
      simp only [hcid, if_false]
  | _ => rfl

/-- An error in place of the table. -/
def gotError (r : Removal) : Removal :=
  match r.stage with
  | .asked => { r with stage := .returned false }
  | _ => r

end Removal

/-- The node, the server and what is on its way between them. -/
structure Link where
  clients : Clients
  conns : List Connection
  /-- Written by the server, to be read in this order. -/
  output : List Output
  /-- Decisions whose goroutine has not written them yet. -/
  unsent : List Command
  /-- Written by the node, to be executed in this order. -/
  written : List Command
  removals : List Removal

namespace Link

/-- A node that has just started, with no client. -/
def start : Link := ⟨Clients.empty, [], [], [], [], []⟩

/-! ## The steps -/

/-- `admit`. -/
def admits (s : Link) (commonName : String) : Bool := (s.clients.names commonName).isSome

/-- A client connects; the server asks about it. -/
def connect (s : Link) (commonName : String) (kid : Nat) : Link :=
  { s with
    conns := s.conns ++ [{ commonName, pending := some kid }]
    output := s.output ++ [.event s.conns.length kid commonName] }

/-- A client that is let in renews its key; the server asks again. -/
def reauth (s : Link) (cid kid : Nat) : Option Link :=
  match s.conns[cid]? with
  | none => none
  | some c =>
      if c.authorised then
        some { s with
          conns := s.conns.modify cid (.renew kid)
          output := s.output ++ [.event cid kid c.commonName] }
      else none

/-- A client leaves. -/
def leave (s : Link) (cid : Nat) : Link := { s with conns := s.conns.modify cid .close }

/-- The lines of the status table: the authorised clients. -/
def statusRows (s : Link) : List (Nat × String) :=
  (s.conns.zipIdx.filter fun row => row.1.authorised).map fun row => (row.2, row.1.commonName)

/-- Whether a connection is open. -/
def isAlive (s : Link) (cid : Nat) : Bool := s.conns[cid]?.any Connection.alive

/-- The server executes the first command that is written.  It may refuse a request
with an error, but says that a client was not found only where that is so. -/
def execute (s : Link) (refusal : Option String) : Option Link :=
  match s.written with
  | [] => none
  | .clientAuth cid kid :: written =>
      some { s with written, conns := s.conns.modify cid (.authorise kid) }
  | .clientDeny cid kid :: written =>
      some { s with written, conns := s.conns.modify cid (.deny kid) }
  | .status call :: written =>
      match refusal with
      | none => some { s with written, output := s.output ++ [.table call s.statusRows] }
      | some _ => some { s with written, output := s.output ++ [.failed call] }
  | .clientKill call cid :: written =>
      match refusal with
      | none => some { s with
          written, conns := s.conns.modify cid .close
          output := s.output ++ [.killed call cid none] }
      | some e =>
          if notFound e && s.isAlive cid then none
          else some { s with written, output := s.output ++ [.killed call cid (some e)] }

/-- `finishEvent` for `CONNECT` and `REAUTH`: the decision is taken here, and left to a
goroutine to write. -/
def finishEvent (s : Link) (cid kid : Nat) (commonName : String) : Link :=
  { s with unsent := s.unsent ++
      [if s.admits commonName then .clientAuth cid kid else .clientDeny cid kid] }

/-- The reader takes what the server wrote first, and handles the event or hands the
reply to the call that waits for it. -/
def read (s : Link) : Option Link :=
  match s.output with
  | [] => none
  | .event cid kid commonName :: output => some ({ s with output }.finishEvent cid kid commonName)
  | .table call rows :: output =>
      some { s with output, removals := s.removals.modify call (.gotTable rows) }
  | .killed call cid err :: output =>
      some { s with output, removals := s.removals.modify call (.gotKilled cid err) }
  | .failed call :: output => some { s with output, removals := s.removals.modify call .gotError }

/-- A goroutine of `send` gets to write its decision; they run in any order. -/
def send (s : Link) (i : Nat) : Option Link :=
  match s.unsent[i]? with
  | none => none
  | some cmd => some { s with unsent := s.unsent.eraseIdx i, written := s.written ++ [cmd] }

/-- `AddPeer`, up to the certificate it issues. -/
def addPeer (s : Link) (data : List UInt8) : Link :=
  match h : checkPeerData data with
  | some _ => s
  | none =>
      { s with
        clients := s.clients.add data h
        removals := s.removals.map fun r =>
          if r.commonName = formatUUID data then { r with readded := true } else r }

/-- `RemovePeer` as far as `kill`: the peer is struck out. -/
def removePeer (s : Link) (data : List UInt8) : Link :=
  match checkPeerData data with
  | some _ => s
  | none =>
      { s with
        clients := s.clients.forget data
        removals := s.removals ++ [{ commonName := formatUUID data }] }

/-- A call of `RemovePeer` goes on with `kill`: it writes its next command, or returns. -/
def proceed (s : Link) (call : Nat) : Option Link :=
  match s.removals[call]? with
  | none => none
  | some r =>
      match r.stage with
      | .struck => some { s with
          removals := s.removals.set call { r with stage := .asked }
          written := s.written ++ [.status call] }
      | .killing (cid :: cids) => some { s with
          removals := s.removals.set call { r with stage := .waiting cid cids }
          written := s.written ++ [.clientKill call cid] }
      | .killing [] => some { s with
          removals := s.removals.set call { r with stage := .returned true } }
      | _ => none

/-- A command cannot be written, or its reply does not come in time. -/
def giveUp (s : Link) (call : Nat) : Option Link :=
  match s.removals[call]? with
  | none => none
  | some r =>
      match r.stage with
      | .killing [] | .returned _ => none
      | _ => some { s with removals := s.removals.set call { r with stage := .returned false } }

/-- Who takes the next turn. -/
inductive Act
  | connect (commonName : String) (kid : Nat)
  | reauth (cid kid : Nat)
  | leave (cid : Nat)
  | execute (refusal : Option String)
  | read
  | send (i : Nat)
  | addPeer (data : List UInt8)
  | removePeer (data : List UInt8)
  | proceed (call : Nat)
  | giveUp (call : Nat)

/-- One turn. -/
def step (s : Link) : Act → Option Link
  | .connect commonName kid => some (s.connect commonName kid)
  | .reauth cid kid => s.reauth cid kid
  | .leave cid => some (s.leave cid)
  | .execute refusal => s.execute refusal
  | .read => s.read
  | .send i => s.send i
  | .addPeer data => some (s.addPeer data)
  | .removePeer data => some (s.removePeer data)
  | .proceed call => s.proceed call
  | .giveUp call => s.giveUp call

/-! ## What a removal is to achieve, and when it does -/

/-- The name of a connection. -/
def nameOf (s : Link) (cid : Nat) : Option String := s.conns[cid]?.map Connection.commonName

/-- The command lets in a connection of that name. -/
def LetsIn (s : Link) (commonName : String) : Command → Prop
  | .clientAuth cid _ => s.nameOf cid = some commonName
  | _ => False

instance (s : Link) (commonName : String) : DecidablePred (s.LetsIn commonName)
  | .clientAuth cid _ => inferInstanceAs (Decidable (s.nameOf cid = some commonName))
  | .clientDeny _ _ => inferInstanceAs (Decidable False)
  | .status _ => inferInstanceAs (Decidable False)
  | .clientKill _ _ => inferInstanceAs (Decidable False)

/-- Once `RemovePeer` has returned without an error, and until the peer is added again,
no connection with its name is authorised. -/
def Barred (s : Link) : Prop :=
  ∀ r ∈ s.removals, r.stage = .returned true → r.readded = false →
    ∀ c ∈ s.conns, c.commonName = r.commonName → c.authorised = false

instance (s : Link) : Decidable s.Barred := by unfold Barred; infer_instance

/-- No decision to let in a connection of that name waits to be written. -/
def Settled (s : Link) (commonName : String) : Prop :=
  ∀ cmd ∈ s.unsent, ¬ s.LetsIn commonName cmd

instance (s : Link) (commonName : String) : Decidable (s.Settled commonName) := by
  unfold Settled; infer_instance

/-- `RemovePeer` asks for the status table only once the decisions for its name are
written. -/
def Waits (s : Link) : Act → Prop
  | .proceed call => ∀ r ∈ s.removals[call]?, r.stage = .struck → s.Settled r.commonName
  | _ => True

instance (s : Link) : (a : Act) → Decidable (s.Waits a)
  | .proceed call =>
      inferInstanceAs
        (Decidable (∀ r ∈ s.removals[call]?, r.stage = .struck → s.Settled r.commonName))
  | .connect _ _ | .reauth _ _ | .leave _ | .execute _ | .read | .send _ | .addPeer _
  | .removePeer _ | .giveUp _ => inferInstanceAs (Decidable True)

/-! ## What one step can do -/

variable {s s' : Link} {a : Act} {n : String}

/-- A peer of that name is added. -/
def Adds (n : String) (a : Act) : Prop :=
  ∃ data, a = .addPeer data ∧ checkPeerData data = none ∧ formatUUID data = n

/-- What a step can do to the names, the decisions and the connections. -/
structure Moves (s : Link) (a : Act) (s' : Link) : Prop where
  admits : ∀ {n}, s'.admits n = true → s.admits n = true ∨ Adds n a
  nameOf : ∀ {cid n}, s.nameOf cid = some n → s'.nameOf cid = some n
  /-- A connection is authorised because it was, or by the command that is executed. -/
  authorised : ∀ {cid c'}, s'.conns[cid]? = some c' → c'.authorised = true →
    ∃ c, s.conns[cid]? = some c ∧ c.commonName = c'.commonName ∧
      (c.authorised = true ∧ c.alive = c'.alive ∨
        c'.alive = true ∧ ∃ kid, .clientAuth cid kid ∈ s.written)
  /-- A decision is taken about an event that was read. -/
  unsent : ∀ {cmd}, cmd ∈ s'.unsent → cmd ∈ s.unsent ∨ (∃ cid kid, cmd = .clientDeny cid kid) ∨
    ∃ cid kid n, cmd = .clientAuth cid kid ∧ .event cid kid n ∈ s.output ∧ s.admits n = true
  /-- One command is written at the end, or one is taken from the front. -/
  written : s'.written = s.written ∨ (∃ cmd, s.written = cmd :: s'.written) ∨
    ∃ cmd, s'.written = s.written ++ [cmd] ∧ (cmd ∈ s.unsent ∨ cmd.call ≠ none)
  event : ∀ {cid kid n}, .event cid kid n ∈ s'.output →
    .event cid kid n ∈ s.output ∨ s'.nameOf cid = some n
  table : ∀ {call rows}, .table call rows ∈ s'.output → .table call rows ∈ s.output ∨
    s.written = .status call :: s'.written ∧ rows = s'.statusRows ∧ s'.unsent = s.unsent
  killed : ∀ {call cid err}, .killed call cid err ∈ s'.output →
    .killed call cid err ∈ s.output ∨ (err.all notFound = true →
      ∀ c, s'.conns[cid]? = some c → c.authorised = false ∨ c.alive = false)

/-- A step that leaves the connections, the commands and the server's output alone, and
lets in no one new. -/
theorem Moves.of_same (hadmits : ∀ {n}, s'.admits n = true → s.admits n = true ∨ Adds n a)
    (hconns : s'.conns = s.conns) (hout : s'.output ⊆ s.output)
    (hunsent : s'.unsent = s.unsent) (hwritten : s'.written = s.written ∨
      ∃ cmd, s'.written = s.written ++ [cmd] ∧ cmd.call ≠ none) : Moves s a s' where
  admits := hadmits
  nameOf h := by rw [Link.nameOf, hconns]; exact h
  authorised {cid c'} h hauth := ⟨c', hconns ▸ h, rfl, .inl ⟨hauth, rfl⟩⟩
  unsent h := .inl (hunsent ▸ h)
  written := by
    rcases hwritten with h | ⟨cmd, h, hcall⟩
    · exact .inl h
    · exact .inr (.inr ⟨cmd, h, .inr hcall⟩)
  event h := .inl (hout h)
  table h := .inl (hout h)
  killed h := .inl (hout h)

/-- What `authorise`, `deny` and `close` have in common: a connection keeps its name, and
is authorised only if it was, or if the decision lets it in. -/
structure Touches (f : Connection → Connection) (decided : Prop) : Prop where
  commonName : ∀ c, (f c).commonName = c.commonName
  authorised : ∀ c, (f c).authorised = true →
    c.authorised = true ∧ c.alive = (f c).alive ∨ (f c).alive = true ∧ decided

theorem touches_close : Touches Connection.close False where
  commonName _ := rfl
  authorised _ h := by cases h

theorem touches_renew (kid : Nat) : Touches (Connection.renew kid) False where
  commonName _ := rfl
  authorised _ h := .inl ⟨h, rfl⟩

theorem touches_deny (kid : Nat) : Touches (Connection.deny kid) False where
  commonName c := by unfold Connection.deny; split <;> rfl
  authorised c h := by
    unfold Connection.deny at h ⊢
    split at h
    · cases h
    · rename_i hpending
      rw [if_neg hpending]
      exact .inl ⟨h, rfl⟩

theorem touches_authorise (kid : Nat) : Touches (Connection.authorise kid) True where
  commonName c := by unfold Connection.authorise; split <;> rfl
  authorised c h := by
    unfold Connection.authorise at h ⊢
    split at h
    · rename_i hwaits
      rw [if_pos hwaits]
      exact .inr ⟨hwaits.1, trivial⟩
    · rename_i hwaits
      rw [if_neg hwaits]
      exact .inl ⟨h, rfl⟩

theorem Touches.nameOf {f : Connection → Connection} {p : Prop} (hf : Touches f p) {i : Nat}
    (hconns : s'.conns = s.conns.modify i f) (cid : Nat) : s'.nameOf cid = s.nameOf cid := by
  unfold Link.nameOf
  rw [hconns, List.getElem?_modify]
  cases s.conns[cid]? with
  | none => rfl
  | some c =>
      by_cases hi : i = cid
      · simp [hi, hf.commonName c]
      · simp [hi]

theorem Touches.mem_conns {f : Connection → Connection} {p : Prop} (hf : Touches f p) {i cid : Nat}
    {c' : Connection} (h : (s.conns.modify i f)[cid]? = some c') (hauth : c'.authorised = true) :
    ∃ c, s.conns[cid]? = some c ∧ c.commonName = c'.commonName ∧
      (c.authorised = true ∧ c.alive = c'.alive ∨ c'.alive = true ∧ i = cid ∧ p) := by
  rw [List.getElem?_modify] at h
  cases hc : s.conns[cid]? with
  | none => rw [hc] at h; cases h
  | some c =>
      rw [hc] at h
      by_cases hi : i = cid
      · simp only [hi, if_true, Option.map_eq_map, Option.map_some, Option.some.injEq] at h
        subst h
        refine ⟨c, rfl, (hf.commonName c).symm, (hf.authorised c hauth).imp_right fun hp => ?_⟩
        exact ⟨hp.1, hi, hp.2⟩
      · simp only [hi, if_false, Option.map_eq_map, Option.map_some, Option.some.injEq] at h
        subst h
        exact ⟨c, rfl, rfl, .inl ⟨hauth, rfl⟩⟩

/-- A step that changes one connection. -/
theorem Moves.of_touches {f : Connection → Connection} {p : Prop} (hf : Touches f p) {i : Nat}
    (hconns : s'.conns = s.conns.modify i f) (hclients : s'.clients = s.clients)
    (hunsent : s'.unsent = s.unsent)
    (hwritten : s'.written = s.written ∨ ∃ cmd, s.written = cmd :: s'.written)
    (hp : p → ∃ kid, .clientAuth i kid ∈ s.written)
    (hevent : ∀ {cid kid n}, .event cid kid n ∈ s'.output →
      .event cid kid n ∈ s.output ∨ s.nameOf cid = some n)
    (htable : ∀ {call rows}, .table call rows ∈ s'.output → .table call rows ∈ s.output)
    (hkilled : ∀ {call cid err}, .killed call cid err ∈ s'.output →
      .killed call cid err ∈ s.output ∨ cid = i ∧ f = .close) : Moves s a s' where
  admits {n} h := .inl (by rwa [Link.admits, hclients] at h)
  nameOf {cid n} h := by rw [hf.nameOf hconns]; exact h
  authorised {cid c'} h hauth := by
    rw [hconns] at h
    obtain ⟨c, hc, hname, hwhy⟩ := hf.mem_conns h hauth
    refine ⟨c, hc, hname, hwhy.imp_right ?_⟩
    rintro ⟨halive, rfl, hdecided⟩
    exact ⟨halive, hp hdecided⟩
  unsent h := .inl (hunsent ▸ h)
  written := hwritten.imp_right .inl
  event {cid kid n} h := (hevent h).imp_right fun hn => by rw [hf.nameOf hconns]; exact hn
  table h := .inl (htable h)
  killed {call cid err} h := by
    rcases hkilled h with hold | ⟨rfl, rfl⟩
    · exact .inl hold
    · refine .inr fun _ c hc => .inl ?_
      rw [hconns, List.getElem?_modify] at hc
      cases hold : s.conns[cid]? with
      | none => rw [hold] at hc; cases hc
      | some c₀ => rw [hold] at hc; cases hc; simp [Connection.close]

theorem connect_moves (commonName : String) (kid : Nat) :
    Moves s a (s.connect commonName kid) where
  admits h := .inl h
  nameOf {cid n} h := by
    obtain ⟨c, hc, rfl⟩ := Option.map_eq_some_iff.1 h
    have hlt := (List.getElem?_eq_some_iff.1 hc).1
    show Option.map _ (s.conns ++ _)[cid]? = _
    rw [List.getElem?_append_left hlt, hc]
    rfl
  authorised {cid c'} h hauth := by
    -- the new connection is not authorised, so this is one of the old ones
    rcases Lists.getElem?_concat_cases h with hold | ⟨-, rfl⟩
    · exact ⟨c', hold, rfl, .inl ⟨hauth, rfl⟩⟩
    · cases hauth
  unsent h := .inl h
  written := .inl rfl
  event {cid kid' n} h := by
    rcases List.mem_append.1 h with hold | hnew
    · exact .inl hold
    · cases List.mem_singleton.1 hnew
      refine .inr ?_
      show Option.map _ (s.conns ++ _)[s.conns.length]? = _
      rw [List.getElem?_concat_length]
      rfl
  table h := .inl (by simpa [connect] using h)
  killed h := .inl (by simpa [connect] using h)

theorem reauth_moves {cid kid : Nat} (h : s.reauth cid kid = some s') : Moves s a s' := by
  unfold reauth at h
  split at h
  · cases h
  · rename_i c hc
    split at h
    · cases h
      refine .of_touches (touches_renew kid) rfl rfl rfl (.inl rfl) False.elim
        (fun {cid' kid' n} hmem => ?_) (fun hmem => by simpa using hmem)
        (fun hmem => .inl (by simpa using hmem))
      rcases List.mem_append.1 hmem with hold | hnew
      · exact .inl hold
      · cases List.mem_singleton.1 hnew
        exact .inr (by rw [Link.nameOf, hc]; rfl)
    · cases h

theorem leave_moves (cid : Nat) : Moves s a (s.leave cid) :=
  .of_touches touches_close rfl rfl rfl (.inl rfl) False.elim .inl id .inl

/-- The server replies to the first command and changes nothing. -/
theorem Moves.of_reply {cmd : Command} {o : Output} (hclients : s'.clients = s.clients)
    (hconns : s'.conns = s.conns) (hunsent : s'.unsent = s.unsent)
    (hwritten : s.written = cmd :: s'.written) (hout : s'.output = s.output ++ [o])
    (hevent : ∀ cid kid n, o ≠ .event cid kid n)
    (htable : ∀ call rows, o = .table call rows → cmd = .status call ∧ rows = s'.statusRows)
    (hkilled : ∀ call cid err, o = .killed call cid err → err.all notFound = true →
      ∀ c, s'.conns[cid]? = some c → c.alive = false) : Moves s a s' := by
  have hmem : ∀ {x}, x ∈ s'.output → x ∈ s.output ∨ o = x := fun h => by
    rw [hout] at h
    exact (List.mem_append.1 h).imp_right fun hnew => (List.mem_singleton.1 hnew).symm
  exact
    { admits := fun h => .inl (by rwa [Link.admits, hclients] at h)
      nameOf := fun h => by rw [Link.nameOf, hconns]; exact h
      authorised := fun {cid c'} hc hauth => ⟨c', hconns ▸ hc, rfl, .inl ⟨hauth, rfl⟩⟩
      unsent := fun h => .inl (hunsent ▸ h)
      written := .inr (.inl ⟨_, hwritten⟩)
      event := fun h => (hmem h).imp_right fun ho => absurd ho (hevent _ _ _)
      table := fun h => (hmem h).imp_right fun ho => by
        obtain ⟨rfl, hrows⟩ := htable _ _ ho
        exact ⟨hwritten, hrows, hunsent⟩
      killed := fun h => (hmem h).imp_right fun ho hfound c hc =>
        .inr (hkilled _ _ _ ho hfound c hc) }

theorem execute_moves {refusal : Option String} (h : s.execute refusal = some s') :
    Moves s a s' := by
  unfold execute at h
  split at h
  · cases h
  · rename_i cid kid written hw
    cases h
    exact .of_touches (touches_authorise kid) rfl rfl rfl (.inr ⟨_, hw⟩)
      (fun _ => ⟨kid, by rw [hw]; exact List.mem_cons_self⟩) .inl id .inl
  · rename_i cid kid written hw
    cases h
    exact .of_touches (touches_deny kid) rfl rfl rfl (.inr ⟨_, hw⟩) False.elim .inl id .inl
  · rename_i call written hw
    cases refusal with
    | none =>
        cases h
        refine .of_reply rfl rfl rfl hw rfl nofun (fun call' rows ho => ?_) nofun
        cases ho
        exact ⟨rfl, rfl⟩
    | some e =>
        cases h
        exact .of_reply rfl rfl rfl hw rfl nofun nofun nofun
  · rename_i call cid written hw
    cases refusal with
    | none =>
        cases h
        refine .of_touches touches_close rfl rfl rfl (.inr ⟨_, hw⟩) False.elim
          (fun hmem => .inl (by simpa using hmem)) (fun hmem => by simpa using hmem)
          (fun {call' cid' err} hmem => ?_)
        rcases List.mem_append.1 hmem with hold | hnew
        · exact .inl hold
        · cases List.mem_singleton.1 hnew
          exact .inr ⟨rfl, rfl⟩
    | some e =>
        dsimp only at h
        split at h
        · cases h
        · rename_i hgone
          cases h
          refine .of_reply rfl rfl rfl hw rfl nofun nofun fun call' cid' err ho hfound c hc => ?_
          cases ho
          have hfound' : notFound e = true := hfound
          have hc' : s.conns[cid]? = some c := hc
          rw [hfound', Bool.true_and, isAlive, hc'] at hgone
          exact Bool.eq_false_iff.2 hgone

theorem read_moves (h : s.read = some s') : Moves s a s' := by
  unfold read at h
  split at h
  · cases h
  · rename_i cid kid n output hout
    cases h
    have hsub : output ⊆ s.output := by rw [hout]; exact List.subset_cons_self _ _
    exact
      { admits := .inl
        nameOf := id
        authorised := fun {cid c'} hc hauth => ⟨c', hc, rfl, .inl ⟨hauth, rfl⟩⟩
        unsent := fun {cmd} hmem => by
          rcases List.mem_append.1 hmem with hold | hnew
          · exact .inl hold
          · -- the decision is taken with the names as they are now
            rw [List.mem_singleton.1 hnew]
            split
            · rename_i hadmits
              exact .inr (.inr ⟨cid, kid, n, rfl, by rw [hout]; exact List.mem_cons_self, hadmits⟩)
            · exact .inr (.inl ⟨cid, kid, rfl⟩)
        written := .inl rfl
        event := fun hmem => .inl (hsub hmem)
        table := fun hmem => .inl (hsub hmem)
        killed := fun hmem => .inl (hsub hmem) }
  all_goals
    rename_i output hout
    cases h
    refine .of_same .inl rfl ?_ rfl (.inl rfl)
    show output ⊆ s.output
    rw [hout]
    exact List.subset_cons_self _ _

theorem send_moves {i : Nat} (h : s.send i = some s') : Moves s a s' := by
  unfold send at h
  split at h
  · cases h
  · rename_i cmd hcmd
    cases h
    exact
      { admits := .inl
        nameOf := id
        authorised := fun {cid c'} hc hauth => ⟨c', hc, rfl, .inl ⟨hauth, rfl⟩⟩
        unsent := fun hmem => .inl (List.mem_of_mem_eraseIdx hmem)
        written := .inr (.inr ⟨cmd, rfl, .inl (List.mem_of_getElem? hcmd)⟩)
        event := .inl
        table := .inl
        killed := .inl }

theorem addPeer_moves (data : List UInt8) : Moves s (.addPeer data) (s.addPeer data) := by
  unfold addPeer
  split
  · exact .of_same .inl rfl (List.Subset.refl _) rfl (.inl rfl)
  · rename_i hdata
    refine .of_same (fun {n} h => ?_) rfl (List.Subset.refl _) rfl (.inl rfl)
    by_cases hn : formatUUID data = n
    · exact .inr ⟨data, rfl, hdata, hn⟩
    · refine .inl ?_
      simpa only [Link.admits, Clients.add_names, Function.update_of_ne (Ne.symm hn)] using h

theorem removePeer_moves (data : List UInt8) : Moves s a (s.removePeer data) := by
  unfold removePeer
  split
  · exact .of_same .inl rfl (List.Subset.refl _) rfl (.inl rfl)
  · refine .of_same (fun {n} h => .inl ?_) rfl (List.Subset.refl _) rfl (.inl rfl)
    by_cases hn : n = formatUUID data
    · simp [Link.admits, Clients.forget_names, hn] at h
    · simpa only [Link.admits, Clients.forget_names, Function.update_of_ne hn] using h

theorem proceed_moves {call : Nat} (h : s.proceed call = some s') : Moves s a s' := by
  unfold proceed at h
  split at h
  · cases h
  · split at h
    · cases h
      exact .of_same .inl rfl (List.Subset.refl _) rfl (.inr ⟨_, rfl, nofun⟩)
    · cases h
      exact .of_same .inl rfl (List.Subset.refl _) rfl (.inr ⟨_, rfl, nofun⟩)
    · cases h
      exact .of_same .inl rfl (List.Subset.refl _) rfl (.inl rfl)
    · cases h

theorem giveUp_moves {call : Nat} (h : s.giveUp call = some s') : Moves s a s' := by
  unfold giveUp at h
  split at h
  · cases h
  · split at h
    · cases h
    · cases h
    · cases h
      exact .of_same .inl rfl (List.Subset.refl _) rfl (.inl rfl)

theorem step_moves (h : s.step a = some s') : Moves s a s' := by
  cases a with
  | connect commonName kid => cases h; exact connect_moves commonName kid
  | reauth cid kid => exact reauth_moves h
  | leave cid => cases h; exact leave_moves cid
  | execute refusal => exact execute_moves h
  | read => exact read_moves h
  | send i => exact send_moves h
  | addPeer data => cases h; exact addPeer_moves data
  | removePeer data => cases h; exact removePeer_moves data
  | proceed call => exact proceed_moves h
  | giveUp call => exact giveUp_moves h

/-! ## Barring a name -/

/-- The records agree with each other: an event names its connection, a decision is
about a connection that exists, and an authorised connection is open.  Only decisions
are left to a goroutine. -/
structure Coherent (s : Link) : Prop where
  decision : ∀ cmd ∈ s.unsent, cmd.call = none
  event : ∀ {cid kid n}, .event cid kid n ∈ s.output → s.nameOf cid = some n
  unsent : ∀ {cid kid}, .clientAuth cid kid ∈ s.unsent → ∃ n, s.nameOf cid = some n
  written : ∀ {cid kid}, .clientAuth cid kid ∈ s.written → ∃ n, s.nameOf cid = some n
  alive : ∀ {cid : Nat} {c : Connection}, s.conns[cid]? = some c → c.authorised = true → c.alive = true

theorem Moves.coherent (h : Moves s a s') (hc : s.Coherent) : s'.Coherent where
  decision cmd hmem := by
    rcases h.unsent hmem with hold | ⟨_, _, rfl⟩ | ⟨_, _, _, rfl, _⟩
    · exact hc.decision cmd hold
    · rfl
    · rfl
  event hmem := (h.event hmem).elim (fun hold => h.nameOf (hc.event hold)) id
  unsent {cid kid} hmem := by
    rcases h.unsent hmem with hold | ⟨_, _, heq⟩ | ⟨_, _, n, heq, hevent, _⟩
    · obtain ⟨n, hn⟩ := hc.unsent hold
      exact ⟨n, h.nameOf hn⟩
    · cases heq
    · cases heq
      exact ⟨n, h.nameOf (hc.event hevent)⟩
  written {cid kid} hmem := by
    have hold : ∃ n, s.nameOf cid = some n := by
      rcases h.written with heq | ⟨cmd, heq⟩ | ⟨cmd, heq, hcmd⟩
      · exact hc.written (heq ▸ hmem)
      · exact hc.written (by rw [heq]; exact List.mem_cons_of_mem _ hmem)
      · rw [heq] at hmem
        rcases List.mem_append.1 hmem with hw | hnew
        · exact hc.written hw
        · cases List.mem_singleton.1 hnew
          exact hcmd.elim hc.unsent fun hcall => absurd rfl hcall
    obtain ⟨n, hn⟩ := hold
    exact ⟨n, h.nameOf hn⟩
  alive {cid c'} hmem hauth := by
    obtain ⟨c, hold, -, ⟨hwas, halive⟩ | ⟨halive, -⟩⟩ := h.authorised hmem hauth
    · rw [← halive]; exact hc.alive hold hwas
    · exact halive

/-- A command that lets no one of that name in does not come to do so. -/
theorem Moves.not_letsIn (h : Moves s a s') {cmd : Command}
    (hknown : ∀ {cid kid}, cmd = .clientAuth cid kid → ∃ n, s.nameOf cid = some n)
    (hcmd : ¬ s.LetsIn n cmd) : ¬ s'.LetsIn n cmd := by
  cases cmd with
  | clientAuth cid kid =>
      obtain ⟨m, hm⟩ := hknown rfl
      intro hin
      exact hcmd (hm.trans ((h.nameOf hm).symm.trans hin))
  | clientDeny cid kid => exact id
  | status call => exact id
  | clientKill call cid => exact id

theorem Moves.not_letsIn_unsent (h : Moves s a s') (hc : s.Coherent) {cmd : Command}
    (hmem : cmd ∈ s.unsent) (hcmd : ¬ s.LetsIn n cmd) : ¬ s'.LetsIn n cmd :=
  h.not_letsIn (fun heq => hc.unsent (heq ▸ hmem)) hcmd

theorem Moves.not_letsIn_written (h : Moves s a s') (hc : s.Coherent) {cmd : Command}
    (hmem : cmd ∈ s.written) (hcmd : ¬ s.LetsIn n cmd) : ¬ s'.LetsIn n cmd :=
  h.not_letsIn (fun heq => hc.written (heq ▸ hmem)) hcmd

theorem not_letsIn_of_call {cmd : Command} (h : cmd.call ≠ none) : ¬ s.LetsIn n cmd := by
  cases cmd with
  | clientAuth cid kid => exact absurd rfl h
  | clientDeny cid kid => exact id
  | status call => exact id
  | clientKill call cid => exact id

/-- No connection of that name is authorised but for those left to be killed, and no
decision that is on its way lets one in. -/
structure Barring (s : Link) (n : String) (left : List Nat) : Prop where
  forgotten : s.admits n = false
  settled : s.Settled n
  written : ∀ cmd ∈ s.written, ¬ s.LetsIn n cmd
  authorised : ∀ {cid : Nat} {c : Connection}, s.conns[cid]? = some c → c.commonName = n →
    c.authorised = true → cid ∈ left

section Moving

variable (h : Moves s a s') (hc : s.Coherent) (ha : ¬ Adds n a)

include h ha in
theorem Moves.forgotten (hn : s.admits n = false) : s'.admits n = false := by
  rw [Bool.eq_false_iff] at hn ⊢
  exact fun hnow => (h.admits hnow).elim hn ha

include h hc in
theorem Moves.settled (hn : s.admits n = false) (hs : s.Settled n) : s'.Settled n := by
  intro cmd hcmd
  rcases h.unsent hcmd with hold | ⟨cid, kid, rfl⟩ | ⟨cid, kid, m, rfl, hevent, hm⟩
  · exact h.not_letsIn_unsent hc hold (hs cmd hold)
  · exact id
  · -- a new decision is about a name that is admitted, so not about this one
    intro hin
    cases (h.nameOf (hc.event hevent)).symm.trans hin
    rw [hn] at hm
    cases hm

include h hc in
theorem Moves.written_not_letsIn (hs : s.Settled n) (hw : ∀ cmd ∈ s.written, ¬ s.LetsIn n cmd) :
    ∀ cmd ∈ s'.written, ¬ s'.LetsIn n cmd := by
  intro cmd hcmd
  have hold : cmd ∈ s.written → ¬ s'.LetsIn n cmd := fun hmem =>
    h.not_letsIn_written hc hmem (hw cmd hmem)
  rcases h.written with heq | ⟨first, heq⟩ | ⟨last, heq, hlast⟩
  · exact hold (heq ▸ hcmd)
  · exact hold (by rw [heq]; exact List.mem_cons_of_mem _ hcmd)
  · rw [heq] at hcmd
    rcases List.mem_append.1 hcmd with hmem | hnew
    · exact hold hmem
    · cases List.mem_singleton.1 hnew
      rcases hlast with hmem | hcall
      · exact h.not_letsIn_unsent hc hmem (hs cmd hmem)
      · exact not_letsIn_of_call hcall

include h hc ha in
/-- **Every step but an `AddPeer` of the name keeps it barred.** -/
theorem Barring.step {left : List Nat} (hb : s.Barring n left) : s'.Barring n left where
  forgotten := h.forgotten ha hb.forgotten
  settled := h.settled hc hb.forgotten hb.settled
  written := h.written_not_letsIn hc hb.settled hb.written
  authorised {cid c'} hmem hname hauth := by
    obtain ⟨c, hold, hcn, ⟨hwas, -⟩ | ⟨-, kid, hcmd⟩⟩ := h.authorised hmem hauth
    · exact hb.authorised hold (hcn.trans hname) hwas
    · refine absurd ?_ (hb.written _ hcmd)
      show s.nameOf cid = some n
      rw [Link.nameOf, hold, Option.map_some, hcn, hname]

end Moving

/-- A connection that is not authorised need not be killed. -/
theorem Barring.drop {cid : Nat} {left : List Nat} (hb : s.Barring n (cid :: left))
    (h : ∀ c, s.conns[cid]? = some c → c.authorised = false) : s.Barring n left :=
  { hb with
    authorised := fun {cid' c} hmem hname hauth => by
      rcases List.mem_cons.1 (hb.authorised hmem hname hauth) with rfl | hin
      · rw [h c hmem] at hauth
        cases hauth
      · exact hin }

/-- The table lists every authorised connection, so `kill` goes through those of its
name. -/
theorem mem_own_statusRows {r : Removal} {cid : Nat} {c : Connection}
    (hc : s.conns[cid]? = some c) (hname : c.commonName = r.commonName)
    (hauth : c.authorised = true) : cid ∈ r.own s.statusRows := by
  have hrow : (cid, c.commonName) ∈ s.statusRows :=
    List.mem_map.2 ⟨(c, cid), List.mem_filter.2 ⟨List.mem_zipIdx_iff_getElem?.2 hc, hauth⟩, rfl⟩
  exact List.mem_map.2 ⟨_, List.mem_filter.2 ⟨hrow, decide_eq_true hname⟩, rfl⟩

/-! ## One command at a time -/

/-- The call is not waiting for a reply; nor is one that has not been made. -/
def idle (s : Link) (call : Nat) : Bool := s.removals[call]?.all fun r => r.stage.idle

/-- The commands and replies of a call that are on their way, and the call itself while
it is free to write another. -/
def load (s : Link) (call : Nat) : Nat :=
  s.written.countP (fun cmd => cmd.call = some call) +
    s.output.countP (fun o => o.call = some call) + (s.idle call).toNat

theorem idle_modify_ne {f : Removal → Removal} {k call : Nat} (hk : k ≠ call)
    (h : s'.removals = s.removals.modify k f) : s'.idle call = s.idle call := by
  rw [idle, idle, h, List.getElem?_modify]
  simp [hk]

theorem idle_set_ne {r : Removal} {k call : Nat} (hk : k ≠ call)
    (h : s'.removals = s.removals.set k r) : s'.idle call = s.idle call := by
  rw [idle, idle, h, List.getElem?_set_ne hk]

theorem idle_set_self {r r' : Removal} {call : Nat} (hr : s.removals[call]? = some r)
    (h : s'.removals = s.removals.set call r') : s'.idle call = r'.stage.idle := by
  have hlt := (List.getElem?_eq_some_iff.1 hr).1
  rw [idle, h, List.getElem?_set_self hlt]
  rfl

theorem execute_load {refusal : Option String} (h : s.execute refusal = some s') (call : Nat) :
    s'.load call ≤ s.load call := by
  -- the reply is for the call the command was written for
  unfold execute at h
  split at h
  · cases h
  all_goals
    rename_i hw
    simp only [load, hw]
  · cases h
    simp [idle, Command.call]
  · cases h
    simp [idle, Command.call]
  · cases refusal with
    | none => cases h; simp [idle, Command.call, Output.call, List.countP_cons]; omega
    | some e => cases h; simp [idle, Command.call, Output.call, List.countP_cons]; omega
  · cases refusal with
    | none => cases h; simp [idle, Command.call, Output.call, List.countP_cons]; omega
    | some e =>
        dsimp only at h
        split at h
        · cases h
        · cases h; simp [idle, Command.call, Output.call, List.countP_cons]; omega

/-- A reply that is read makes room for one command of the call it is for. -/
theorem reply_load {o : Output} {output : List Output} {k : Nat} {f : Removal → Removal}
    (hout : s.output = o :: output) (ho : o.call = some k) (hw : s'.written = s.written)
    (hout' : s'.output = output) (hr : s'.removals = s.removals.modify k f) (call : Nat) :
    s'.load call ≤ s.load call := by
  rw [load, load, hw, hout, hout', List.countP_cons, ho]
  by_cases hk : k = call
  · have hidle := Bool.toNat_le (s'.idle call)
    simp only [hk, decide_true, if_true]
    omega
  · rw [idle_modify_ne hk hr]
    omega

theorem read_load (h : s.read = some s') (call : Nat) : s'.load call ≤ s.load call := by
  unfold read at h
  split at h
  · cases h
  · rename_i hout
    cases h
    simp [load, idle, finishEvent, hout, Output.call]
  all_goals
    rename_i hout
    cases h
    apply reply_load hout rfl <;> rfl

theorem send_load (hc : s.Coherent) {i : Nat} (h : s.send i = some s') (call : Nat) :
    s'.load call ≤ s.load call := by
  unfold send at h
  split at h
  · cases h
  · rename_i cmd hcmd
    cases h
    simp [load, idle, hc.decision cmd (List.mem_of_getElem? hcmd)]

theorem addPeer_load (data : List UInt8) (call : Nat) : (s.addPeer data).load call ≤ s.load call := by
  unfold addPeer
  split
  · exact le_rfl
  · refine le_of_eq ?_
    simp only [load, idle, List.getElem?_map]
    cases s.removals[call]? with
    | none => rfl
    | some r =>
        simp only [Option.map_some, Option.all_some]
        split <;> rfl

theorem removePeer_load (data : List UInt8) (call : Nat) :
    (s.removePeer data).load call ≤ s.load call := by
  unfold removePeer
  split
  · exact le_rfl
  · refine le_of_eq ?_
    simp only [load, idle]
    rcases lt_or_ge call s.removals.length with hlt | hge
    · rw [List.getElem?_append_left hlt]
    · -- a call that has not been made counts as one that is free to write
      rw [List.getElem?_eq_none hge, List.getElem?_append_right hge]
      cases call - s.removals.length <;> rfl

/-- A call goes on: whatever it writes, it was free to write. -/
theorem advance_load {k : Nat} {r r' : Removal} (hr : s.removals[k]? = some r)
    (hset : s'.removals = s.removals.set k r') (hout : s'.output = s.output)
    (hself : s'.written.countP (fun cmd => cmd.call = some k) + r'.stage.idle.toNat ≤
      s.written.countP (fun cmd => cmd.call = some k) + r.stage.idle.toNat)
    (hne : ∀ call, k ≠ call → s'.written.countP (fun cmd => cmd.call = some call) =
      s.written.countP fun cmd => cmd.call = some call) (call : Nat) :
    s'.load call ≤ s.load call := by
  rw [load, load, hout]
  by_cases hk : k = call
  · subst hk
    have hold : s.idle k = r.stage.idle := by rw [idle, hr]; rfl
    rw [idle_set_self hr hset, hold]
    omega
  · rw [idle_set_ne hk hset, hne call hk]

theorem proceed_load {k : Nat} (h : s.proceed k = some s') (call : Nat) :
    s'.load call ≤ s.load call := by
  unfold proceed at h
  split at h
  · cases h
  · rename_i r hr
    split at h
    · rename_i hstage
      cases h
      apply advance_load hr
      · rfl
      · rfl
      · simp [hstage, Stage.idle, Command.call]
      · intro call hk
        simp [hk, Command.call]
    · rename_i hstage
      cases h
      apply advance_load hr
      · rfl
      · rfl
      · simp [hstage, Stage.idle, Command.call]
      · intro call hk
        simp [hk, Command.call]
    · cases h
      apply advance_load hr
      · rfl
      · rfl
      · simp [Stage.idle]
      · intro call hk
        rfl
    · cases h

theorem giveUp_load {k : Nat} (h : s.giveUp k = some s') (call : Nat) :
    s'.load call ≤ s.load call := by
  unfold giveUp at h
  split at h
  · cases h
  · rename_i r hr
    split at h
    · cases h
    · cases h
    · cases h
      apply advance_load hr
      · rfl
      · rfl
      · simp [Stage.idle]
      · intro call hk
        rfl

/-- **No step adds to what a call has on its way.** -/
theorem step_load (hc : s.Coherent) (h : s.step a = some s') (call : Nat) :
    s'.load call ≤ s.load call := by
  cases a with
  | connect commonName kid => cases h; simp [load, idle, connect, Output.call]
  | reauth cid kid =>
      change s.reauth cid kid = some s' at h
      unfold reauth at h
      split at h
      · cases h
      · split at h
        · cases h; simp [load, idle, Output.call]
        · cases h
  | leave cid => cases h; exact le_rfl
  | execute refusal => exact execute_load h call
  | read => exact read_load h call
  | send i => exact send_load hc h call
  | addPeer data => cases h; exact addPeer_load data call
  | removePeer data => cases h; exact removePeer_load data call
  | proceed k => exact proceed_load h call
  | giveUp k => exact giveUp_load h call

/-! ## The course of a removal -/

/-- A removal that waits for its table.  Whatever could still let its client in is
executed before the table is drawn up, and a table that is drawn up lists every
connection it has to kill. -/
structure Asked (s : Link) (call : Nat) (r : Removal) : Prop where
  forgotten : s.admits r.commonName = false
  settled : s.Settled r.commonName
  behind : ∀ pre post, s.written = pre ++ .status call :: post →
    ∀ cmd ∈ post, ¬ s.LetsIn r.commonName cmd
  table : ∀ {rows}, .table call rows ∈ s.output → s.Barring r.commonName (r.own rows)

theorem Moves.behind (h : Moves s a s') (hc : s.Coherent) (hs : s.Settled n) {call : Nat}
    (hb : ∀ pre post, s.written = pre ++ .status call :: post →
      ∀ cmd ∈ post, ¬ s.LetsIn n cmd) (pre post : List Command)
    (hw : s'.written = pre ++ .status call :: post) : ∀ cmd ∈ post, ¬ s'.LetsIn n cmd := by
  have hold : ∀ pre' post', s.written = pre' ++ .status call :: post' → ∀ cmd ∈ post',
      ¬ s'.LetsIn n cmd := fun pre' post' heq cmd hmem => by
    refine h.not_letsIn_written hc ?_ (hb pre' post' heq cmd hmem)
    rw [heq]
    exact List.mem_append_right _ (List.mem_cons_of_mem _ hmem)
  rcases h.written with heq | ⟨first, heq⟩ | ⟨last, heq, hlast⟩
  · exact hold pre post (heq ▸ hw)
  · exact hold (first :: pre) post (by rw [heq, hw]; rfl)
  · rw [heq] at hw
    rcases Lists.concat_eq_append_cons hw with ⟨rfl, -, -⟩ | ⟨post', rfl, hpre⟩
    · exact fun _ hmem => absurd hmem List.not_mem_nil
    · -- the command written last comes after those that were behind the request before
      intro cmd hmem
      rcases List.mem_append.1 hmem with hin | hnew
      · exact hold pre post' hpre cmd hin
      · cases List.mem_singleton.1 hnew
        rcases hlast with hun | hcall
        · exact h.not_letsIn_unsent hc hun (hs _ hun)
        · exact not_letsIn_of_call hcall

theorem Asked.step (h : Moves s a s') (hc : s.Coherent) {call : Nat} {r : Removal}
    (ha : ¬ Adds r.commonName a) (hasked : s.Asked call r) : s'.Asked call r where
  forgotten := h.forgotten ha hasked.forgotten
  settled := h.settled hc hasked.forgotten hasked.settled
  behind := h.behind hc hasked.settled hasked.behind
  table {rows} hmem := by
    rcases h.table hmem with hold | ⟨hw, rfl, hunsent⟩
    · exact (hasked.table hold).step h hc ha
    · -- the server has just drawn it up: nothing written before it is left
      refine
        { forgotten := h.forgotten ha hasked.forgotten
          settled := h.settled hc hasked.forgotten hasked.settled
          written := fun cmd hcmd => ?_
          authorised := mem_own_statusRows }
      refine h.not_letsIn_written hc ?_ (hasked.behind [] s'.written hw cmd hcmd)
      rw [hw]
      exact List.mem_cons_of_mem _ hcmd

/-- What a removal has achieved at each stage. -/
def Progress (s : Link) (call : Nat) (r : Removal) : Prop :=
  match r.stage with
  | .struck => s.admits r.commonName = false
  | .asked => s.Asked call r
  | .killing cids => s.Barring r.commonName cids
  | .waiting cid cids => s.Barring r.commonName (cid :: cids) ∧
      ∀ err, .killed call cid err ∈ s.output → err.all notFound = true →
        s.Barring r.commonName cids
  | .returned true => s.Barring r.commonName []
  | .returned false => True

/-- Steps that do not advance the removal keep what it has achieved. -/
theorem Progress.step (h : Moves s a s') (hc : s.Coherent) {call : Nat} {r : Removal}
    (ha : ¬ Adds r.commonName a) (hp : s.Progress call r) : s'.Progress call r := by
  unfold Progress at hp ⊢
  split at hp
  · exact h.forgotten ha hp
  · exact hp.step h hc ha
  · exact hp.step h hc ha
  · refine ⟨hp.1.step h hc ha, fun err hmem hfound => ?_⟩
    rcases h.killed hmem with hold | hgone
    · exact (hp.2 err hold hfound).step h hc ha
    · -- the server has just answered: the client is not there any more
      refine (hp.1.step h hc ha).drop fun c hcid => ?_
      rcases hgone hfound c hcid with hauth | hdead
      · exact hauth
      · rw [Bool.eq_false_iff]
        intro hauth
        rw [(h.coherent hc).alive hcid hauth] at hdead
        cases hdead
  · exact hp.step h hc ha
  · trivial

/-- How a removal goes on. -/
inductive Advances (s : Link) (call : Nat) (r : Removal) : Stage → Prop
  | ask : r.stage = .struck → s.Settled r.commonName → Advances s call r .asked
  | table {rows} : r.stage = .asked → .table call rows ∈ s.output →
      Advances s call r (.killing (r.own rows))
  | kill {cid cids} : r.stage = .killing (cid :: cids) → Advances s call r (.waiting cid cids)
  | killed {cid cids err} : r.stage = .waiting cid cids → .killed call cid err ∈ s.output →
      err.all notFound = true → Advances s call r (.killing cids)
  | done : r.stage = .killing [] → Advances s call r (.returned true)
  | fail : Advances s call r (.returned false)

/-- A call that is free to write has nothing on its way. -/
theorem nothing_on_its_way {call : Nat} (hl : s.load call ≤ 1) (hidle : s.idle call = true) :
    (∀ cmd ∈ s.written, cmd.call ≠ some call) ∧ ∀ o ∈ s.output, o.call ≠ some call := by
  rw [load, hidle, Bool.toNat_true] at hl
  have hw : s.written.countP (fun cmd => cmd.call = some call) = 0 := by omega
  have ho : s.output.countP (fun o => o.call = some call) = 0 := by omega
  rw [List.countP_eq_zero] at hw ho
  exact ⟨fun cmd hmem heq => hw cmd hmem (decide_eq_true heq),
    fun o hmem heq => ho o hmem (decide_eq_true heq)⟩

theorem Advances.progress {call : Nat} {r : Removal} {stage : Stage}
    (h : s.Advances call r stage) (hr : s.removals[call]? = some r) (hl : s.load call ≤ 1)
    (hp : s.Progress call r) : s.Progress call { r with stage } := by
  have hquiet : r.stage.idle = true → _ := fun hidle =>
    nothing_on_its_way hl (show s.idle call = true by rw [idle, hr]; exact hidle)
  cases h with
  | ask hstage hsettled =>
      rw [Progress, hstage] at hp
      obtain ⟨hw, ho⟩ := hquiet (by rw [hstage]; rfl)
      -- its request is not written yet, so nothing stands behind it
      refine ⟨hp, hsettled, fun pre post heq => ?_, fun {rows} hmem => ?_⟩
      · refine absurd rfl (hw (.status call) ?_)
        rw [heq]
        exact List.mem_append_right _ List.mem_cons_self
      · exact absurd rfl (ho _ hmem)
  | table hstage hmem =>
      rw [Progress, hstage] at hp
      exact hp.table hmem
  | kill hstage =>
      rw [Progress, hstage] at hp
      obtain ⟨-, ho⟩ := hquiet (by rw [hstage]; rfl)
      exact ⟨hp, fun err hmem => absurd rfl (ho _ hmem)⟩
  | killed hstage hmem hfound =>
      rw [Progress, hstage] at hp
      exact hp.2 _ hmem hfound
  | done hstage =>
      rw [Progress, hstage] at hp
      exact hp
  | fail => trivial

/-- Where a removal of the state after a step comes from: it was there and has gone on, or
not, or it is new and its peer has just been struck out. -/
def Comes (s : Link) (a : Act) (s' : Link) (call : Nat) (r' : Removal) : Prop :=
  r'.stage = .struck ∧ s'.admits r'.commonName = false ∨
    ∃ r, s.removals[call]? = some r ∧ r.readded = r'.readded ∧ ¬ Adds r.commonName a ∧
      (r' = r ∨ ∃ stage, r' = { r with stage } ∧ s.Advances call r stage)

theorem Comes.same {call : Nat} {r : Removal} (ha : ¬ Adds r.commonName a)
    (hr : s.removals[call]? = some r) : Comes s a s' call r :=
  .inr ⟨r, hr, rfl, ha, .inl rfl⟩

theorem Comes.advance {call : Nat} {r : Removal} {stage : Stage} (ha : ¬ Adds r.commonName a)
    (hr : s.removals[call]? = some r) (h : s.Advances call r stage) :
    Comes s a s' call { r with stage } :=
  .inr ⟨r, hr, rfl, ha, .inr ⟨stage, rfl, h⟩⟩

/-- The removal at one index is changed, and goes on there. -/
theorem Comes.of_modify {k : Nat} {f : Removal → Removal} (ha : ∀ n, ¬ Adds n a)
    (hf : ∀ r, s.removals[k]? = some r → Comes s a s' k (f r)) {call : Nat} {r' : Removal}
    (hr' : (s.removals.modify k f)[call]? = some r') : Comes s a s' call r' := by
  rw [List.getElem?_modify] at hr'
  by_cases hk : k = call
  · subst hk
    cases hr : s.removals[k]? with
    | none => rw [hr] at hr'; cases hr'
    | some r =>
        rw [hr] at hr'
        simp only [if_true, Option.map_eq_map, Option.map_some, Option.some.injEq] at hr'
        exact hr' ▸ hf r hr
  · simp only [hk, if_false, Option.map_eq_map, Option.map_id_fun', id_eq] at hr'
    exact .same (ha _) hr'

theorem Comes.of_set {k : Nat} {r : Removal} {stage : Stage} (ha : ∀ n, ¬ Adds n a)
    (hr : s.removals[k]? = some r) (h : s.Advances k r stage) {call : Nat} {r' : Removal}
    (hr' : (s.removals.set k { r with stage })[call]? = some r') : Comes s a s' call r' := by
  by_cases hk : k = call
  · subst hk
    rw [List.getElem?_set_self (List.getElem?_eq_some_iff.1 hr).1] at hr'
    cases hr'
    exact .advance (ha _) hr h
  · rw [List.getElem?_set_ne hk] at hr'
    exact .same (ha _) hr'

theorem read_comes (h : s.read = some s') {call : Nat} {r' : Removal}
    (hr' : s'.removals[call]? = some r') : Comes s .read s' call r' := by
  have ha : ∀ n, ¬ Adds n .read := fun _ => nofun
  unfold read at h
  split at h
  · cases h
  · cases h
    exact .same (ha _) hr'
  · rename_i k rows output hout
    cases h
    have hmem : .table k rows ∈ s.output := by rw [hout]; exact List.mem_cons_self
    refine .of_modify ha (fun r hr => ?_) hr'
    unfold Removal.gotTable
    split
    · rename_i hstage
      exact .advance (ha _) hr (.table hstage hmem)
    · exact .same (ha _) hr
  · rename_i k cid err output hout
    cases h
    have hmem : .killed k cid err ∈ s.output := by rw [hout]; exact List.mem_cons_self
    refine .of_modify ha (fun r hr => ?_) hr'
    by_cases hwaits : ∃ cids, r.stage = .waiting cid cids
    · obtain ⟨cids, hstage⟩ := hwaits
      rw [Removal.gotKilled, hstage]
      by_cases hfound : err.all notFound = true
      · simp only [hfound, if_true]
        exact .advance (ha _) hr (.killed hstage hmem hfound)
      · simp only [hfound, if_true]
        exact .advance (ha _) hr .fail
    · rw [Removal.gotKilled_of_not_waiting hwaits]
      exact .same (ha _) hr
  · cases h
    refine .of_modify ha (fun r hr => ?_) hr'
    unfold Removal.gotError
    split
    · exact .advance (ha _) hr .fail
    · exact .same (ha _) hr

theorem proceed_comes {k : Nat} (hw : s.Waits (.proceed k)) (h : s.proceed k = some s') {call : Nat}
    {r' : Removal} (hr' : s'.removals[call]? = some r') : Comes s (.proceed k) s' call r' := by
  have ha : ∀ n, ¬ Adds n (.proceed k) := fun _ => nofun
  unfold proceed at h
  split at h
  · cases h
  · rename_i r hr
    split at h
    · rename_i hstage
      cases h
      exact .of_set ha hr (.ask hstage (hw r hr hstage)) hr'
    · rename_i hstage
      cases h
      exact .of_set ha hr (.kill hstage) hr'
    · rename_i hstage
      cases h
      exact .of_set ha hr (.done hstage) hr'
    · cases h

theorem giveUp_comes {k : Nat} (h : s.giveUp k = some s') {call : Nat} {r' : Removal}
    (hr' : s'.removals[call]? = some r') : Comes s (.giveUp k) s' call r' := by
  have ha : ∀ n, ¬ Adds n (.giveUp k) := fun _ => nofun
  unfold giveUp at h
  split at h
  · cases h
  · rename_i r hr
    split at h
    · cases h
    · cases h
    · cases h
      exact .of_set ha hr .fail hr'

theorem addPeer_comes {data : List UInt8} {call : Nat} {r' : Removal}
    (hr' : (s.addPeer data).removals[call]? = some r') (hre : r'.readded = false) :
    Comes s (.addPeer data) (s.addPeer data) call r' := by
  unfold addPeer at hr'
  split at hr'
  · rename_i hdata
    refine .same ?_ hr'
    rintro ⟨d, heq, hd, -⟩
    cases heq
    rw [hdata] at hd
    cases hd
  · simp only [List.getElem?_map] at hr'
    obtain ⟨r, hr, rfl⟩ := Option.map_eq_some_iff.1 hr'
    split at hre
    · cases hre
    · rename_i hname
      rw [if_neg hname]
      refine .same ?_ hr
      rintro ⟨d, heq, -, hd⟩
      cases heq
      exact hname hd.symm

theorem removePeer_comes {data : List UInt8} {call : Nat} {r' : Removal}
    (hr' : (s.removePeer data).removals[call]? = some r') :
    Comes s (.removePeer data) (s.removePeer data) call r' := by
  have ha : ∀ n, ¬ Adds n (.removePeer data) := fun _ => nofun
  unfold removePeer at hr' ⊢
  split at hr'
  · exact .same (ha _) hr'
  · rcases Lists.getElem?_concat_cases hr' with hold | ⟨-, rfl⟩
    · exact .same (ha _) hold
    · exact .inl ⟨rfl, by simp [Link.admits, Clients.forget_names]⟩

theorem step_comes (hw : s.Waits a) (h : s.step a = some s') {call : Nat} {r' : Removal}
    (hr' : s'.removals[call]? = some r') (hre : r'.readded = false) : Comes s a s' call r' := by
  cases a with
  | connect commonName kid => cases h; exact .same nofun hr'
  | reauth cid kid =>
      change s.reauth cid kid = some s' at h
      unfold reauth at h
      split at h
      · cases h
      · split at h
        · cases h; exact .same nofun hr'
        · cases h
  | leave cid => cases h; exact .same nofun hr'
  | execute refusal =>
      have hsame : s'.removals = s.removals := by
        change s.execute refusal = some s' at h
        unfold execute at h
        repeat' split at h
        all_goals cases h
        all_goals rfl
      exact .same nofun (hsame ▸ hr')
  | read => exact read_comes h hr'
  | send i =>
      change s.send i = some s' at h
      unfold send at h
      split at h
      · cases h
      · cases h; exact .same nofun hr'
  | addPeer data => cases h; exact addPeer_comes hr' hre
  | removePeer data => cases h; exact removePeer_comes hr'
  | proceed k => exact proceed_comes hw h hr'
  | giveUp k => exact giveUp_comes h hr'

/-! ## Every run -/

/-- What holds in every state that is reached. -/
structure Inv (s : Link) : Prop where
  coherent : s.Coherent
  load : ∀ call, s.load call ≤ 1
  progress : ∀ {call r}, s.removals[call]? = some r → r.readded = false → s.Progress call r

theorem inv_start : start.Inv where
  coherent := ⟨nofun, nofun, nofun, nofun, nofun⟩
  load _ := le_rfl
  progress := nofun

theorem Inv.step (hi : s.Inv) (hw : s.Waits a) (h : s.step a = some s') : s'.Inv where
  coherent := (step_moves h).coherent hi.coherent
  load call := (step_load hi.coherent h call).trans (hi.load call)
  progress {call r'} hr' hre := by
    rcases step_comes hw h hr' hre with ⟨hstage, hnew⟩ | ⟨r, hr, hsame, ha, hgoes⟩
    · rw [Progress, hstage]
      exact hnew
    · have hp := hi.progress hr (hsame.trans hre)
      rcases hgoes with rfl | ⟨stage, rfl, hadv⟩
      · exact hp.step (step_moves h) hi.coherent ha
      · -- what it achieves by going on holds before the step, and the step keeps it
        exact (hadv.progress hr (hi.load call) hp).step (step_moves h) hi.coherent ha

theorem Inv.barred (hi : s.Inv) : s.Barred := by
  intro r hr hstage hre c hc hname
  obtain ⟨call, hcall⟩ := List.getElem?_of_mem hr
  obtain ⟨cid, hcid⟩ := List.getElem?_of_mem hc
  have hp := hi.progress hcall hre
  rw [Progress, hstage] at hp
  rw [Bool.eq_false_iff]
  intro hauth
  exact absurd (hp.authorised hcid hname hauth) List.not_mem_nil

/-- **A removal that waits for the decisions on their way bars its client.**  In every
run, whatever else happens, no connection of a peer whose removal returned without an
error is authorised, until the peer is added again. -/
theorem removal_bars_of_settled (h : Steps.Reach step Waits start s) : s.Barred :=
  (h.invariant inv_start fun hi hw hs => hi.step hw hs).barred

/-- A removal that returned without an error, its peer not added since. -/
def Completed (s : Link) : Prop :=
  ∃ r ∈ s.removals, r.stage = .returned true ∧ r.readded = false

instance (s : Link) : Decidable s.Completed := by unfold Completed; infer_instance

/-- A peer connects, the decision to let it in is written, and only then it is removed. -/
def settledRun : List Act :=
  let data := List.replicate 16 7
  [.addPeer data, .connect (formatUUID data) 1, .read, .removePeer data, .send 0, .proceed 0,
    .execute none, .execute none, .read, .proceed 0, .execute none, .read, .proceed 0]

theorem removal_bars_settledRun :
    ∃ s, Steps.Reach step Waits start s ∧ s.Completed ∧ s.conns.length = 1 ∧ s.Barred := by
  obtain ⟨s, hreach, hp⟩ := Steps.exists_reach step Waits start settledRun
    (fun s => decide (s.Completed ∧ s.conns.length = 1)) (by decide)
  obtain ⟨hdone, hlen⟩ := of_decide_eq_true hp
  exact ⟨s, hreach, hdone, hlen, removal_bars_of_settled hreach⟩

/-- The decision is taken before the peer is struck out, and written after the status
table was asked for. -/
def lateRun : List Act :=
  let data := List.replicate 16 7
  [.addPeer data, .connect (formatUUID data) 1, .read, .removePeer data, .proceed 0,
    .execute none, .read, .proceed 0, .send 0, .execute none]

/-- **A decision on its way outlives the removal**: `RemovePeer` returns without an
error, and its client is authorised after that. -/
theorem late_decision_readmits : ∃ s, Steps.Reach step (fun _ _ => True) start s ∧ ¬ s.Barred := by
  obtain ⟨s, hreach, hp⟩ := Steps.exists_reach step (fun _ _ => True) start lateRun
    (fun s => decide (¬ s.Barred)) (by decide)
  exact ⟨s, hreach, of_decide_eq_true hp⟩

end Link

end Dvpnd
