import Dvpnd.Session.Handshake
import Dvpnd.Services.Proxies

/-!
# The peers and the table agree whenever the lock is free

Every handshake, `set_sessions` pass and `update_sessions` pass keeps the
admission contract, so the rely-guarantee rule gives the invariant for every
interleaving of them and every pattern of failures.

* `nodeProgram_safe` — every thread keeps its side of the contract.
* `peers_recorded_and_bounded` — **no peer without a row**: in every state that is
  reached with the lock free, each registered peer has exactly one row, no two
  rows share an id or a key, and there are at most `max_peers` peers.
-/

namespace Dvpnd

open Effect

variable {S : Service}

/-- Whatever a thread of the node is started with is safe from every state. -/
theorem nodeProgram_safe (hS : S.Lawful) (cfg : Config) {env : Env S}
    (hroll : env.RollbackSucceeds) (i : Actor) (req : AdmitRequest) (s : Node S) :
    Safe (machine env) (admissionContract cfg.maxPeers) i Released (nodeProgram cfg i req) false
      s := by
  have hdone : ∀ {α : Type} {p : NodeM α},
      Safe (machine env) (admissionContract cfg.maxPeers) i (fun _ b _ => b = false) p false s →
      Safe (machine env) (admissionContract cfg.maxPeers) i Released
        (p >>= fun _ => Prog.ret ()) false s := fun hp =>
    Safe.bind (Safe.mono (fun _ _ _ hb _ _ => hb) hp) (admissionContract_fits env)
  cases i with
  | setSessions => exact hdone (setSessions_safe hS env s)
  | updateSessions => exact hdone (updateSessions_safe hS env s)
  | handshake n => exact hdone (admitSession_safe env hS cfg hroll n req s)

theorem admitted_fresh {m : Nat} {svc : S.State} (hwf : S.wf svc) (hempty : S.registered svc = ∅) :
    Admitted m (Node.fresh svc : Node S) := by
  have hreg : (Node.fresh svc : Node S).registered = ∅ := hempty
  refine ⟨?_, ?_, hwf, Finset.empty_subset _⟩
  · rw [hreg]; exact Finset.empty_subset _
  · rw [hreg]; exact Nat.zero_le _

/-- Whenever the lock is free, the peers and the table agree. -/
theorem admitted_of_reach (hS : S.Lawful) (cfg : Config) {env : Env S}
    (hroll : env.RollbackSucceeds) {svc : S.State} (hwf : S.wf svc)
    (hempty : S.registered svc = ∅) {c : Effect.Config Op.Res Actor (Node S)}
    (h : Reach (nodeSystem cfg env) (fun _ _ _ => True) (Node.fresh svc) c)
    (hfree : c.owner = none) : Admitted cfg.maxPeers c.state :=
  Reach.inv (Y := nodeSystem cfg env) (C := admissionContract cfg.maxPeers)
    (admissionContract_fits env) (nodeProgram_safe hS cfg hroll) (admitted_fresh hwf hempty)
    h hfree

/-- **No peer without a row.**  On a node that starts with no peers and an empty
table, whatever the handshakes and the jobs do and whichever of their calls
fail, whenever the admission lock is free every registered peer has exactly one
row with its key, no two rows share an id or a key, and the service counts at
most `max_peers` peers. -/
theorem peers_recorded_and_bounded (hS : S.Lawful) (cfg : Config) {env : Env S}
    (hroll : env.RollbackSucceeds) {svc : S.State} (hwf : S.wf svc)
    (hempty : S.registered svc = ∅) {c : Effect.Config Op.Res Actor (Node S)}
    (h : Reach (nodeSystem cfg env) (fun _ _ _ => True) (Node.fresh svc) c)
    (hfree : c.owner = none) :
    (∀ k ∈ c.state.registered, ∃! r, r ∈ c.state.table.rows ∧ r.key = k) ∧
    (c.state.table.rows.map Session.id).Nodup ∧ (c.state.table.rows.map Session.key).Nodup ∧
    S.peerCount c.state.svc ≤ cfg.maxPeers := by
  have hinv := admitted_of_reach hS cfg hroll hwf hempty h hfree
  refine ⟨fun k hk => Table.existsUnique_row (hinv.rows hk), c.state.table.ids_nodup,
    c.state.table.keys_nodup, ?_⟩
  rw [hS.peerCount_eq hinv.wf]
  exact hinv.room

/-! ## One handshake, step by step -/

/-- A chain that has one active pay-per-session session, and outside calls that
never fail. -/
def calmEnv : Env xray where
  now t := t
  database _ := none
  peers _ := .ok []
  control _ _ := ({} : Rpc)
  querySession _ _ := .ok (some
    { id := 1, accAddress := "client", nodeAddress := "node", status := .active })
  querySubscription _ _ := .ok none
  queryAllocation _ _ _ := .ok none
  updateSessions _ _ := none

theorem calmEnv_rollback : calmEnv.RollbackSucceeds := fun _ _ _ h => rpcService_removePeer_ok h

def firstRequest : AdmitRequest :=
  ⟨"client", 1, proxyVLESS :: List.replicate 16 0, by decide, by decide⟩

/-- The schedule of a handshake that runs alone: it is started, and takes its
twelve steps. -/
def loneHandshake : List (Choice Actor AdmitRequest) :=
  .start (.handshake 0) firstRequest :: List.replicate 12 (.step (.handshake 0))

def afterHandshake : Option (Effect.Config Op.Res Actor (Node xray)) :=
  (Effect.Config.idle (Node.fresh (Users.empty : Users xrayCheck))).runs
    (nodeSystem ⟨1, "node"⟩ calmEnv) (fun _ _ _ => True) loneHandshake

/-- A node with room for one peer admits one, and its row is the only one. -/
theorem peers_recorded_after_handshake :
    ∃ c, afterHandshake = some c ∧ c.owner = none ∧ c.state.registered.card = 1 ∧
      (∀ k ∈ c.state.registered, ∃! r, r ∈ c.state.table.rows ∧ r.key = k) ∧
      (c.state.table.rows.map Session.id).Nodup ∧ (c.state.table.rows.map Session.key).Nodup ∧
      xray.peerCount c.state.svc ≤ 1 := by
  have hsome : afterHandshake.isSome = true := by decide
  obtain ⟨c, hc⟩ := Option.isSome_iff_exists.1 hsome
  have hend : afterHandshake.map (fun c => (c.owner, c.state.registered.card)) = some (none, 1) := by
    decide
  rw [hc] at hend
  simp only [Option.map_some, Option.some.injEq, Prod.mk.injEq] at hend
  exact ⟨c, hc, hend.1, hend.2, peers_recorded_and_bounded xray_lawful ⟨1, "node"⟩ calmEnv_rollback
    trivial rfl (Reach.runs .idle hc) hend.1⟩

end Dvpnd
