import Dvpnd.Session.Admit
import Dvpnd.Node.SetSessions
import Dvpnd.Node.UpdateSessions

/-!
# Handshakes and jobs, interleaved

The node serves any number of handshakes while its two jobs run pass after pass
(`nodeSystem`).  All of them change the peers and the table under the admission
lock, and each call may fail on its own.

* `Admitted` — the invariant of the peers and the table together: every
  registered peer has a row, there is room for all of them, and a peer no
  control call has cut off is still registered.
* `RowsPersist` — what every thread but `update_sessions` owes the others: a row,
  once written, keeps its id and its key.
-/

namespace Dvpnd

open Effect

variable {S : Service}

/-- What each thread runs: the jobs take no argument, a handshake its request. -/
def nodeProgram (cfg : Config) : Actor → AdmitRequest → NodeM Unit
  | .setSessions, _ => do
      let _ ← setSessions
      return ()
  | .updateSessions, _ => do
      let _ ← updateSessions
      return ()
  | .handshake _, req => do
      let _ ← admitSession cfg req
      return ()

/-- The node as a pool of threads. -/
def nodeSystem (cfg : Config) (env : Env S) : System Op.Res Actor AdmitRequest (Node S) :=
  ⟨machine env, nodeProgram cfg⟩

/-! ## The invariant -/

/-- The peers and the table agree, and there is room for the peers. -/
structure Admitted (maxPeers : Nat) (s : Node S) : Prop where
  rows : s.registered ⊆ s.table.keys
  room : s.registered.card ≤ maxPeers
  wf : S.wf s.svc
  uncut : s.uncut ⊆ s.registered

/-- Every row is still there, with its id and its key. -/
def RowsPersist (s s' : Node S) : Prop :=
  ∀ r ∈ s.table.rows, ∃ r' ∈ s'.table.rows, r'.id = r.id ∧ r'.key = r.key

theorem RowsPersist.trans {a b c : Node S} (hab : RowsPersist a b) (hbc : RowsPersist b c) :
    RowsPersist a c := by
  intro r hr
  obtain ⟨r', hr', hid, hkey⟩ := hab r hr
  obtain ⟨r'', hr'', hid', hkey'⟩ := hbc r' hr'
  exact ⟨r'', hr'', hid'.trans hid, hkey'.trans hkey⟩

theorem RowsPersist.of_table {s s' : Node S} (h : s'.table = s.table) : RowsPersist s s' := by
  intro r hr
  exact ⟨r, by rw [h]; exact hr, rfl, rfl⟩

variable {m : Nat} {s s' : Node S}

/-- While the service stays as it is, only the rows matter. -/
theorem Admitted.of_svc (h : Admitted m s) (hsvc : s'.svc = s.svc) (huncut : s'.uncut = s.uncut)
    (hrows : s.registered ⊆ s'.table.keys) : Admitted m s' := by
  have hreg : s'.registered = s.registered := congrArg S.registered hsvc
  refine ⟨?_, ?_, ?_, ?_⟩
  · rw [hreg]; exact hrows
  · rw [hreg]; exact h.room
  · rw [hsvc]; exact h.wf
  · rw [huncut, hreg]; exact h.uncut

theorem Admitted.quiet (hq : Quiet s s') (h : Admitted m s) : Admitted m s' := by
  refine h.of_svc hq.svc hq.uncut ?_
  rw [hq.table]
  exact h.rows

/-! ## What the writes do to it -/

/-- When every peer that is not cut off is registered, a removal keeps it so. -/
theorem execRemovePeer_uncut (hS : S.Lawful) (env : Env S) (site : CallSite) (data : List UInt8)
    (hwf : S.wf s.svc) (h : s.uncut ⊆ s.registered) :
    (execRemovePeer env site data s).2.uncut ⊆ (execRemovePeer env site data s).2.registered := by
  show (if S.cutOff data (env.control s.clock site) s.svc then s.uncut.erase (Key.of data)
    else s.uncut) ⊆ S.registered (S.removePeer data (env.control s.clock site) s.svc).2
  cases hr : (S.removePeer data (env.control s.clock site) s.svc).1 with
  | none =>
      -- a removal that succeeds has cut the peer off, so both sets lose its key
      rw [hS.removePeer_ok hwf hr, if_pos (hS.cuts hr)]
      exact Finset.erase_subset_erase _ h
  | some e =>
      rw [hS.keeps hr]
      split
      · exact (Finset.erase_subset _ _).trans h
      · exact h

/-- A removal, whether it fails or not, keeps the invariant. -/
theorem Admitted.removePeer (hS : S.Lawful) (env : Env S) (site : CallSite) (data : List UInt8)
    (h : Admitted m s) : Admitted m (execRemovePeer env site data s).2 := by
  have hsub : (execRemovePeer env site data s).2.registered ⊆ s.registered :=
    hS.removePeer_subset data _ _
  exact ⟨hsub.trans h.rows, (Finset.card_le_card hsub).trans h.room, hS.wf_removePeer h.wf,
    execRemovePeer_uncut hS env site data h.wf h.uncut⟩

/-- Storing usage touches neither the peers nor any row's id or key. -/
theorem execUpdates_spec (env : Env S) (cond : Session) (up down : Int64) (s : Node S) :
    (execUpdates env cond up down s).2.svc = s.svc ∧
    (execUpdates env cond up down s).2.uncut = s.uncut ∧
    (execUpdates env cond up down s).2.table.keys = s.table.keys ∧
    RowsPersist s (execUpdates env cond up down s).2 := by
  rcases execUpdates_cases env cond up down s with ⟨e, he⟩ | ⟨-, he⟩
  · rw [he]
    exact ⟨rfl, rfl, rfl, RowsPersist.of_table rfl⟩
  · rw [he]
    exact ⟨rfl, rfl, Table.keys_setUsage _ _ _ _ _, fun r hr => Table.mem_setUsage hr⟩

theorem Admitted.updates (env : Env S) (cond : Session) (up down : Int64) (h : Admitted m s) :
    Admitted m (execUpdates env cond up down s).2 := by
  obtain ⟨hsvc, huncut, hkeys, -⟩ := execUpdates_spec env cond up down s
  refine h.of_svc hsvc huncut ?_
  rw [hkeys]
  exact h.rows

/-! ## The contract -/

/-- What the threads owe one another.  Outside the lock a thread only reads.
`update_sessions` alone deletes rows, so it may count on the rows it has read,
and everyone else has to keep them. -/
def admissionContract (maxPeers : Nat) : Contract Op Actor (Node S) where
  inv := Admitted maxPeers
  rely i s s' := i = .updateSessions → RowsPersist s s'
  calm _ := Quiet
  tick _ := Quiet
  guar i s s' := i ≠ .updateSessions → RowsPersist s s'
  ok _ _ _ := True

theorem admissionContract_fits (env : Env S) :
    (admissionContract m : Contract Op Actor (Node S)).Fits (machine env) where
  rely_refl _ _ _ := RowsPersist.of_table rfl
  rely_trans _ _ _ _ hab hbc hi := (hab hi).trans (hbc hi)
  calm_refl _ s := Quiet.refl s
  calm_trans _ _ _ _ hab hbc := Quiet.trans hab hbc
  tick_rely _ hq _ := RowsPersist.of_table (Quiet.table hq)
  tick_calm _ hq := hq
  tick_inv hq h := Admitted.quiet hq h
  guar_rely hij _ hg hj := hg fun hi => hij (hi.trans hj.symm)
  acquire_rely _ _ := RowsPersist.of_table (acquire_quiet env _ _).table

/-! ## The `set_sessions` pass -/

theorem Op.IsRead.admitted (env : Env S) {o : Op} (ho : o.IsRead) (h : Admitted m s) :
    Admitted m (exec env o s).2 ∧ RowsPersist s (exec env o s).2 :=
  ⟨h.quiet (ho.quiet env s), RowsPersist.of_table (ho.quiet env s).table⟩

/-- Such a call keeps the invariant and every row, whether it fails or not. -/
theorem Op.KeepsRows.admitted (hS : S.Lawful) (env : Env S) {o : Op} (ho : o.KeepsRows)
    (h : Admitted m s) : Admitted m (exec env o s).2 ∧ RowsPersist s (exec env o s).2 := by
  cases o with
  | addPeer _ | create _ | delete _ | deleteAll => exact absurd ho id
  | removePeer site data =>
      exact ⟨h.removePeer hS env site data, RowsPersist.of_table rfl⟩
  | updates cond up down =>
      exact ⟨h.updates env cond up down, (execUpdates_spec env cond up down s).2.2.2⟩
  | peers =>
      have hq : Quiet s (execPeers env s).2 := ⟨rfl, rfl, rfl⟩
      exact ⟨h.quiet hq, RowsPersist.of_table hq.table⟩
  | peerCount | hasPeer _ | count _ | find _ _ | vacuum | querySession _
  | querySubscription _ | queryAllocation _ _ | updateSessions _ =>
      exact Op.IsRead.admitted env (by exact trivial) h

/-! ## The `update_sessions` pass -/

/-- The rows the pass has read are still there, under distinct ids. -/
structure Held (items : List Session) (s : Node S) : Prop where
  ids : (items.map Session.id).Nodup
  rows : ∀ item ∈ items, ∃ r ∈ s.table.rows, r.id = item.id ∧ r.key = item.key

theorem Held.persist {items : List Session} (hp : RowsPersist s s') (h : Held items s) :
    Held items s' := by
  refine ⟨h.ids, fun item hi => ?_⟩
  obtain ⟨r, hr, hid, hkey⟩ := h.rows item hi
  obtain ⟨r', hr', hid', hkey'⟩ := hp r hr
  exact ⟨r', hr', hid'.trans hid, hkey'.trans hkey⟩

/-- A row goes only together with its peer. -/
def Check.PeerFirst (c : Check) : Prop := c.removeSession = true → c.removePeer = true

theorem sessionVerdict_peerFirst (item : Session) (session : ChainSession) (same : Bool) :
    (sessionVerdict item session same).PeerFirst := by
  intro h
  have hs : session.status = .inactive := by simpa [sessionVerdict] using h
  simp [sessionVerdict, hs]

theorem subscriptionVerdict_peerFirst {c : Check} (h : c.PeerFirst) (o : Option Subscription) :
    (subscriptionVerdict c o).PeerFirst := by
  unfold subscriptionVerdict
  split
  · exact fun _ => rfl
  · split
    · exact h
    · split
      · exact fun _ => rfl
      · exact fun _ => rfl

theorem checkSession_plain (item : Session) : Prog.Plain Op.IsRead (checkSession item) := by
  refine .perform_bind trivial fun r => ?_
  rcases r with e | (_ | session)
  · exact .ret _
  · exact .ret _
  · dsimp only
    split
    · exact .ret _
    · split
      · exact .ret _
      · refine .perform_bind trivial fun r => ?_
        cases r with
        | error e => exact .ret _
        | ok o => exact .ret _

theorem checkSession_peerFirst (item : Session) :
    Prog.Yields (fun r => ∀ c, r = some c → c.PeerFirst) (checkSession item) := by
  refine .perform_bind fun r => ?_
  rcases r with e | (_ | session)
  · rintro c ⟨⟩ h; cases h
  · rintro c ⟨⟩ _; rfl
  · dsimp only
    split
    · rintro c ⟨⟩
    · rename_i same _
      split
      · rintro c ⟨⟩; exact sessionVerdict_peerFirst item session same
      · refine .perform_bind fun r => ?_
        cases r with
        | error e => rintro c ⟨⟩; exact sessionVerdict_peerFirst item session same
        | ok o =>
            rintro c ⟨⟩
            exact subscriptionVerdict_peerFirst (sessionVerdict_peerFirst item session same) o

/-- Only the row of `id` can go, and the peers and the record stay. -/
theorem execDelete_spec (env : Env S) (id : Nat) (s : Node S) :
    (execDelete env { id := id } s).2.log = s.log ∧
    (execDelete env { id := id } s).2.svc = s.svc ∧
    (execDelete env { id := id } s).2.uncut = s.uncut ∧
    ∀ r ∈ s.table.rows, r.id ≠ id → r ∈ (execDelete env { id := id } s).2.table.rows := by
  rcases execDelete_cases env { id := id } s with ⟨e, he⟩ | ⟨hz, he⟩
  · rw [he]
    exact ⟨rfl, rfl, rfl, fun r hr _ => hr⟩
  · rw [he]
    refine ⟨rfl, rfl, rfl, fun r hr hrid => ?_⟩
    refine Table.mem_delete.2 ⟨hr, Bool.eq_false_iff.2 fun hsat => ?_⟩
    rcases Session.satisfies_id.1 hsat with h0 | h0
    · exact Bool.eq_false_iff.1 hz (Session.isZero_id.2 h0)
    · exact hrid h0

/-- Deleting the row of an id whose peer is not registered keeps the invariant. -/
theorem Admitted.delete (env : Env S) {id : Nat} (h : Admitted m s)
    (hid : ∀ r ∈ s.table.rows, r.id = id → r.key ∉ s.registered) :
    Admitted m (execDelete env { id := id } s).2 := by
  obtain ⟨-, hsvc, huncut, hkeep⟩ := execDelete_spec env id s
  refine h.of_svc hsvc huncut fun k hk => ?_
  obtain ⟨r, hr, rfl⟩ := Table.mem_keys.1 (h.rows hk)
  exact Table.mem_keys.2 ⟨r, hkeep r hr fun hrid => hid r hr hrid hk, rfl⟩

/-! ## Removing a peer under the lock -/

/-- The invariant, with the table pinned and the peers bounded: what a thread
knows while it holds the lock and has only removed peers. -/
structure Under (m : Nat) (T : Table) (G : Finset Key) (s : Node S) : Prop where
  admitted : Admitted m s
  table : s.table = T
  bound : s.registered ⊆ G

theorem Under.quiet {T : Table} {G : Finset Key} (hq : Quiet s s') (h : Under m T G s) :
    Under m T G s' :=
  ⟨h.admitted.quiet hq, hq.table.trans h.table, by rw [hq.registered]; exact h.bound⟩

theorem Under.removePeer (hS : S.Lawful) (env : Env S) (site : CallSite) (data : List UInt8)
    {T : Table} {G : Finset Key} (h : Under m T G s) :
    Under m T G (execRemovePeer env site data s).2 :=
  ⟨h.admitted.removePeer hS env site data, h.table,
    (hS.removePeer_subset data _ _).trans h.bound⟩

/-- **`RemovePeerIfExists` returns nil only when the peer is gone**, and it changes
nothing else. -/
theorem removePeerIfExists_safe (hS : S.Lawful) (env : Env S) {i : Actor} (site : CallSite)
    (key : Key) {T : Table} {G : Finset Key} (h : Under m T G s) :
    Safe (machine env) (admissionContract m) i
      (fun r b t => b = true ∧ Under m T G t ∧ (r = none → key ∉ t.registered))
      (removePeerIfExists site key) true s := by
  obtain ⟨data, hdec, rfl⟩ := key.decode
  unfold removePeerIfExists hasPeer removePeer
  rw [hdec]
  -- first `HasPeer`, whose answer is the registered set's
  refine Safe.perform_bind fun s₁ hq₁ _ => ⟨fun _ => RowsPersist.of_table rfl, ?_⟩
  have h₁ : Under m T G s₁.tick := (h.quiet hq₁).quiet s₁.tick_quiet
  have hanswer : ((machine env).exec (.hasPeer data) s₁).1 = S.hasPeer data s₁.svc := rfl
  rw [hanswer]
  cases hhas : S.hasPeer data s₁.svc with
  | false =>
      intro s₂ hq₂
      refine ⟨rfl, h₁.quiet hq₂, fun _ hmem => ?_⟩
      rw [Quiet.registered hq₂] at hmem
      rw [(hS.hasPeer_iff data s₁.svc).2 hmem] at hhas
      cases hhas
  | true =>
      refine Safe.perform_bind fun s₂ hq₂ _ => ⟨fun _ => RowsPersist.of_table rfl, ?_⟩
      intro s₃ hq₃
      refine ⟨rfl, ((h₁.quiet hq₂).removePeer hS env site data).quiet hq₃, fun hnone => ?_⟩
      have hok : (S.removePeer data (env.control s₂.clock site) s₂.svc).1 = none := by
        simpa [machine, exec, execRemovePeer] using hnone
      rw [Quiet.registered hq₃]
      show Key.of data ∉ S.registered (S.removePeer data (env.control s₂.clock site) s₂.svc).2
      rw [hS.removePeer_ok (h₁.quiet hq₂).admitted.wf hok]
      exact Finset.notMem_erase _ _

/-! ## Retiring a session -/

/-- Deleting the row of a session whose peer is gone keeps the other rows the
pass has read. -/
theorem Held.delete (env : Env S) {item : Session} {rest : List Session}
    (h : Held (rest ++ [item]) s) (hadm : Admitted m s) (hgone : item.key ∉ s.registered) :
    Admitted m (execDelete env { id := item.id } s).2 ∧
      Held rest (execDelete env { id := item.id } s).2 := by
  obtain ⟨r₀, hr₀, hid₀, hkey₀⟩ := h.rows item (by simp)
  have hrow : ∀ r ∈ s.table.rows, r.id = item.id → r.key ∉ s.registered := by
    intro r hr hid
    rw [Table.eq_of_id hr hr₀ (hid.trans hid₀.symm), hkey₀]
    exact hgone
  obtain ⟨-, -, -, hkeep⟩ := execDelete_spec env item.id s
  have hnodup := h.ids
  rw [List.map_append, List.nodup_append] at hnodup
  refine ⟨hadm.delete env hrow, hnodup.1, fun x hx => ?_⟩
  obtain ⟨r, hr, hid, hkey⟩ := h.rows x (List.mem_append_left _ hx)
  have hne : x.id ≠ item.id := hnodup.2.2 _ (List.mem_map.2 ⟨x, hx, rfl⟩) _ (by simp)
  exact ⟨r, hkeep r hr (by rw [hid]; exact hne), hid, hkey⟩

/-- The second half of `retire`, once the peer is gone. -/
theorem retire_delete_safe (env : Env S) {item : Session} {rest : List Session} (rs : Bool)
    {T : Table} {G : Finset Key} (hu : Under m T G s) (h : Held (rest ++ [item]) s)
    (hgone : item.key ∉ s.registered) {Q : Option Err → Bool → Node S → Prop}
    (hQ : ∀ a t, Held rest t → Q a false t)
    (hrest : ∀ {t : Node S}, Held (rest ++ [item]) t → Held rest t) :
    Safe (machine env) (admissionContract m) .updateSessions
      (fun a b t => b = true ∧ (admissionContract m).inv t ∧
        ∀ t', (admissionContract m).rely .updateSessions t t' → Q a false t')
      (if rs then call (.delete { id := item.id }) else return none) true s := by
  cases rs with
  | false =>
      intro t ht
      have hheld := h.persist (RowsPersist.of_table (Quiet.table ht))
      exact ⟨rfl, (hu.quiet ht).admitted, fun t' hr => hQ _ _ ((hrest hheld).persist (hr rfl))⟩
  | true =>
      intro s₁ hq₁ _
      have hgone₁ : item.key ∉ s₁.registered := by
        rw [Quiet.registered hq₁]
        exact hgone
      obtain ⟨hadm, hheld⟩ := (h.persist (RowsPersist.of_table (Quiet.table hq₁))).delete env
        (hu.quiet hq₁).admitted hgone₁
      refine ⟨fun hne => absurd rfl hne, fun t ht => ⟨rfl, Admitted.quiet ht hadm, fun t' hr => ?_⟩⟩
      exact hQ _ _ ((hheld.persist (RowsPersist.of_table (Quiet.table ht))).persist (hr rfl))

/-- `retire` keeps the invariant, and the rows read before it that it is not
asked about. -/
theorem retire_safe (hS : S.Lawful) (env : Env S) {item : Session} {rest : List Session}
    {rp rs : Bool} (hfirst : rs = true → rp = true) (h : Held (rest ++ [item]) s) :
    Safe (machine env) (admissionContract m) .updateSessions
      (fun _ b t => b = false ∧ Held rest t) (retire item rp rs) false s := by
  have hrest : ∀ {t : Node S}, Held (rest ++ [item]) t → Held rest t := fun ht =>
    ⟨(List.nodup_append.1 (by simpa using ht.ids)).1,
      fun x hx => ht.rows x (List.mem_append_left _ hx)⟩
  unfold retire
  refine Safe.withLock (admissionContract_fits env) (fun s₁ hr₁ hinv₁ => ?_)
    (fun t t' hq ht => Admitted.quiet hq ht) (fun hq _ => RowsPersist.of_table (Quiet.table hq))
  have hq := acquire_quiet env .updateSessions s₁
  have hheld : Held (rest ++ [item]) ((machine env).acquire .updateSessions s₁) :=
    (h.persist (hr₁ rfl)).persist (RowsPersist.of_table hq.table)
  have hunder : Under m s₁.table s₁.registered ((machine env).acquire .updateSessions s₁) :=
    Under.quiet hq ⟨hinv₁, rfl, Finset.Subset.refl _⟩
  have hheldT : ∀ {t : Node S}, t.table = s₁.table → Held (rest ++ [item]) t := fun ht =>
    hheld.persist (RowsPersist.of_table (ht.trans hq.table.symm))
  have hend : ∀ {t : Node S}, Held rest t → ∀ t', (admissionContract m).rely .updateSessions t t' →
      false = false ∧ Held rest t' := fun ht t' hr => ⟨rfl, ht.persist (hr rfl)⟩
  cases rp with
  | false =>
      have hrs : rs = false := by
        cases rs with
        | false => rfl
        | true => exact absurd (hfirst rfl) (by simp)
      subst hrs
      intro t ht
      have hu := hunder.quiet ht
      exact ⟨rfl, hu.admitted, hend (hrest (hheldT hu.table))⟩
  | true =>
      refine Safe.bind (Safe.mono ?_ (removePeerIfExists_safe hS env .retirement item.key hunder))
        (admissionContract_fits env)
      rintro r b t ⟨rfl, hu, hgone⟩
      cases r with
      | some e =>
          intro t' ht'
          have hu' := hu.quiet ht'
          exact ⟨rfl, hu'.admitted, hend (hrest (hheldT hu'.table))⟩
      | none =>
          exact retire_delete_safe env rs (Q := fun _ b t => b = false ∧ Held rest t) hu
            (hheldT hu.table) (hgone rfl) (fun _ _ ht => ⟨rfl, ht⟩) hrest

/-! ## The whole passes -/

/-- Reads outside the lock are safe, and keep whatever the others keep. -/
theorem reads_safe {α : Type} (env : Env S) {i : Actor} {A : Node S → Prop} {R : α → Prop}
    (hA : ∀ {s s' : Node S}, (admissionContract m).rely i s s' → A s → A s')
    (hq : ∀ {s s' : Node S}, Quiet s s' → A s → A s') {p : NodeM α}
    (hp : Prog.Plain Op.IsRead p) (hy : Prog.Yields R p) (h : A s) :
    Safe (machine env) (admissionContract m) i (fun a b t => b = false ∧ R a ∧ A t) p false s := by
  refine Safe.of_plain (A := A) (P := Op.IsRead) (R := R) ?_ ?_ ?_ hp hy h
  · exact fun _ _ hr ha => hA hr ha
  · exact fun _ t ho _ ha => ⟨ho.quiet env t, hq (ho.quiet env t) ha⟩
  · exact fun _ _ hr ha => ⟨rfl, hr, ha⟩

/-- The loop of `updateSessions`, from any index down.  What carries it is that
the items below the index, which the in-place erase leaves alone, are still
backed by their rows. -/
theorem sweep_safe (hS : S.Lawful) (env : Env S) : ∀ (i : Nat) (items : List Session)
    (errs : List Err) (s : Node S), Held (items.take i) s →
      Safe (machine env) (admissionContract m) .updateSessions (fun _ b _ => b = false)
        (sweep i items errs) false s := by
  intro i
  induction i with
  | zero => intro items errs s _ t _; rfl
  | succ i ih =>
      intro items errs s h
      unfold sweep
      cases hget : items[i]? with
      | none => exact fun _ _ => rfl
      | some item =>
          rw [List.take_add_one, hget] at h
          refine Safe.bind (Safe.mono ?_ (reads_safe env (fun hr ha => Held.persist (hr rfl) ha)
            (fun hq ha => Held.persist (RowsPersist.of_table hq.table) ha)
            (checkSession_plain item) (checkSession_peerFirst item) h)) (admissionContract_fits env)
          rintro r b t ⟨rfl, hfirst, hheld⟩
          cases r with
          | none => exact fun _ _ => rfl
          | some c =>
              refine Safe.bind (Safe.mono (Q := fun _ b t => b = false ∧ Held (items.take i) t)
                ?_ ?_) (admissionContract_fits env)
              · rintro err b t' ⟨rfl, hheld'⟩
                refine ih _ _ _ ?_
                split
                · rw [List.take_eraseIdx_eq_take_of_le _ _ _ (Nat.le_refl i)]
                  exact hheld'
                · exact hheld'
              · split
                · exact retire_safe hS env (hfirst c rfl) hheld
                · intro t' hr
                  have hheld' := hheld.persist (hr rfl)
                  have hnodup := hheld'.ids
                  rw [List.map_append, List.nodup_append] at hnodup
                  exact ⟨rfl, hnodup.1, fun x hx => hheld'.rows x (List.mem_append_left _ hx)⟩

theorem requery_plain (items : List Session) : Prog.Plain Op.IsRead (requery items) := by
  induction items with
  | nil => exact .ret _
  | cons item rest ih =>
      refine .perform_bind trivial fun r => ih.bind fun q => ?_
      rcases r with e | (_ | session)
      · exact .ret _
      · exact .ret _
      · dsimp only
        split
        · exact .ret _
        · exact .ret _

theorem reportEach_plain (items : List Session) : Prog.Plain Op.IsRead (reportEach items) := by
  induction items with
  | nil => exact .ret _
  | cons item rest ih =>
      refine .perform_bind trivial fun r => ih.bind fun _ => ?_
      cases r with
      | none => exact .ret _
      | some e => exact .ret _

theorem reportSessions_plain (items : List Session) :
    Prog.Plain Op.IsRead (reportSessions items) := by
  refine .perform_bind trivial fun r => ?_
  cases r with
  | none => exact .ret _
  | some err =>
      refine (requery_plain items).bind fun q => ?_
      dsimp only
      split
      · exact .ret _
      · split
        · exact .ret _
        · split
          · refine .perform_bind trivial fun r => ?_
            cases r with
            | none => exact .ret _
            | some _ => exact reportEach_plain _
          · exact reportEach_plain _

/-- The calls `retire` makes. -/
def Op.Retires : Op → Prop
  | .hasPeer _ | .removePeer .retirement _ | .delete _ => True
  | _ => False

theorem Op.Retires.addsNoPeer {o : Op} (ho : o.Retires) : o.AddsNoPeer := by
  cases o with
  | addPeer _ => exact ho
  | _ => trivial

theorem retire_bracketed (item : Session) (rp rs : Bool) :
    Prog.Bracketed Op.IsRead Op.Retires false (retire item rp rs) := by
  refine .withLock (Prog.Plain.bind ?_ fun r => ?_)
  · split
    · exact removePeerIfExists_plain (fun _ => trivial) (fun _ => trivial) _
    · exact .ret _
  · cases r with
    | some e => exact .ret _
    | none =>
        dsimp only
        split
        · exact .perform_bind trivial fun _ => .ret _
        · exact .ret _

theorem sweep_bracketed (i : Nat) : ∀ (items : List Session) (errs : List Err),
    Prog.Bracketed Op.IsRead Op.Retires false (sweep i items errs) := by
  induction i with
  | zero => exact fun _ _ => rfl
  | succ i ih =>
      intro items errs
      unfold sweep
      cases items[i]? with
      | none => rfl
      | some item =>
          refine (Prog.Bracketed.of_plain (checkSession_plain item)).bind fun r => ?_
          cases r with
          | none => rfl
          | some c =>
              refine Prog.Bracketed.bind ?_ fun _ => ih _ _
              split
              · exact retire_bracketed item _ _
              · rfl

/-- **An `update_sessions` pass only reads**, but for what it retires under the
lock. -/
theorem updateSessions_bracketed : Prog.Bracketed Op.IsRead Op.Retires false updateSessions := by
  refine ⟨trivial, fun r => ?_⟩
  cases r with
  | error e => rfl
  | ok items =>
      refine (sweep_bracketed items.length items []).bind fun r => ?_
      cases r with
      | none => rfl
      | some r =>
          dsimp only
          split
          · exact (Prog.Bracketed.of_plain (reportSessions_plain _)).bind fun _ => rfl
          · rfl

theorem held_find (cond : Session) : Held (s.table.find cond) s :=
  ⟨s.table.ids_nodup.sublist (List.filter_sublist.map _),
    fun item hi => ⟨item, (Table.mem_find.1 hi).1, rfl, rfl⟩⟩

/-- **An `update_sessions` pass is safe** among any other threads. -/
theorem updateSessions_safe (hS : S.Lawful) (env : Env S) (s : Node S) :
    Safe (machine env) (admissionContract m) .updateSessions (fun _ b _ => b = false)
      updateSessions false s := by
  refine Safe.perform_bind fun s₁ _ _ => ⟨Op.IsRead.quiet env (by exact trivial) s₁, ?_⟩
  cases hfind : (exec env (.find {} none) s₁).1 with
  | error e =>
      rw [show ((machine env).exec (.find {} none) s₁).1 = _ from hfind]
      exact fun _ _ => rfl
  | ok items =>
      rw [show ((machine env).exec (.find {} none) s₁).1 = _ from hfind]
      have hheld : Held (items.take items.length) s₁.tick := by
        rw [List.take_length, find_ok hfind]
        exact Held.persist (RowsPersist.of_table s₁.tick_quiet.table) (held_find {})
      refine Safe.bind (Safe.mono ?_ (sweep_safe hS env items.length items [] s₁.tick hheld))
        (admissionContract_fits env)
      rintro r b t rfl
      rcases r with _ | ⟨left, errs⟩
      · exact fun _ _ => rfl
      · dsimp only
        split
        · refine Safe.bind (Safe.mono ?_ (reads_safe env (A := fun _ => True)
            (R := fun _ => True) (fun _ h => h) (fun _ h => h) (reportSessions_plain left)
            (Prog.Yields.of_forall (fun _ => trivial) _) trivial)) (admissionContract_fits env)
          rintro more b t' ⟨rfl, -, -⟩
          exact fun _ _ => rfl
        · exact fun _ _ => rfl

/-- **A `set_sessions` pass is safe** among any other threads: under the lock it
makes only calls that keep the invariant and the rows. -/
theorem setSessions_safe (hS : S.Lawful) (env : Env S) (s : Node S) :
    Safe (machine env) (admissionContract m) .setSessions (fun _ b _ => b = false)
      setSessions false s := by
  refine Safe.perform_bind fun s₁ _ _ => ⟨⟨rfl, rfl, rfl⟩, ?_⟩
  show Safe _ _ _ _ (match env.peers s₁.clock with
    | .error e => _
    | .ok peers => _) _ _
  cases env.peers s₁.clock with
  | error e => exact fun _ _ => rfl
  | ok peers =>
      refine Safe.withLock (admissionContract_fits env) (fun s₂ _ hinv => ?_)
        (fun t t' hq ht => Admitted.quiet hq ht) (fun hq _ => RowsPersist.of_table (Quiet.table hq))
      refine Safe.of_plain (A := Admitted m) (P := Op.KeepsRows) (R := fun _ => True) ?_ ?_ ?_
        (setEach_plain peers) (Prog.Yields.of_forall (fun _ => trivial) _)
        (Admitted.quiet (acquire_quiet env _ _) hinv)
      · exact fun _ _ hq ht => Admitted.quiet hq ht
      · intro o t ho _ ht
        obtain ⟨hadm, hrows⟩ := ho.admitted hS env ht
        exact ⟨fun _ => hrows, hadm⟩
      · exact fun _ _ _ ht => ⟨rfl, ht, fun _ _ => rfl⟩

end Dvpnd
