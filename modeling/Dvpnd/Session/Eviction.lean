import Dvpnd.Session.Handshake

/-!
# What an admission does to the other peers

`admit` drops the earlier peers of the account before it adds the new one.  Which
they are is up to a query whose condition is a struct, and **gorm leaves the zero
fields of a struct condition out**: for a session without a subscription the query
selects all rows of the account.

* `evict_spec` — the loop drops the peers of the rows in turn, up to the first that
  cannot be dropped.
* `Ending` — the ways an admission can end once it has been let through, and what
  each leaves of the table and the peers; `admitSession_cases`: there are no
  others.
* `admission_isolates_iff` — **an admission leaves the account's other sessions alone
  exactly when it is for a subscription, or the account has no peer on one**;
  `node_session_evicts_subscription_peer`: a node session ends them.
* `failed_admission_keeps` — what a failed admission can cost, and
  `failed_admission_costs_peer`: **the eviction is not undone**.
-/

namespace Dvpnd

open Effect

variable {S : Service}

/-- The keys of some rows. -/
def keysOf (items : List Session) : Finset Key := (items.map Session.key).toFinset

theorem keysOf_cons (item : Session) (items : List Session) :
    keysOf (item :: items) = insert item.key (keysOf items) := by
  simp [keysOf]

theorem keysOf_take_subset (items : List Session) (n : Nat) :
    keysOf (items.take n) ⊆ keysOf items := fun k hk => by
  simp only [keysOf, List.mem_toFinset, List.mem_map] at hk ⊢
  exact hk.imp fun _ h => ⟨List.mem_of_mem_take h.1, h.2⟩

/-- The loop drops the peers of a first part of the rows, and of all of them when it
returns no error. -/
theorem evict_spec (hS : S.Sound) (env : Env S) (i : Actor) (items : List Session) :
    ∀ {s : Node S}, S.wf s.svc →
      ((evict items).run (machine env) i s).2.table = s.table ∧
      S.wf ((evict items).run (machine env) i s).2.svc ∧
      ∃ n, ((evict items).run (machine env) i s).2.registered =
          s.registered \ keysOf (items.take n) ∧
        (((evict items).run (machine env) i s).1 = none → items.take n = items) := by
  induction items with
  | nil => exact fun hwf => ⟨rfl, hwf, 0, by simp [keysOf, evict], fun _ => rfl⟩
  | cons item rest ih =>
      intro s hwf
      obtain ⟨hout, hgone⟩ := removePeerIfExists_spec hS env i .eviction item.key hwf
      unfold evict
      rw [Prog.run_bind]
      generalize (removePeerIfExists .eviction item.key).run (machine env) i s = out at hout hgone ⊢
      obtain ⟨r, s₁⟩ := out
      cases r with
      | some e =>
          refine ⟨hout.table, hout.wf, ?_⟩
          -- the one that failed may be gone or not
          rcases hout.peers with hreg | hreg
          · exact ⟨0, by simpa [keysOf] using hreg, fun h => by cases h⟩
          · refine ⟨1, ?_, fun h => by cases h⟩
            simpa [keysOf, Finset.sdiff_singleton_eq_erase] using hreg
      | none =>
          have hreg : s₁.registered = s.registered.erase item.key := by
            rcases hout.peers with hreg | hreg
            · exact hreg.trans (Finset.erase_eq_of_notMem (hreg ▸ hgone rfl)).symm
            · exact hreg
          obtain ⟨htable, hwf', n, hpeers, hall⟩ := ih hout.wf
          refine ⟨htable.trans hout.table, hwf', n + 1, ?_, fun h => ?_⟩
          · rw [List.take_succ_cons, keysOf_cons, hpeers, hreg, ← Finset.sdiff_singleton_eq_erase,
              sdiff_sdiff_left]
            congr 1
          · rw [List.take_succ_cons, hall h]

/-! ## How an admission can end -/

/-- The ways an admission that has been let through can end, on a table `T` with the
peers `R`. -/
inductive Ending (env : Env S) (req : AdmitRequest) (a : Admission) (T : Table) (R : Finset Key) :
    Except ApiError AdmitResult → Node S → Prop where
  /-- The rows could not be read, a peer not dropped, or the new one not added. -/
  | refused {e : ApiError} {s : Node S} (n : Nat) (code : e.code = 9 ∨ e.code = 10)
      (table : s.table = T)
      (peers : s.registered = R \ keysOf ((T.find (accountRows req a)).take n)) :
      Ending env req a T R (.error e) s
  /-- The row could not be written, and the peer is taken out again. -/
  | rolledBack {e : ApiError} {s : Node S} (code : e.code = 10) (table : s.table = T)
      (bound : s.registered ⊆ insert req.peerKey (R \ keysOf (T.find (accountRows req a))))
      (others : (R \ keysOf (T.find (accountRows req a))).erase req.peerKey ⊆ s.registered)
      (gone : env.RollbackSucceeds → req.peerKey ∉ R → req.peerKey ∉ s.registered) :
      Ending env req a T R (.error e) s
  /-- The peer and its row are there. -/
  | added {res : AdmitResult} {s : Node S} {row : Session} (session : res.session = a.session)
      (rows : s.table.rows = T.rows ++ [row]) (key : row.key = req.peerKey)
      (subscription : row.subscription = a.subscriptionID) (address : row.address = req.accAddress)
      (peers : s.registered = insert req.peerKey (R \ keysOf (T.find (accountRows req a)))) :
      Ending env req a T R (.ok res) s

/-- An insert that fails changes nothing; one that succeeds adds the row, stamped. -/
theorem execCreate_spec (env : Env S) (row : Session) (s : Node S) :
    (execCreate env row s).2.svc = s.svc ∧
    ((∃ e, (execCreate env row s).1 = some e ∧ (execCreate env row s).2.table = s.table) ∨
      ((execCreate env row s).1 = none ∧ (execCreate env row s).2.table.rows = s.table.rows ++
        [{ row with createdAt := env.now s.clock, updatedAt := env.now s.clock }])) := by
  rcases execCreate_cases env row s with ⟨e, he⟩ | ⟨t, ht, he⟩
  · rw [he]
    exact ⟨rfl, .inl ⟨e, rfl, rfl⟩⟩
  · rw [he]
    exact ⟨rfl, .inr ⟨rfl, Table.create_rows ht⟩⟩

theorem execAddPeer_spec (hS : S.Sound) (env : Env S) (data : List UInt8) (s : Node S) :
    (execAddPeer env data s).2.svc = (S.addPeer data (env.control s.clock .admission) s.svc).2 ∧
    ((∃ e, (execAddPeer env data s).1 = .error e ∧
        (execAddPeer env data s).2.registered = s.registered) ∨
      ∃ r, (execAddPeer env data s).1 = .ok r ∧
        (execAddPeer env data s).2.registered = insert (Key.of data) s.registered) := by
  rcases execAddPeer_cases env data s with ⟨e, hadd, he⟩ | ⟨r, hadd, he⟩
  · rw [he]
    exact ⟨rfl, .inl ⟨e, rfl, hS.addPeer_error hadd⟩⟩
  · rw [he]
    exact ⟨rfl, .inr ⟨r, rfl, hS.addPeer_ok hadd⟩⟩

/-- The roll-back: at most the new peer goes, and it does go when the removal
succeeds. -/
theorem rollback_spec (hS : S.Sound) (env : Env S) {req : AdmitRequest} {X : Finset Key}
    {s : Node S} (hpeers : s.registered = insert req.peerKey X) :
    (execRemovePeer env .rollback req.peerData s).2.registered ⊆ insert req.peerKey X ∧
    X.erase req.peerKey ⊆ (execRemovePeer env .rollback req.peerData s).2.registered ∧
    (env.RollbackSucceeds → S.wf s.svc →
      req.peerKey ∉ (execRemovePeer env .rollback req.peerData s).2.registered) := by
  refine ⟨hpeers ▸ hS.removePeer_subset req.peerData _ s.svc, ?_, fun hroll hwf => ?_⟩
  · have hsub : X.erase req.peerKey ⊆ s.registered.erase req.peerKey :=
      Finset.erase_subset_erase _ (hpeers ▸ Finset.subset_insert _ _)
    rcases hS.removePeer_cases req.peerData (env.control s.clock .rollback) s.svc with hreg | hreg
    · exact hsub.trans ((Finset.erase_subset _ _).trans hreg.ge)
    · exact hsub.trans hreg.ge
  · have hmem : req.peerKey ∈ S.registered s.svc := by
      rw [show S.registered s.svc = _ from hpeers]
      exact Finset.mem_insert_self _ _
    show Key.of req.peerData ∉ S.registered (S.removePeer req.peerData _ s.svc).2
    rw [hS.removePeer_ok hwf (hroll s.clock req.peerData s.svc hmem)]
    exact Finset.notMem_erase _ _

/-- Once the peer is added: its row is written, or the peer taken out again. -/
theorem record_spec (hS : S.Sound) (env : Env S) (i : Actor) {req : AdmitRequest}
    {a : Admission} {available : Int64} {peer : List UInt8} {T : Table} {R : Finset Key} {s : Node S}
    (hwf : req.peerKey ∉ R → S.wf s.svc) (htable : s.table = T)
    (hpeers : s.registered = insert req.peerKey (R \ keysOf (T.find (accountRows req a))))
    {p : NodeM (Except ApiError AdmitResult)} (hp : p = do
      match ← call (.create (admittedRow req a available)) with
      | some e => do
          let _ ← call (.removePeer .rollback req.peerData)
          return .error ⟨500, 10, .internal e⟩
      | none => return .ok ⟨a.session, peer⟩) :
    Ending env req a T R (p.run (machine env) i s).1 (p.run (machine env) i s).2 := by
  subst hp
  unfold call
  rw [Prog.perform_bind, Prog.run_op]
  obtain ⟨hsvc, hcreate⟩ := execCreate_spec env (admittedRow req a available) s
  rcases hcreate with ⟨e, he, hsame⟩ | ⟨hnone, hrows⟩
  · rw [show ((machine env).exec (.create (admittedRow req a available)) s).1 = _ from he]
    have hreg : (execCreate env (admittedRow req a available) s).2.registered =
      insert req.peerKey (R \ keysOf (T.find (accountRows req a))) :=
        (congrArg S.registered hsvc).trans hpeers
    obtain ⟨hbound, hothers, hgone⟩ := rollback_spec hS env hreg
    exact .rolledBack rfl (hsame.trans htable) hbound hothers fun hroll hnew =>
      hgone hroll (hsvc.symm ▸ hwf hnew)
  · rw [show ((machine env).exec (.create (admittedRow req a available)) s).1 = _ from hnone]
    refine .added rfl (htable ▸ hrows) rfl rfl rfl ?_
    exact (congrArg S.registered hsvc).trans hpeers

/-- The last part: the peer is added, then its row. -/
theorem addAndRecord_spec (hS : S.Sound) (env : Env S) (i : Actor) {req : AdmitRequest}
    {a : Admission} {available : Int64} {T : Table} {R : Finset Key} {s : Node S}
    (hwf : S.wf s.svc) (htable : s.table = T)
    (hpeers : s.registered = R \ keysOf (T.find (accountRows req a))) :
    Ending env req a T R ((addAndRecord req a available).run (machine env) i s).1
      ((addAndRecord req a available).run (machine env) i s).2 := by
  unfold addAndRecord
  rw [call, Prog.perform_bind, Prog.run_op]
  have htable₁ : ((machine env).exec (.addPeer req.peerData) s).2.table = T :=
    (Op.KeepsTable.table (o := .addPeer req.peerData) env trivial s).trans htable
  obtain ⟨hsvc, ⟨e, he, hreg⟩ | ⟨peer, he, hreg⟩⟩ := execAddPeer_spec hS env req.peerData s
  · rw [show ((machine env).exec (.addPeer req.peerData) s).1 = _ from he]
    refine .refused (T.find (accountRows req a)).length (.inr rfl) htable₁ ?_
    rw [List.take_length]
    exact hreg.trans hpeers
  · rw [show ((machine env).exec (.addPeer req.peerData) s).1 = _ from he]
    refine record_spec hS env i (fun hnew => ?_) htable₁ (hpeers ▸ hreg) rfl
    refine hsvc.symm ▸ hS.wf_addPeer hwf fun hmem => ?_
    rw [show S.registered s.svc = _ from hpeers] at hmem
    exact hnew (Finset.mem_sdiff.1 hmem).1

/-- The whole of what an admission changes. -/
theorem evictAndAdd_spec (hS : S.Sound) (env : Env S) (i : Actor) (req : AdmitRequest)
    (a : Admission) (available : Int64) {s : Node S} (hwf : S.wf s.svc) :
    Ending env req a s.table s.registered
      ((evictAndAdd req a available).run (machine env) i s).1
      ((evictAndAdd req a available).run (machine env) i s).2 := by
  unfold evictAndAdd
  rw [call, Prog.perform_bind, Prog.run_op]
  cases hfind : ((machine env).exec (.find (accountRows req a) none) s).1 with
  | error e => exact .refused 0 (.inl rfl) rfl (by simp [keysOf]; rfl)
  | ok items =>
      obtain rfl := find_ok hfind
      obtain ⟨htable, hwf', n, hpeers, hall⟩ := evict_spec hS env i (s.table.find (accountRows req a))
        (s := ((machine env).exec (.find (accountRows req a) none) s).2) hwf
      dsimp only
      rw [Prog.run_bind]
      generalize (evict (s.table.find (accountRows req a))).run (machine env) i
        ((machine env).exec (.find (accountRows req a) none) s).2 = out at htable hwf' hpeers hall ⊢
      obtain ⟨r, s₁⟩ := out
      cases r with
      | some e => exact .refused n (.inl rfl) htable hpeers
      | none => exact addAndRecord_spec hS env i hwf' htable (hall rfl ▸ hpeers)

/-! ## The whole of `admit` -/

/-- The error comes from a check, before anything has changed: the codes of the
steps that change something are 9 and 10. -/
def ApiError.Early (e : ApiError) : Prop := e.code ≠ 9 ∧ e.code ≠ 10

theorem ApiError.early {status code : Nat} {reason : Reason} (h : code ≠ 9 ∧ code ≠ 10) :
    ApiError.Early ⟨status, code, reason⟩ := h

theorem checkCapacity_early (cfg : Config) (req : AdmitRequest) :
    Prog.Yields (fun r => ∀ e, r = some e → ApiError.Early e) (checkCapacity cfg req) := by
  refine .perform_bind fun n => ?_
  split
  · rintro e ⟨⟩; exact ApiError.early (by decide)
  · refine Prog.Yields.bind (.of_forall (fun _ => trivial) _) fun r _ => ?_
    rcases r with e | (_ | _)
    · rintro e ⟨⟩; exact ApiError.early (by decide)
    · refine Prog.Yields.bind (.of_forall (fun _ => trivial) _) fun r _ => ?_
      rcases r with e | (_ | _)
      · rintro e ⟨⟩; exact ApiError.early (by decide)
      · rintro e ⟨⟩
      · rintro e ⟨⟩; exact ApiError.early (by decide)
    · rintro e ⟨⟩; exact ApiError.early (by decide)

/-- The check passes only when the key has no row. -/
theorem checkCapacity_vacant (env : Env S) (i : Actor) (cfg : Config) (req : AdmitRequest)
    (s : Node S) (h : ((checkCapacity cfg req).run (machine env) i s).1 = none) :
    ∀ r ∈ s.table.rows, r.key ≠ req.peerKey := by
  have hexists : ∀ (cond : Session) (t : Node S),
      ((sessionExists cond).run (machine env) i t).1 = .ok false → t.table.find cond = [] := by
    intro cond t hout
    unfold sessionExists at hout
    rw [call, Prog.perform_bind, Prog.run_op] at hout
    cases hc : ((machine env).exec (.count cond) t).1 with
    | error e => rw [hc] at hout; cases hout
    | ok n =>
        rw [hc] at hout
        have hn : n = 0 := by simpa using hout
        exact List.eq_nil_of_length_eq_zero ((count_ok hc).trans hn)
  intro r hr hkey
  unfold checkCapacity at h
  rw [call, Prog.perform_bind, Prog.run_op] at h
  split at h
  · cases h
  · rw [Prog.run_bind] at h
    have hquiet := (reads_run env i (sessionExists_plain { id := req.id })
      ((machine env).exec .peerCount s).2).1
    generalize (sessionExists { id := req.id }).run (machine env) i
      ((machine env).exec .peerCount s).2 = out at h hquiet
    obtain ⟨r₁, t⟩ := out
    rcases r₁ with e | (_ | _)
    · cases h
    · dsimp only at h
      rw [Prog.run_bind] at h
      have hnone := hexists { key := req.peerKey } t
      generalize (sessionExists { key := req.peerKey }).run (machine env) i t = out' at h hnone
      obtain ⟨r₂, t'⟩ := out'
      rcases r₂ with e | (_ | _)
      · cases h
      · have hmem : r ∈ t.table.find { key := req.peerKey } :=
          Table.mem_find.2 ⟨hquiet.table ▸ hr, Session.satisfies_key.2 (.inr hkey)⟩
        rw [hnone rfl] at hmem
        exact List.not_mem_nil hmem
      · cases h
    · cases h

/-- What an answer of the chain tells about the error or the subscription. -/
def Answered : Except ApiError Admission → Prop
  | .error e => e.Early
  | .ok a => a.subscriptionID = a.session.subscription.getD 0

theorem sessionCap_early {session : ChainSession} {e : ApiError} (h : sessionCap session = .error e) :
    e.Early := by
  unfold sessionCap at h
  split at h
  · dsimp only at h
    split at h
    · cases h; exact ApiError.early (by decide)
    · cases h
  · cases h

theorem queryPlan_answered (req : AdmitRequest) {a : Admission} {id : Nat}
    (h : a.session.subscription = some id) : Prog.Yields Answered (queryPlan req a id) := by
  refine .perform_bind fun r => ?_
  rcases r with e | (_ | subscription)
  · exact ApiError.early (by decide)
  · exact ApiError.early (by decide)
  · dsimp only
    split
    · exact ApiError.early (by decide)
    · refine .perform_bind fun r => ?_
      rcases r with e | (_ | alloc)
      · exact ApiError.early (by decide)
      · exact ApiError.early (by decide)
      · show id = a.session.subscription.getD 0
        rw [h]
        rfl

theorem queryAdmission_answered (cfg : Config) (req : AdmitRequest) :
    Prog.Yields Answered (queryAdmission cfg req) := by
  refine .perform_bind fun r => ?_
  rcases r with e | (_ | session)
  · exact ApiError.early (by decide)
  · exact ApiError.early (by decide)
  · dsimp only
    split
    · exact ApiError.early (by decide)
    · split
      · exact ApiError.early (by decide)
      · split
        · exact ApiError.early (by decide)
        · cases hcap : sessionCap session with
          | error e => exact sessionCap_early hcap
          | ok cap =>
              dsimp only
              split
              · rename_i hsub
                show 0 = session.subscription.getD 0
                rw [hsub]
                rfl
              · rename_i hsub
                exact queryPlan_answered req hsub

theorem remainingBytes_early (req : AdmitRequest) (a : Admission) :
    Prog.Yields (fun r => ∀ e, r = .error e → ApiError.Early e) (remainingBytes req a) := by
  unfold remainingBytes
  split
  · rintro e ⟨⟩
  · refine .perform_bind fun r => ?_
    cases r with
    | error e => rintro e ⟨⟩; exact ApiError.early (by decide)
    | ok items =>
        dsimp only
        split
        · rintro e ⟨⟩; exact ApiError.early (by decide)
        · split
          · rintro e ⟨⟩
          · rintro e ⟨⟩

/-- The chain's answer, as a handshake that runs alone gets it before it takes the
lock. -/
def admissionAt (cfg : Config) (env : Env S) (i : Actor) (req : AdmitRequest) (s : Node S) :
    Except ApiError Admission :=
  ((queryAdmission cfg req).run (machine env) i
    ((checkCapacity cfg req).run (machine env) i s).2).1

/-- The locked part is refused by a check, or ends in one of the ways of `Ending`. -/
theorem admitLocked_cases (hS : S.Sound) (cfg : Config) (env : Env S) (i : Actor)
    (req : AdmitRequest) (a : Admission) {s : Node S} (hwf : S.wf s.svc)
    {out : Except ApiError AdmitResult × Node S}
    (hout : (admitLocked cfg req a).run (machine env) i s = out) :
    (∃ e, out.1 = .error e ∧ e.Early ∧ Quiet s out.2) ∨
      ((∀ r ∈ s.table.rows, r.key ≠ req.peerKey) ∧
        Ending env req a s.table s.registered out.1 out.2) := by
  subst hout
  unfold admitLocked
  rw [Prog.run_bind]
  have hq := (reads_run env i (checkCapacity_plain cfg req) s).1
  have hearly := (checkCapacity_early cfg req).run (machine env) i s
  have hvacant := checkCapacity_vacant env i cfg req s
  generalize (checkCapacity cfg req).run (machine env) i s = c at hq hearly hvacant ⊢
  obtain ⟨r, t⟩ := c
  cases r with
  | some e => exact .inl ⟨e, rfl, hearly e rfl, hq⟩
  | none =>
      dsimp only
      rw [Prog.run_bind]
      have hq' := hq.trans (reads_run env i (remainingBytes_plain req a) t).1
      have hearly' := (remainingBytes_early req a).run (machine env) i t
      generalize (remainingBytes req a).run (machine env) i t = b at hq' hearly' ⊢
      obtain ⟨r, u⟩ := b
      cases r with
      | error e => exact .inl ⟨e, rfl, hearly' e rfl, hq'⟩
      | ok available =>
          refine .inr ⟨hvacant rfl, ?_⟩
          rw [← hq'.table, ← hq'.registered]
          exact evictAndAdd_spec hS env i req a available (hq'.svc.symm ▸ hwf)

/-- **Every way `admit` can end**: a check refuses it and nothing has changed, or the
chain has let it through and it ends in one of the ways of `Ending`. -/
theorem admitSession_cases (hS : S.Sound) (cfg : Config) (env : Env S) (i : Actor)
    (req : AdmitRequest) {s : Node S} (hwf : S.wf s.svc)
    {out : Except ApiError AdmitResult × Node S}
    (hout : (admitSession cfg req).run (machine env) i s = out) :
    (∃ e, out.1 = .error e ∧ e.Early ∧ Quiet s out.2) ∨
      ∃ a, admissionAt cfg env i req s = .ok a ∧
        a.subscriptionID = a.session.subscription.getD 0 ∧
        (∀ r ∈ s.table.rows, r.key ≠ req.peerKey) ∧
        Ending env req a s.table s.registered out.1 out.2 := by
  subst hout
  unfold admitSession admissionAt
  rw [Prog.run_bind]
  have hq := (reads_run env i (checkCapacity_plain cfg req) s).1
  have hearly := (checkCapacity_early cfg req).run (machine env) i s
  generalize (checkCapacity cfg req).run (machine env) i s = c at hq hearly ⊢
  obtain ⟨r, t⟩ := c
  cases r with
  | some e => exact .inl ⟨e, rfl, hearly e rfl, hq⟩
  | none =>
      dsimp only
      rw [Prog.run_bind]
      have hq' := hq.trans (reads_run env i (queryAdmission_plain cfg req) t).1
      have hanswer := (queryAdmission_answered cfg req).run (machine env) i t
      generalize (queryAdmission cfg req).run (machine env) i t = b at hq' hanswer ⊢
      obtain ⟨r, u⟩ := b
      cases r with
      | error e => exact .inl ⟨e, rfl, hanswer, hq'⟩
      | ok a =>
          dsimp only
          rw [Prog.run_withLock]
          have hq'' := hq'.trans (acquire_quiet env i u)
          rcases admitLocked_cases hS cfg env i req a (hq''.svc.symm ▸ hwf) rfl with
            ⟨e, he, hlate, hquiet⟩ | ⟨hvacant, hend⟩
          · exact .inl ⟨e, he, hlate, hq''.trans hquiet⟩
          · rw [hq''.table, hq''.registered] at hend
            exact .inr ⟨a, rfl, hanswer, hq''.table ▸ hvacant, hend⟩

/-! ## What an admission leaves of the other peers -/

/-- An admission of the account for a session of subscription `sub` (0 for a node
session) leaves the new peer the only one of the account's rows with that
subscription, and every other peer as it was. -/
structure Isolates (req : AdmitRequest) (sub : Nat) (s s' : Node S) : Prop where
  recorded : ∃ r ∈ s'.table.rows, r.key = req.peerKey ∧ r.subscription = sub ∧
    r.address = req.accAddress
  added : req.peerKey ∈ s'.registered
  only : ∀ r ∈ s'.table.rows, r.subscription = sub → r.address = req.accAddress →
    r.key ∈ s'.registered → r.key = req.peerKey
  others : ∀ r ∈ s'.table.rows, r.subscription ≠ sub ∨ r.address ≠ req.accAddress →
    (r.key ∈ s'.registered ↔ r.key ∈ s.registered)

/-- The rows whose peers are dropped: those of the account with the subscription, or
all of the account's when there is none. -/
theorem accountRows_satisfies {req : AdmitRequest} {a : Admission} {r : Session} :
    (accountRows req a).satisfies r = true ↔
      (a.subscriptionID = 0 ∨ r.subscription = a.subscriptionID) ∧ r.address = req.accAddress := by
  unfold accountRows
  rw [Session.satisfies_account]
  exact and_congr_right fun _ => or_iff_right req.accAddress_ne

/-- A row's peer is dropped exactly when the query selects the row. -/
theorem mem_keysOf_find {T : Table} {cond r : Session} (hr : r ∈ T.rows) :
    r.key ∈ keysOf (T.find cond) ↔ cond.satisfies r = true := by
  simp only [keysOf, List.mem_toFinset, List.mem_map, Table.mem_find]
  constructor
  · rintro ⟨x, ⟨hx, hsat⟩, hkey⟩
    exact Table.eq_of_key hx hr hkey ▸ hsat
  · exact fun hsat => ⟨r, ⟨hr, hsat⟩, rfl⟩

/-- **Exactly when an admission leaves the account's other sessions alone**: it is for
a session of a subscription, or the account has no peer on a session of one. -/
theorem admission_isolates_iff (hS : S.Sound) (cfg : Config) (env : Env S) (i : Actor)
    (req : AdmitRequest) {s s' : Node S} {res : AdmitResult} (hwf : S.wf s.svc)
    (hok : (admitSession cfg req).run (machine env) i s = (.ok res, s')) :
    Isolates req (res.session.subscription.getD 0) s s' ↔
      (res.session.subscription.getD 0 ≠ 0 ∨
        ∀ r ∈ s.table.rows, r.address = req.accAddress → r.subscription ≠ 0 →
          r.key ∉ s.registered) := by
  rcases admitSession_cases hS cfg env i req hwf hok with ⟨e, he, -, -⟩ | ⟨a, -, hsub, hvacant, hend⟩
  · cases he
  cases hend with
  | added hsession hrows hkey hrowsub haddr hpeers =>
      rename_i row
      rw [hsession, ← hsub]
      have hmem : ∀ r, r ∈ s'.table.rows ↔ r ∈ s.table.rows ∨ r = row := fun r => by
        rw [hrows, List.mem_append, List.mem_singleton]
      -- what has become of the peer of a row that was there before
      have hold : ∀ r ∈ s.table.rows, r.key ∈ s'.registered ↔ r.key ∈ s.registered ∧
          ¬ ((a.subscriptionID = 0 ∨ r.subscription = a.subscriptionID) ∧
            r.address = req.accAddress) := fun r hr => by
        rw [hpeers, Finset.mem_insert, or_iff_right (hvacant r hr), Finset.mem_sdiff,
          mem_keysOf_find hr, accountRows_satisfies]
      constructor
      · intro h
        by_contra hnot
        simp only [not_or, not_not, not_forall] at hnot
        obtain ⟨hzero, r, hr, hacc, hne, hreg⟩ := hnot
        have hkept := (h.others r ((hmem r).2 (.inl hr)) (.inl (hzero ▸ hne))).2 hreg
        exact ((hold r hr).1 hkept).2 ⟨.inl hzero, hacc⟩
      · intro hcond
        refine ⟨⟨row, (hmem row).2 (.inr rfl), hkey, hrowsub, haddr⟩,
          hpeers ▸ Finset.mem_insert_self _ _, fun r hr hrsub hracc hreg => ?_, fun r hr hne => ?_⟩
        · rcases (hmem r).1 hr with hr | rfl
          · exact absurd ⟨.inr hrsub, hracc⟩ ((hold r hr).1 hreg).2
          · exact hkey
        · rcases (hmem r).1 hr with hr | rfl
          · rw [hold r hr]
            refine ⟨And.left, fun hreg => ⟨hreg, ?_⟩⟩
            rintro ⟨hsel, hacc⟩
            rcases hne with hne | hne
            · rcases hsel with hzero | hsame
              · rcases hcond with hcond | hcond
                · exact hcond hzero
                · exact hcond r hr hacc (hzero ▸ hne) hreg
              · exact hne hsame
            · exact hne hacc
          · exact hne.elim (fun h => absurd hrowsub h) fun h => absurd haddr h

/-! ### Two admissions of one account -/

/-- An account with two sessions, one of a subscription and one of none, each with its
peer. -/
def twoSessions : Node peerSet :=
  { Node.fresh (S := peerSet) ({Key.of [1], Key.of [2]} : Finset Key) with
    table := ⟨[{ id := 1, subscription := 5, key := Key.of [1], address := "client" },
      { id := 2, key := Key.of [2], address := "client" }], by decide, by decide⟩ }

theorem client_ne : "client" ≠ "" := by decide

/-- The account asks for a third. -/
def thirdRequest : AdmitRequest := ⟨"client", 3, [3], client_ne, by decide⟩

/-- A chain on which the account has an active session 3, of the given subscription or
of none, and outside calls that never fail. -/
def openEnv (sub : Option Nat) : Env peerSet where
  now t := t
  database _ := none
  peers _ := .ok []
  control _ _ := Outcome.ok
  querySession _ _ := .ok (some
    { id := 3, accAddress := "client", nodeAddress := "node", status := .active, subscription := sub })
  querySubscription _ _ := .ok (some { id := 5, status := .active })
  queryAllocation _ _ _ := .ok (some { grantedBytes := 1000 })
  updateSessions _ _ := none

/-- The third session is admitted. -/
def thirdAdmission (sub : Option Nat) : Except ApiError AdmitResult × Node peerSet :=
  (admitSession ⟨10, "node"⟩ thirdRequest).run (machine (openEnv sub)) (.handshake 0) twoSessions

/-- A session of subscription 5 takes over from the account's other session of it, and
the node session keeps its peer. -/
theorem subscription_session_isolates :
    Isolates thirdRequest 5 twoSessions (thirdAdmission (some 5)).2 ∧
      (thirdAdmission (some 5)).2.registered = {Key.of [2], Key.of [3]} := by
  have hok : (thirdAdmission (some 5)).1 = .ok
      ⟨⟨3, "client", "node", 0, 0, 0, 0, .active, 0, some 5⟩, []⟩ := by decide
  refine ⟨(admission_isolates_iff peerSet_sound ⟨10, "node"⟩ (openEnv (some 5)) (.handshake 0)
    thirdRequest trivial (Prod.ext hok rfl)).2 (.inl ?_), by decide⟩
  decide

/-- **A node session cuts off the account's subscription session**: session 3 belongs
to no subscription, so the query for the account's earlier peers has no condition on
it, and the peer of session 1, of subscription 5, goes too. -/
theorem node_session_evicts_subscription_peer :
    (thirdAdmission none).1 = .ok ⟨⟨3, "client", "node", 0, 0, 0, 0, .active, 0, none⟩, []⟩ ∧
      Key.of [1] ∈ twoSessions.registered ∧ Key.of [1] ∉ (thirdAdmission none).2.registered ∧
      ¬ Isolates thirdRequest 0 twoSessions (thirdAdmission none).2 := by
  have hgone : Key.of [1] ∉ (thirdAdmission none).2.registered := by decide
  refine ⟨by decide, by decide, hgone, fun h => hgone ?_⟩
  exact (h.others { id := 1, subscription := 5, key := Key.of [1], address := "client" } (by decide)
    (by decide)).2 (by decide)

/-! ## What a failed admission leaves -/

/-- **What a failed admission may cost.**  The table is as it was and no peer is new.
Up to the eviction nothing has changed; after that, the account's earlier peers may
be gone: those on the rows the query selects.  The only other peer that can go is
the requested one, if it was registered without a row. -/
theorem failed_admission_keeps (hS : S.Sound) (cfg : Config) {env : Env S}
    (hroll : env.RollbackSucceeds) (i : Actor) (req : AdmitRequest) {s s' : Node S} {e : ApiError}
    (hwf : S.wf s.svc) (herr : (admitSession cfg req).run (machine env) i s = (.error e, s')) :
    s'.table = s.table ∧ s'.registered ⊆ s.registered ∧
    (e.code ≠ 9 → e.code ≠ 10 → s'.registered = s.registered) ∧
    ∀ k ∈ s.registered, k ∉ s'.registered →
      (k = req.peerKey ∧ k ∉ s.table.keys) ∨
      ∃ a, admissionAt cfg env i req s = .ok a ∧ ∃ r ∈ s.table.rows, r.key = k ∧
        r.address = req.accAddress ∧ (a.subscriptionID = 0 ∨ r.subscription = a.subscriptionID) := by
  rcases admitSession_cases hS cfg env i req hwf herr with
    ⟨e', he, -, hquiet⟩ | ⟨a, ha, -, hvacant, hend⟩
  · have hreg := hquiet.registered
    exact ⟨hquiet.table, hreg.le, fun _ _ => hreg, fun k hk hk' => absurd (hreg ▸ hk) hk'⟩
  -- a peer that is dropped is on a row of the account
  have hdropped : ∀ k ∈ keysOf (s.table.find (accountRows req a)), ∃ r ∈ s.table.rows, r.key = k ∧
      r.address = req.accAddress ∧ (a.subscriptionID = 0 ∨ r.subscription = a.subscriptionID) := by
    intro k hk
    simp only [keysOf, List.mem_toFinset, List.mem_map, Table.mem_find, accountRows_satisfies] at hk
    obtain ⟨r, ⟨hr, hsub, hacc⟩, hkey⟩ := hk
    exact ⟨r, hr, hkey, hacc, hsub⟩
  cases hend with
  | refused n hcode htable hpeers =>
      refine ⟨htable, hpeers.le.trans Finset.sdiff_subset,
        fun h9 h10 => absurd hcode (not_or.2 ⟨h9, h10⟩), fun k hk hk' => .inr ⟨a, ha, hdropped k ?_⟩⟩
      rw [show s'.registered = _ from hpeers, Finset.mem_sdiff, not_and, not_not] at hk'
      exact keysOf_take_subset _ n (hk' hk)
  | rolledBack hcode htable hbound hothers hgone =>
      refine ⟨htable, fun k hk => ?_, fun _ h10 => absurd hcode h10, fun k hk hk' => ?_⟩
      · rcases Finset.mem_insert.1 (hbound hk) with rfl | hk
        · by_contra hnew
          exact hgone hroll hnew hk
        · exact (Finset.mem_sdiff.1 hk).1
      · by_cases hkey : k = req.peerKey
        · refine .inl ⟨hkey, fun hmem => ?_⟩
          obtain ⟨r, hr, hrk⟩ := Table.mem_keys.1 hmem
          exact hvacant r hr (hrk.trans hkey)
        · refine .inr ⟨a, ha, hdropped k ?_⟩
          by_contra hnot
          exact hk' (hothers (Finset.mem_erase.2 ⟨hkey, Finset.mem_sdiff.2 ⟨hk, hnot⟩⟩))

/-- The service has no room: adding a peer fails, and every other call succeeds. -/
def fullEnv : Env peerSet :=
  { openEnv (some 5) with
    control := fun _ site => if site = .admission then Outcome.failed else Outcome.ok }

theorem fullEnv_rollback : fullEnv.RollbackSucceeds := fun _ _ _ _ => rfl

/-- The third session is asked for, and cannot be added. -/
def failedAdmission : Except ApiError AdmitResult × Node peerSet :=
  (admitSession ⟨10, "node"⟩ thirdRequest).run (machine fullEnv) (.handshake 0) twoSessions

/-- **A failed admission costs the account its peer**: the earlier peer of the
subscription is dropped, `AddPeer` fails, and nothing brings the peer back. -/
theorem failed_admission_costs_peer :
    failedAdmission.1 = .error ⟨500, 10, .internal (.external "add peer")⟩ ∧
      fullEnv.RollbackSucceeds ∧ twoSessions.registered = {Key.of [1], Key.of [2]} ∧
      failedAdmission.2.registered = {Key.of [2]} :=
  ⟨by decide, fullEnv_rollback, by decide, by decide⟩

/-- In that run the table is as it was, and the node session keeps its peer. -/
theorem failed_admission_keeps_others :
    failedAdmission.2.table = twoSessions.table ∧ failedAdmission.2.registered ⊆ twoSessions.registered ∧
      Key.of [2] ∈ failedAdmission.2.registered := by
  have herr : failedAdmission.1 = .error ⟨500, 10, .internal (.external "add peer")⟩ := by decide
  obtain ⟨htable, hsub, -, -⟩ := failed_admission_keeps peerSet_sound ⟨10, "node"⟩
    fullEnv_rollback (.handshake 0) thirdRequest (s := twoSessions) trivial (Prod.ext herr rfl)
  exact ⟨htable, hsub, by decide⟩

end Dvpnd
