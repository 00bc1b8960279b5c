import Dvpnd.Node.Interleaving

/-!
# A handshake among other threads

The locked part of `admit` checks the capacity again, evicts, adds the peer and
writes its row.  Between the last two the peer has no row, which is the one
moment the invariant does not hold; the lock hides it, and a failed insert takes
the peer out again.

* `Vacant` — what the locked check establishes: room for one more peer, and no
  row under this session or this key.
* `Pending` — the invariant but for the row still to be written.
* `admitSession_safe` — a handshake keeps its side of the contract.
-/

namespace Dvpnd

open Effect

variable {S : Service} {m : Nat} {s s' : Node S} {req : AdmitRequest} {T : Table}
  {G : Finset Key}

/-- There is room for one more peer, and the session and the key are new. -/
structure Vacant (m : Nat) (req : AdmitRequest) (T : Table) (G : Finset Key) : Prop where
  room : G.card < m
  id : ∀ r ∈ T.rows, r.id ≠ req.id
  key : ∀ r ∈ T.rows, r.key ≠ req.peerKey

/-- The invariant, but for the row of the peer just added. -/
structure Pending (m : Nat) (req : AdmitRequest) (T : Table) (s : Node S) : Prop where
  table : s.table = T
  mem : req.peerKey ∈ s.registered
  rows : s.registered ⊆ insert req.peerKey T.keys
  room : s.registered.card ≤ m
  wf : S.wf s.svc
  uncut : s.uncut ⊆ s.registered

theorem Pending.quiet (hq : Quiet s s') (h : Pending m req T s) : Pending m req T s' := by
  refine ⟨hq.table.trans h.table, ?_, ?_, ?_, ?_, ?_⟩
  · rw [hq.registered]; exact h.mem
  · rw [hq.registered]; exact h.rows
  · rw [hq.registered]; exact h.room
  · rw [hq.svc]; exact h.wf
  · rw [hq.uncut, hq.registered]; exact h.uncut

/-! ## The three writes of the locked part -/

/-- A key without a row is not registered. -/
theorem Under.not_registered (h : Under m T G s) (hv : Vacant m req T G) :
    req.peerKey ∉ s.registered := by
  intro hmem
  obtain ⟨r, hr, hkey⟩ := Table.mem_keys.1 (h.table ▸ h.admitted.rows hmem)
  exact hv.key r hr hkey

/-- An `AddPeer` that fails changes nothing that matters. -/
theorem Under.addPeer_error (hS : S.Lawful) (env : Env S) (h : Under m T G s)
    (hv : Vacant m req T G) {e : String} (he : (execAddPeer env req.peerData s).1 = .error e) :
    Admitted m (execAddPeer env req.peerData s).2 := by
  have hwf := hS.wf_addPeer (c := env.control s.clock .admission) h.admitted.wf
    (h.not_registered hv)
  rcases execAddPeer_cases env req.peerData s with ⟨e', hr, hx⟩ | ⟨p, -, hx⟩
  · have hreg := hS.addPeer_error hr
    rw [hx]
    refine ⟨?_, ?_, hwf, ?_⟩
    · show S.registered _ ⊆ _
      rw [hreg]; exact h.admitted.rows
    · show (S.registered _).card ≤ m
      rw [hreg]; exact h.admitted.room
    · show s.uncut ⊆ S.registered _
      rw [hreg]; exact h.admitted.uncut
  · rw [hx] at he
    cases he

/-- An `AddPeer` that succeeds leaves only the row to be written. -/
theorem Under.addPeer_ok (hS : S.Lawful) (env : Env S) (h : Under m T G s)
    (hv : Vacant m req T G) {p : List UInt8}
    (hp : (execAddPeer env req.peerData s).1 = .ok p) :
    Pending m req T (execAddPeer env req.peerData s).2 := by
  have hwf := hS.wf_addPeer (c := env.control s.clock .admission) h.admitted.wf
    (h.not_registered hv)
  rcases execAddPeer_cases env req.peerData s with ⟨e, -, hx⟩ | ⟨p', hr, hx⟩
  · rw [hx] at hp
    cases hp
  · have hreg := hS.addPeer_ok hr
    rw [hx]
    refine ⟨h.table, ?_, ?_, ?_, hwf, ?_⟩
    · show req.peerKey ∈ S.registered _
      rw [hreg]
      exact Finset.mem_insert_self _ _
    · show S.registered _ ⊆ _
      rw [hreg]
      exact Finset.insert_subset_insert _ (h.table ▸ h.admitted.rows)
    · show (S.registered _).card ≤ m
      rw [hreg]
      have hins := Finset.card_insert_le (Key.of req.peerData) (S.registered s.svc)
      have hbound : (S.registered s.svc).card ≤ G.card := Finset.card_le_card h.bound
      have hroom := hv.room
      omega
    · show insert (Key.of req.peerData) s.uncut ⊆ S.registered _
      rw [hreg]
      exact Finset.insert_subset_insert _ h.admitted.uncut

/-- The insert restores the invariant, or changes nothing. -/
theorem Pending.create (env : Env S) (row : Session) (hkey : row.key = req.peerKey)
    (h : Pending m req T s) :
    RowsPersist s (execCreate env row s).2 ∧
    ((execCreate env row s).1 = none → Admitted m (execCreate env row s).2) ∧
    ((execCreate env row s).1 ≠ none → Pending m req T (execCreate env row s).2) := by
  rcases execCreate_cases env row s with ⟨e, he⟩ | ⟨t, ht, he⟩
  · rw [he]
    exact ⟨RowsPersist.of_table rfl, fun hn => absurd hn (by simp), fun _ => h.quiet s.tick_quiet⟩
  · rw [he]
    have hrows := Table.create_rows ht
    refine ⟨fun r hr => ⟨r, ?_, rfl, rfl⟩, fun _ => ⟨fun k hk => ?_, h.room, h.wf, h.uncut⟩,
      fun hn => absurd rfl hn⟩
    · show r ∈ t.rows
      rw [hrows]
      exact List.mem_append_left _ hr
    · refine Table.mem_keys.2 ?_
      show ∃ r ∈ t.rows, r.key = k
      rw [hrows]
      rcases Finset.mem_insert.1 (h.rows hk) with rfl | hold
      · exact ⟨_, List.mem_append_right _ (List.mem_singleton.2 rfl), hkey⟩
      · obtain ⟨r, hr, hrk⟩ := Table.mem_keys.1 hold
        exact ⟨r, List.mem_append_left _ (h.table ▸ hr), hrk⟩

/-- Taking the peer out again restores the invariant. -/
theorem Pending.rollback (hS : S.Lawful) (env : Env S) (h : Pending m req T s)
    (hok : (S.removePeer req.peerData (env.control s.clock .rollback) s.svc).1 = none) :
    Admitted m (execRemovePeer env .rollback req.peerData s).2 := by
  have hreg : (execRemovePeer env .rollback req.peerData s).2.registered =
      s.registered.erase req.peerKey := hS.removePeer_ok h.wf hok
  refine ⟨?_, ?_, hS.wf_removePeer h.wf, ?_⟩
  · rw [hreg]
    show s.registered.erase req.peerKey ⊆ s.table.keys
    rw [h.table]
    exact Finset.subset_insert_iff.1 h.rows
  · rw [hreg]
    exact (Finset.card_le_card (Finset.erase_subset _ _)).trans h.room
  · rw [hreg]
    show (if S.cutOff req.peerData (env.control s.clock .rollback) s.svc then
      s.uncut.erase (Key.of req.peerData) else s.uncut) ⊆ _
    rw [if_pos (hS.cuts hok)]
    exact Finset.erase_subset_erase _ h.uncut

/-! ## The locked part -/

/-- The removal `admit` makes after a failed insert succeeds: a registered peer,
asked for there, always comes out. -/
def Env.RollbackSucceeds (env : Env S) : Prop :=
  ∀ t d svc, Key.of d ∈ S.registered svc → (S.removePeer d (env.control t .rollback) svc).1 = none

/-- What a thread ends a critical section with. -/
def Closed (m : Nat) {α : Type} (_ : α) (b : Bool) (t : Node S) : Prop := b = true ∧ Admitted m t

variable (env : Env S) {i : Actor}

/-- `AddPeer`, the insert and, when that fails, the removal. -/
theorem addAndRecord_safe (hS : S.Lawful)
    (hroll : env.RollbackSucceeds)
    {a : Admission} {available : Int64} (h : Under m T G s) (hv : Vacant m req T G) :
    Safe (machine env) (admissionContract m) i (Closed m)
      (addAndRecord req a available) true s := by
  refine Safe.perform_bind fun s₁ hq₁ _ => ⟨fun _ => RowsPersist.of_table ?_, ?_⟩
  · exact Op.KeepsTable.table (o := .addPeer req.peerData) env trivial s₁
  have h₁ := h.quiet hq₁
  cases hadd : ((machine env).exec (.addPeer req.peerData) s₁).1 with
  | error e => exact fun t ht => ⟨rfl, (h₁.addPeer_error hS env hv hadd).quiet ht⟩
  | ok peer =>
      have hp := h₁.addPeer_ok hS env hv hadd
      refine Safe.perform_bind fun s₂ hq₂ _ => ?_
      obtain ⟨hrows, hnone, hsome⟩ := (hp.quiet hq₂).create env
        (admittedRow req a available) rfl
      refine ⟨fun _ => hrows, ?_⟩
      cases hc : ((machine env).exec (.create (admittedRow req a available)) s₂).1 with
      | none => exact fun t ht => ⟨rfl, (hnone hc).quiet ht⟩
      | some e =>
          refine Safe.perform_bind fun s₃ hq₃ _ => ⟨fun _ => RowsPersist.of_table rfl, ?_⟩
          intro t ht
          have hpend := (hsome fun hn => by cases hc.symm.trans hn).quiet hq₃
          exact ⟨rfl, (hpend.rollback hS env (hroll _ _ _ hpend.mem)).quiet ht⟩

/-- The eviction loop only removes peers. -/
theorem evict_safe (hS : S.Lawful) (items : List Session) : ∀ {s : Node S}, Under m T G s →
    Safe (machine env) (admissionContract m) i (fun _ b t => b = true ∧ Under m T G t)
      (evict items) true s := by
  induction items with
  | nil => exact fun h t ht => ⟨rfl, h.quiet ht⟩
  | cons item rest ih =>
      intro s h
      refine Safe.bind (Safe.mono ?_ (removePeerIfExists_safe hS env .eviction item.key h))
        (admissionContract_fits env)
      rintro r b t ⟨rfl, ht, -⟩
      cases r with
      | none => exact ih ht
      | some e => exact fun t' ht' => ⟨rfl, ht.quiet ht'⟩

/-- Reads under the lock change nothing the thread knows. -/
theorem lockedReads_safe {α : Type} {p : NodeM α} (hp : Prog.Plain Op.IsRead p)
    (h : Under m T G s) :
    Safe (machine env) (admissionContract m) i (fun _ b t => b = true ∧ Under m T G t) p true s := by
  refine Safe.of_plain (A := Under m T G) (P := Op.IsRead) (R := fun _ => True) ?_ ?_ ?_ hp
    (Prog.Yields.of_forall (fun _ => trivial) _) h
  · exact fun _ _ hq ht => Under.quiet hq ht
  · intro o t ho _ ht
    have hq := ho.quiet env t
    exact ⟨fun _ => RowsPersist.of_table hq.table, ht.quiet hq⟩
  · exact fun _ _ _ ht => ⟨rfl, ht⟩

/-- `sessionExists` answers no only when the table has no such row. -/
theorem sessionExists_safe (cond : Session) (h : Under m T G s) :
    Safe (machine env) (admissionContract m) i
      (fun r b t => b = true ∧ Under m T G t ∧ (r = .ok false → T.find cond = []))
      (sessionExists cond) true s := by
  refine Safe.perform_bind fun s₁ hq₁ _ => ⟨fun _ => RowsPersist.of_table rfl, ?_⟩
  have h₁ : Under m T G s₁.tick := (h.quiet hq₁).quiet s₁.tick_quiet
  cases hc : ((machine env).exec (.count cond) s₁).1 with
  | error e => exact fun t ht => ⟨rfl, h₁.quiet ht, fun hr => by cases hr⟩
  | ok n =>
      refine fun t ht => ⟨rfl, h₁.quiet ht, fun hr => ?_⟩
      have hn : n = 0 := by simpa using hr
      rw [← (h.quiet hq₁).table]
      exact List.eq_nil_of_length_eq_zero ((count_ok hc).trans hn)

/-- **The locked capacity check**: it passes only when there is room and neither
the session nor the key has a row. -/
theorem checkCapacity_safe (hS : S.Lawful) (cfg : Config)
    (h : Under cfg.maxPeers T s.registered s) :
    Safe (machine env) (admissionContract cfg.maxPeers) i
      (fun r b t => b = true ∧ Under cfg.maxPeers T s.registered t ∧
        (r = none → Vacant cfg.maxPeers req T s.registered)) (checkCapacity cfg req) true s := by
  refine Safe.perform_bind fun s₁ hq₁ _ => ⟨fun _ => RowsPersist.of_table rfl, ?_⟩
  have h₁ := h.quiet hq₁
  have hcount : S.peerCount s₁.svc = s.registered.card := by
    rw [hS.peerCount_eq h₁.admitted.wf]
    exact congrArg Finset.card (Quiet.registered hq₁)
  show Safe _ _ _ _ (if cfg.maxPeers ≤ S.peerCount s₁.svc then _ else _) true s₁.tick
  split
  · exact fun t ht => ⟨rfl, (h₁.quiet s₁.tick_quiet).quiet ht, fun hr => by cases hr⟩
  · rename_i hroom
    rw [hcount, Nat.not_le] at hroom
    refine Safe.bind (Safe.mono ?_ (sessionExists_safe env { id := req.id }
      (h₁.quiet s₁.tick_quiet))) (admissionContract_fits env)
    rintro r b t ⟨rfl, ht, hid⟩
    rcases r with e | (_ | _)
    · exact fun t' ht' => ⟨rfl, ht.quiet ht', fun hr => by cases hr⟩
    · refine Safe.bind (Safe.mono ?_ (sessionExists_safe env { key := req.peerKey } ht))
        (admissionContract_fits env)
      rintro r b t' ⟨rfl, ht', hkey⟩
      rcases r with e | (_ | _)
      · exact fun t'' hq => ⟨rfl, ht'.quiet hq, fun hr => by cases hr⟩
      · refine fun t'' hq => ⟨rfl, ht'.quiet hq, fun _ => ⟨hroom, fun r hr he => ?_, fun r hr he => ?_⟩⟩
        · exact List.not_mem_nil (hid rfl ▸ Table.mem_find.2 ⟨hr, Session.satisfies_id.2 (.inr he)⟩)
        · exact List.not_mem_nil
            (hkey rfl ▸ Table.mem_find.2 ⟨hr, Session.satisfies_key.2 (.inr he)⟩)
      · exact fun t'' hq => ⟨rfl, ht'.quiet hq, fun hr => by cases hr⟩
    · exact fun t' ht' => ⟨rfl, ht.quiet ht', fun hr => by cases hr⟩

theorem remainingBytes_plain (req : AdmitRequest) (a : Admission) :
    Prog.Plain Op.IsRead (remainingBytes req a) := by
  unfold remainingBytes
  split
  · exact .ret _
  · refine .perform_bind trivial fun r => ?_
    cases r with
    | error e => exact .ret _
    | ok items =>
        dsimp only
        split
        · exact .ret _
        · split
          · exact .ret _
          · exact .ret _

theorem evictAndAdd_safe (hS : S.Lawful) (hroll : env.RollbackSucceeds) {a : Admission}
    {available : Int64} (h : Under m T G s) (hv : Vacant m req T G) :
    Safe (machine env) (admissionContract m) i (Closed m) (evictAndAdd req a available) true s := by
  refine Safe.perform_bind fun s₁ hq₁ _ => ⟨fun _ => RowsPersist.of_table rfl, ?_⟩
  have h₁ : Under m T G s₁.tick := (h.quiet hq₁).quiet s₁.tick_quiet
  cases ((machine env).exec (.find (accountRows req a) none) s₁).1 with
  | error e => exact fun t ht => ⟨rfl, (h₁.quiet ht).admitted⟩
  | ok items =>
      refine Safe.bind (Safe.mono ?_ (evict_safe env hS items h₁)) (admissionContract_fits env)
      rintro r b t ⟨rfl, ht⟩
      cases r with
      | some e => exact fun t' ht' => ⟨rfl, (ht.quiet ht').admitted⟩
      | none => exact addAndRecord_safe env hS hroll ht hv

/-- The locked part of `admit` starts and ends in the invariant. -/
theorem admitLocked_safe (hS : S.Lawful) (cfg : Config) (hroll : env.RollbackSucceeds)
    {a : Admission} (h : Admitted cfg.maxPeers s) :
    Safe (machine env) (admissionContract cfg.maxPeers) i (Closed cfg.maxPeers)
      (admitLocked cfg req a) true s := by
  have hu : Under cfg.maxPeers s.table s.registered s := ⟨h, rfl, Finset.Subset.refl _⟩
  refine Safe.bind (Safe.mono ?_ (checkCapacity_safe env hS cfg hu)) (admissionContract_fits env)
  rintro r b t ⟨rfl, ht, hvacant⟩
  cases r with
  | some e => exact fun t' ht' => ⟨rfl, (ht.quiet ht').admitted⟩
  | none =>
      refine Safe.bind (Safe.mono ?_ (lockedReads_safe env (remainingBytes_plain req a) ht))
        (admissionContract_fits env)
      rintro r b t' ⟨rfl, ht'⟩
      cases r with
      | error e => exact fun t'' hq => ⟨rfl, (ht'.quiet hq).admitted⟩
      | ok available => exact evictAndAdd_safe env hS hroll ht' (hvacant rfl)

/-! ## The whole handshake -/

theorem sessionExists_plain (cond : Session) : Prog.Plain Op.IsRead (sessionExists cond) := by
  refine .perform_bind trivial fun r => ?_
  cases r with
  | error e => exact .ret _
  | ok n => exact .ret _

theorem checkCapacity_plain (cfg : Config) (req : AdmitRequest) :
    Prog.Plain Op.IsRead (checkCapacity cfg req) := by
  refine .perform_bind trivial fun n => ?_
  split
  · exact .ret _
  · refine (sessionExists_plain _).bind fun r => ?_
    rcases r with e | (_ | _)
    · exact .ret _
    · refine (sessionExists_plain _).bind fun r => ?_
      rcases r with e | (_ | _) <;> exact .ret _
    · exact .ret _

theorem queryPlan_plain (req : AdmitRequest) (a : Admission) (id : Nat) :
    Prog.Plain Op.IsRead (queryPlan req a id) := by
  refine .perform_bind trivial fun r => ?_
  rcases r with e | (_ | subscription)
  · exact .ret _
  · exact .ret _
  · dsimp only
    split
    · exact .ret _
    · refine .perform_bind trivial fun r => ?_
      rcases r with e | (_ | alloc) <;> exact .ret _

theorem queryAdmission_plain (cfg : Config) (req : AdmitRequest) :
    Prog.Plain Op.IsRead (queryAdmission cfg req) := by
  refine .perform_bind trivial fun r => ?_
  rcases r with e | (_ | session)
  · exact .ret _
  · exact .ret _
  · dsimp only
    split
    · exact .ret _
    · split
      · exact .ret _
      · split
        · exact .ret _
        · split
          · exact .ret _
          · split
            · exact .ret _
            · exact queryPlan_plain req _ _

/-- **A handshake is safe** among any other threads: what it does before the lock
only reads, and the locked part keeps the invariant. -/
theorem admitSession_safe (hS : S.Lawful) (cfg : Config) (hroll : env.RollbackSucceeds) (n : Nat)
    (req : AdmitRequest) (s : Node S) :
    Safe (machine env) (admissionContract cfg.maxPeers) (.handshake n) (fun _ b _ => b = false)
      (admitSession cfg req) false s := by
  have hreads : ∀ {α : Type} {p : NodeM α} {t : Node S}, Prog.Plain Op.IsRead p →
      Safe (machine env) (admissionContract cfg.maxPeers) (.handshake n)
        (fun _ b t => b = false ∧ True ∧ True) p false t := fun hp =>
    reads_safe env (A := fun _ => True) (R := fun _ => True) (fun _ h => h) (fun _ h => h) hp
      (Prog.Yields.of_forall (fun _ => trivial) _) trivial
  refine Safe.bind (Safe.mono ?_ (hreads (checkCapacity_plain cfg req)))
    (admissionContract_fits env)
  rintro r b t ⟨rfl, -, -⟩
  cases r with
  | some e => exact fun _ _ => rfl
  | none =>
      refine Safe.bind (Safe.mono ?_ (hreads (queryAdmission_plain cfg req)))
        (admissionContract_fits env)
      rintro r b t' ⟨rfl, -, -⟩
      cases r with
      | error e => exact fun _ _ => rfl
      | ok a =>
          refine Safe.withLock (admissionContract_fits env) (fun s₁ _ hinv => ?_)
            (fun _ _ hq ht => Admitted.quiet hq ht)
            (fun hq _ => RowsPersist.of_table (Quiet.table hq))
          refine Safe.mono ?_ (admitLocked_safe env hS cfg hroll
            (Admitted.quiet (acquire_quiet env _ _) hinv))
          exact fun _ _ _ hc => ⟨hc.1, hc.2, fun _ _ => rfl⟩

end Dvpnd
