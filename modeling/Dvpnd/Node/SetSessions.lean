import Dvpnd.Context

/-!
# The `set_sessions` pass

`setSessions` (`node/jobs.go`) stores what each peer has used and removes the
peers that have no session or have used up their allocation.

* `setSession_turn` — what one turn of the loop does to the rows and the peers.
* `setEach_spec` — what a pass leaves of each row and its peer.
* `setSessions_metered_iff` — **exactly when a pass meters its peers**.  The loop
  takes a peer whose upload has not moved for idle, so one that only downloads
  is neither stored nor held to its cap (`download_only_unmetered`).
-/

namespace Dvpnd

open Effect

/-- `reportedUsage`: the session totals to store, and whether the peer has moved
anything since they were last stored. -/
def reportedUsage (item : Session) (peer : Peer) : Int64 × Int64 × Bool :=
  let upload := item.baseUpload + peer.upload
  let download := item.baseDownload + peer.download
  (upload, download, upload != item.upload)

/-- Remove the peer when it has used more than its row allows. -/
def enforceCap (item : Session) (peer : Peer) : NodeM (List Err) :=
  let available := item.available.toInt
  let consumed := (peer.upload + peer.download).toInt
  if 0 < available ∧ available < consumed then do
    match ← removePeer .exceeded item.key with
    | some e => return [e]
    | none => return []
  else return []

/-- Store a peer's usage in its row, unless it has not moved, and enforce the
cap. -/
def storeUsage (item : Session) (peer : Peer) : NodeM (List Err) :=
  let (upload, download, moved) := reportedUsage item peer
  if !moved then return []
  else do
    let stored ← call (.updates { id := item.id } upload download)
    let capped ← enforceCap item peer
    return stored.toList ++ capped

/-- One turn of the loop of `setSessions`: the errors it adds. -/
def setSession (peer : Peer) : NodeM (List Err) := do
  match ← call (.find { key := peer.key } (some 1)) with
  | .error e => return [e]
  | .ok [] => do
      match ← removePeer .unknown peer.key with
      | some e => return [e]
      | none => return []
  | .ok (item :: _) => storeUsage item peer

/-- The loop of `setSessions`. -/
def setEach : List Peer → NodeM (List Err)
  | [] => return []
  | peer :: rest => do
      let errs ← setSession peer
      let more ← setEach rest
      return errs ++ more

/-- `setSessions`: the errors it joins, none of them being success. -/
def setSessions : NodeM (List Err) := do
  match ← call .peers with
  | .error e => return [.external e]
  | .ok peers => Prog.withLock (setEach peers)

/-! ## The calls of the pass -/

theorem enforceCap_plain (item : Session) (peer : Peer) :
    Prog.Plain Op.KeepsRows (enforceCap item peer) := by
  unfold enforceCap
  dsimp only
  split
  · refine (removePeer_plain (fun _ => trivial) _).bind fun r => ?_
    cases r with
    | none => exact .ret _
    | some e => exact .ret _
  · exact .ret _

theorem storeUsage_plain (item : Session) (peer : Peer) :
    Prog.Plain Op.KeepsRows (storeUsage item peer) := by
  unfold storeUsage
  dsimp only [reportedUsage]
  split
  · exact .ret _
  · exact .perform_bind trivial fun _ => (enforceCap_plain item peer).bind fun _ => .ret _

theorem setSession_plain (peer : Peer) : Prog.Plain Op.KeepsRows (setSession peer) := by
  refine .perform_bind trivial fun r => ?_
  rcases r with e | (_ | ⟨item, _⟩)
  · exact .ret _
  · refine (removePeer_plain (fun _ => trivial) _).bind fun r => ?_
    cases r with
    | none => exact .ret _
    | some e => exact .ret _
  · exact storeUsage_plain item peer

theorem setEach_plain (peers : List Peer) : Prog.Plain Op.KeepsRows (setEach peers) := by
  induction peers with
  | nil => exact .ret _
  | cons peer rest ih => exact (setSession_plain peer).bind fun _ => ih.bind fun _ => .ret _

/-! ## What one turn of the loop does -/

/-- The peer has sent something since its row was last written: the test
`reportedUsage` makes, on the upload alone. -/
def moved (item : Session) (peer : Peer) : Prop := item.baseUpload + peer.upload ≠ item.upload

/-- The test `enforceCap` makes; the sum of the counters is an `int64`. -/
def exceeds (item : Session) (peer : Peer) : Prop :=
  0 < item.available.toInt ∧ item.available.toInt < (peer.upload + peer.download).toInt

instance (item : Session) (peer : Peer) : Decidable (moved item peer) :=
  inferInstanceAs (Decidable (_ ≠ _))

instance (item : Session) (peer : Peer) : Decidable (exceeds item peer) :=
  inferInstanceAs (Decidable (_ ∧ _))

/-- The row with the peer's totals in it. -/
def withTotals (item : Session) (peer : Peer) (now : Int) : Session :=
  { item with
    upload := item.baseUpload + peer.upload
    download := item.baseDownload + peer.download
    updatedAt := now }

variable {S : Service}

/-- The row of a listed peer is the one its query finds. -/
theorem find_key {T : Table} {peer : Peer} {r : Session} (hr : r ∈ T.rows)
    (hk : r.key = peer.key) : ∃ rest, T.find { key := peer.key } = r :: rest := by
  have hmem : r ∈ T.find { key := peer.key } :=
    Table.mem_find.2 ⟨hr, Session.satisfies_key.2 (.inr hk)⟩
  cases hf : T.find { key := peer.key } with
  | nil => rw [hf] at hmem; cases hmem
  | cons r' rest =>
      have hr' : r' ∈ T.find { key := peer.key } := by rw [hf]; exact List.mem_cons_self ..
      obtain ⟨hrow, hsat⟩ := Table.mem_find.1 hr'
      rcases Session.satisfies_key.1 hsat with h0 | hk'
      · exact absurd h0 peer.key_ne
      · exact ⟨rest, by rw [Table.eq_of_key hrow hr (hk'.trans hk.symm)]⟩

/-- A removal without error takes out its peer and nothing else. -/
theorem run_removePeer_ok (hS : S.Sound) (env : Env S) (i : Actor) (site : CallSite) (key : Key)
    {s : Node S} (hwf : S.wf s.svc) (h : ((removePeer site key).run (machine env) i s).1 = none) :
    ((removePeer site key).run (machine env) i s).2.table = s.table ∧
    ((removePeer site key).run (machine env) i s).2.registered = s.registered.erase key := by
  obtain ⟨data, -, rfl⟩ := key.decode
  rw [run_removePeer] at h ⊢
  have hok : (S.removePeer data (env.control s.clock site) s.svc).1 = none := by
    simpa [execRemovePeer] using h
  exact ⟨rfl, hS.removePeer_ok hwf hok⟩

theorem enforceCap_eq (item : Session) (peer : Peer) : enforceCap item peer =
    if exceeds item peer then do
      match ← removePeer .exceeded item.key with
      | some e => return [e]
      | none => return []
    else return [] := rfl

/-- `enforceCap` without error removes the peer exactly when it is over its cap. -/
theorem run_enforceCap (hS : S.Sound) (env : Env S) (i : Actor) (item : Session) (peer : Peer)
    {s : Node S} (hwf : S.wf s.svc) (h : ((enforceCap item peer).run (machine env) i s).1 = []) :
    ((enforceCap item peer).run (machine env) i s).2.table = s.table ∧
    ((enforceCap item peer).run (machine env) i s).2.registered =
      if exceeds item peer then s.registered.erase item.key else s.registered := by
  rw [enforceCap_eq] at h ⊢
  by_cases hex : exceeds item peer
  · rw [if_pos hex] at h ⊢
    rw [Prog.run_bind] at h ⊢
    rw [if_pos hex]
    cases hr : ((removePeer .exceeded item.key).run (machine env) i s).1 with
    | some e => rw [hr] at h; cases h
    | none => exact run_removePeer_ok hS env i .exceeded item.key hwf hr
  · rw [if_neg hex, if_neg hex]
    exact ⟨rfl, rfl⟩

theorem storeUsage_eq (item : Session) (peer : Peer) : storeUsage item peer =
    if moved item peer then do
      let stored ← call (.updates { id := item.id } (item.baseUpload + peer.upload)
        (item.baseDownload + peer.download))
      let capped ← enforceCap item peer
      return stored.toList ++ capped
    else return [] := by
  unfold storeUsage
  dsimp only [reportedUsage]
  by_cases h : moved item peer
  · rw [if_pos h, if_neg (by simpa [moved] using h)]
  · rw [if_neg h, if_pos (by simpa [moved] using h)]

/-- An update without error writes the rows its condition selects, and had one. -/
theorem execUpdates_ok {env : Env S} {cond : Session} {up down : Int64} {s : Node S}
    (h : (execUpdates env cond up down s).1 = none) :
    cond.isZero = false ∧
    (execUpdates env cond up down s).2.table =
      s.table.setUsage cond up down (env.now s.clock) ∧
    (execUpdates env cond up down s).2.svc = s.svc := by
  rcases execUpdates_cases env cond up down s with ⟨e, he⟩ | ⟨hz, he⟩
  · rw [he] at h
    cases h
  · rw [he]
    exact ⟨hz, rfl, rfl⟩

/-- Writing one row's totals leaves every other row as it was. -/
theorem mem_setUsage_id {T : Table} {item r : Session} (peer : Peer) (now : Int)
    (hitem : item ∈ T.rows) (hid : item.id ≠ 0) (hr : r ∈ T.rows) :
    (if r = item then withTotals item peer now else r) ∈
      (T.setUsage { id := item.id } (item.baseUpload + peer.upload)
        (item.baseDownload + peer.download) now).rows := by
  refine List.mem_map.2 ⟨r, hr, ?_⟩
  by_cases h : r = item
  · subst h
    rw [if_pos rfl, if_pos (Session.satisfies_id.2 (.inr rfl))]
    rfl
  · rw [if_neg h, if_neg]
    intro hsat
    rcases Session.satisfies_id.1 hsat with h0 | heq
    · exact hid h0
    · exact h (Table.eq_of_id hr hitem heq)

/-- What a turn without error does to the row it found: the totals are written
and the cap enforced when the upload has moved, and nothing happens otherwise. -/
theorem run_storeUsage (hS : S.Sound) (env : Env S) (i : Actor) {item : Session} (peer : Peer)
    {s : Node S} (hwf : S.wf s.svc) (hitem : item ∈ s.table.rows)
    (h : ((storeUsage item peer).run (machine env) i s).1 = []) :
    (∃ now, ∀ r ∈ s.table.rows, (if r = item ∧ moved item peer then withTotals item peer now else r)
      ∈ ((storeUsage item peer).run (machine env) i s).2.table.rows) ∧
    ((storeUsage item peer).run (machine env) i s).2.registered =
      if moved item peer ∧ exceeds item peer then s.registered.erase item.key
      else s.registered := by
  rw [storeUsage_eq] at h ⊢
  by_cases hm : moved item peer
  · rw [if_pos hm] at h ⊢
    -- the update, then the cap from the state it leaves
    have hrun : ((execUpdates env { id := item.id } (item.baseUpload + peer.upload)
        (item.baseDownload + peer.download) s).1.toList ++ ((enforceCap item peer).run (machine env) i
          (execUpdates env { id := item.id } (item.baseUpload + peer.upload)
            (item.baseDownload + peer.download) s).2).1) = [] := by
      simpa [call, Prog.run_bind, machine, exec] using h
    obtain ⟨hup, hcap⟩ := List.append_eq_nil_iff.1 hrun
    obtain ⟨hz, htable, hsvc⟩ := execUpdates_ok (Option.toList_eq_nil_iff.1 hup)
    obtain ⟨hcapT, hcapR⟩ := run_enforceCap hS env i item peer (hsvc.symm ▸ hwf) hcap
    have hid : item.id ≠ 0 := fun h0 => by
      rw [Session.isZero_id.2 h0] at hz
      cases hz
    simp only [call, Prog.perform_bind, Prog.run_op, Prog.run_bind, Prog.pure_eq, Prog.run_ret]
    refine ⟨⟨env.now s.clock, fun r hr => ?_⟩, ?_⟩
    · simp only [hm, and_true]
      have hrow := mem_setUsage_id peer (env.now s.clock) hitem hid hr
      rw [← htable, ← hcapT] at hrow
      exact hrow
    · simp only [hm, true_and]
      refine hcapR.trans ?_
      unfold Node.registered
      rw [hsvc]
  · rw [if_neg hm]
    simp only [hm, and_false, false_and, if_false]
    exact ⟨⟨0, fun r hr => hr⟩, rfl⟩

/-- The row a pass leaves for a peer whose row was `r`. -/
def settledRow (r : Session) (peer : Peer) (now : Int) : Session :=
  if moved r peer then withTotals r peer now else r

/-- What one turn of the loop does, peer by peer and row by row. -/
structure Turn (peer : Peer) (s s' : Node S) : Prop where
  other_rows : ∀ r ∈ s.table.rows, r.key ≠ peer.key → r ∈ s'.table.rows
  other_peers : ∀ k, k ≠ peer.key → (k ∈ s'.registered ↔ k ∈ s.registered)
  own_row : ∀ r ∈ s.table.rows, r.key = peer.key → ∃ now, settledRow r peer now ∈ s'.table.rows
  own_peer : ∀ r ∈ s.table.rows, r.key = peer.key →
    (peer.key ∈ s'.registered ↔ peer.key ∈ s.registered ∧ ¬ (moved r peer ∧ exceeds r peer))

/-- A turn that found no row removes the peer. -/
theorem Turn.of_unknown {peer : Peer} {s s' : Node S} (hnone : s.table.find { key := peer.key } = [])
    (htable : s'.table = s.table) (hreg : s'.registered = s.registered.erase peer.key) :
    Turn peer s s' := by
  have habsurd : ∀ r ∈ s.table.rows, r.key ≠ peer.key := fun r hr hk => by
    obtain ⟨rest, hfind⟩ := find_key hr hk
    rw [hnone] at hfind
    cases hfind
  refine ⟨fun r hr _ => by rw [htable]; exact hr, fun k hk => ?_,
    fun r hr hk => absurd hk (habsurd r hr), fun r hr hk => absurd hk (habsurd r hr)⟩
  rw [hreg, Finset.mem_erase]
  exact ⟨And.right, fun hmem => ⟨hk, hmem⟩⟩

/-- A turn that found the peer's row stores its usage and enforces its cap. -/
theorem Turn.of_row (hS : S.Sound) (env : Env S) (i : Actor) {peer : Peer} {item : Session}
    {s t : Node S} (hwf : S.wf s.svc) (htable : t.table = s.table) (hsvc : t.svc = s.svc)
    (hitem : item ∈ s.table.rows) (hk : item.key = peer.key)
    (h : ((storeUsage item peer).run (machine env) i t).1 = []) :
    Turn peer s ((storeUsage item peer).run (machine env) i t).2 := by
  obtain ⟨⟨now, hrows⟩, hreg⟩ := run_storeUsage hS env i peer (hsvc.symm ▸ hwf) (htable ▸ hitem) h
  have hregt : t.registered = s.registered := by
    unfold Node.registered
    rw [hsvc]
  rw [hregt, hk] at hreg
  have heq : ∀ r ∈ s.table.rows, r.key = peer.key → r = item := fun r hr hrk =>
    Table.eq_of_key hr hitem (hrk.trans hk.symm)
  refine ⟨fun r hr hne => ?_, fun k hne => ?_, fun r hr hrk => ?_, fun r hr hrk => ?_⟩
  · have hrow := hrows r (htable ▸ hr)
    have hother : ¬ (r = item ∧ moved item peer) := fun hc => hne (by rw [hc.1]; exact hk)
    rwa [if_neg hother] at hrow
  · rw [hreg]
    split
    · rw [Finset.mem_erase]
      exact ⟨And.right, fun hmem => ⟨hne, hmem⟩⟩
    · exact Iff.rfl
  · have hri := heq r hr hrk
    subst hri
    refine ⟨now, ?_⟩
    have hrow := hrows r (htable ▸ hr)
    simpa only [true_and, settledRow] using hrow
  · have hri := heq r hr hrk
    subst hri
    rw [hreg]
    by_cases hc : moved r peer ∧ exceeds r peer
    · rw [if_pos hc]
      exact ⟨fun hmem => absurd hmem (Finset.notMem_erase _ _), fun hmem => absurd hc hmem.2⟩
    · rw [if_neg hc]
      exact ⟨fun hmem => ⟨hmem, hc⟩, And.left⟩

/-- **One turn of the loop**, when none of its calls fails. -/
theorem setSession_turn (hS : S.Sound) (env : Env S) (i : Actor) (peer : Peer) {s : Node S}
    (hwf : S.wf s.svc) (h : ((setSession peer).run (machine env) i s).1 = []) :
    Turn peer s ((setSession peer).run (machine env) i s).2 := by
  unfold setSession at h ⊢
  simp only [call, Prog.perform_bind, Prog.run_op] at h ⊢
  have hfind : ((machine env).exec (.find { key := peer.key } (some 1)) s).1 =
      dbRead env s ((s.table.find { key := peer.key }).take 1) := rfl
  have hstate : ((machine env).exec (.find { key := peer.key } (some 1)) s).2 = s.tick := rfl
  rw [hfind, hstate] at h ⊢
  unfold dbRead at h ⊢
  cases hdb : env.database s.clock with
  | some e => rw [hdb] at h; cases h
  | none =>
      rw [hdb] at h
      cases hf : s.table.find { key := peer.key } with
      | nil =>
          simp only [hf, List.take_nil, Prog.run_bind] at h ⊢
          cases hr : ((removePeer .unknown peer.key).run (machine env) i s.tick).1 with
          | some e => rw [hr] at h; cases h
          | none =>
              obtain ⟨htable, hreg⟩ := run_removePeer_ok hS env i .unknown peer.key (s := s.tick) hwf hr
              exact Turn.of_unknown hf htable hreg
      | cons item rest =>
          simp only [hf, List.take_succ_cons] at h ⊢
          have hmem : item ∈ s.table.find { key := peer.key } := by
            rw [hf]; exact List.mem_cons_self ..
          obtain ⟨hrow, hsat⟩ := Table.mem_find.1 hmem
          have hk : item.key = peer.key := (Session.satisfies_key.1 hsat).resolve_left peer.key_ne
          exact Turn.of_row hS env i hwf rfl rfl hrow hk h

/-! ## The whole pass -/

/-- The entries of the list for a key all carry the same counters. -/
def Consistent (peers : List Peer) (key : Key) : Prop :=
  ∀ p ∈ peers, ∀ q ∈ peers, p.key = key → q.key = key →
    p.upload = q.upload ∧ p.download = q.download

section SameCounters

variable {r : Session} {p q : Peer} (hup : p.upload = q.upload) (hdown : p.download = q.download)

include hup in
theorem moved_congr : moved r p ↔ moved r q := by
  unfold moved
  rw [hup]

include hup hdown in
theorem exceeds_congr : exceeds r p ↔ exceeds r q := by
  unfold exceeds
  rw [hup, hdown]

include hup hdown in
theorem settledRow_congr (now : Int) : settledRow r p now = settledRow r q now := by
  unfold settledRow
  by_cases h : moved r q
  · rw [if_pos h, if_pos ((moved_congr hup).2 h)]
    unfold withTotals
    rw [hup, hdown]
  · rw [if_neg h, if_neg fun h' => h ((moved_congr hup).1 h')]

end SameCounters

/-- A second entry with the same counters finds nothing left to store. -/
theorem settledRow_settled {r : Session} {p q : Peer} (hup : p.upload = q.upload) (now : Int) :
    ¬ moved (settledRow r p now) q := by
  unfold settledRow
  split
  · show ¬ (r.baseUpload + q.upload ≠ r.baseUpload + p.upload)
    rw [hup]
    exact fun h => h rfl
  · rename_i hm
    show ¬ (r.baseUpload + q.upload ≠ r.upload)
    rw [← hup]
    exact hm

@[simp] theorem settledRow_key (r : Session) (p : Peer) (now : Int) :
    (settledRow r p now).key = r.key := by
  unfold settledRow
  split <;> rfl

/-- What a pass without error leaves of one row and its peer.  The list has the
peer, and then its totals are settled, or it has not, and nothing changed. -/
theorem setEach_spec (hS : S.Sound) (env : Env S) (i : Actor) : ∀ (peers : List Peer) (s : Node S)
    (_ : S.wf s.svc) (_ : ((setEach peers).run (machine env) i s).1 = []) (r : Session)
    (_ : r ∈ s.table.rows) (_ : Consistent peers r.key),
    ((∀ p ∈ peers, p.key ≠ r.key) →
      r ∈ ((setEach peers).run (machine env) i s).2.table.rows ∧
      (r.key ∈ ((setEach peers).run (machine env) i s).2.registered ↔ r.key ∈ s.registered)) ∧
    (∀ p ∈ peers, p.key = r.key →
      (∃ now, settledRow r p now ∈ ((setEach peers).run (machine env) i s).2.table.rows) ∧
      (r.key ∈ ((setEach peers).run (machine env) i s).2.registered ↔
        r.key ∈ s.registered ∧ ¬ (moved r p ∧ exceeds r p))) := by
  intro peers
  induction peers with
  | nil =>
      intro s _ _ r hr _
      exact ⟨fun _ => ⟨hr, Iff.rfl⟩, fun p hp => by cases hp⟩
  | cons q rest ih =>
      intro s hwf herr r hr hcons
      -- the errors of the turn and of the rest are both none
      have hsplit : ((setSession q).run (machine env) i s).1 ++
          ((setEach rest).run (machine env) i ((setSession q).run (machine env) i s).2).1 = [] := by
        simpa [setEach, Prog.run_bind] using herr
      have hend : ((setEach (q :: rest)).run (machine env) i s).2 =
          ((setEach rest).run (machine env) i ((setSession q).run (machine env) i s).2).2 := by
        simp [setEach, Prog.run_bind]
      obtain ⟨hq, hrest⟩ := List.append_eq_nil_iff.1 hsplit
      have hturn := setSession_turn hS env i q hwf hq
      have hwf' : S.wf ((setSession q).run (machine env) i s).2.svc :=
        wf_run hS env i ((setSession_plain q).mono fun _ ho => ho.addsNoPeer).uses s hwf
      have hcons' : Consistent rest r.key := fun p hp p' hp' =>
        hcons p (List.mem_cons_of_mem _ hp) p' (List.mem_cons_of_mem _ hp')
      rw [hend]
      by_cases hqr : q.key = r.key
      · -- the turn settles `r`; whatever follows for the key changes nothing more
        refine ⟨fun hno => absurd hqr (hno q (List.mem_cons_self ..)), fun p hp hpr => ?_⟩
        obtain ⟨hup, hdown⟩ := hcons p hp q (List.mem_cons_self ..) hpr hqr
        obtain ⟨now, hrow⟩ := hturn.own_row r hr hqr.symm
        have hpeer := hturn.own_peer r hr hqr.symm
        have hsettled := settledRow_congr (r := r) hup hdown now
        obtain ⟨hnone, hsome⟩ := ih _ hwf' hrest _ hrow (by rw [settledRow_key]; exact hcons')
        rw [settledRow_key] at hnone hsome
        rw [moved_congr hup, exceeds_congr hup hdown]
        by_cases hlater : ∃ p' ∈ rest, p'.key = r.key
        · obtain ⟨p', hp', hp'r⟩ := hlater
          have hup' := (hcons q (List.mem_cons_self ..) p' (List.mem_cons_of_mem _ hp')
            hqr hp'r).1
          have hstill := settledRow_settled (r := r) hup' now
          obtain ⟨⟨now', hrow'⟩, hreg⟩ := hsome p' hp' hp'r
          rw [settledRow, if_neg hstill] at hrow'
          refine ⟨⟨now, by rw [hsettled]; exact hrow'⟩, hreg.trans ?_⟩
          rw [← hqr]
          exact ⟨fun hc => hpeer.1 hc.1, fun hc => ⟨hpeer.2 hc, fun hm => hstill hm.1⟩⟩
        · obtain ⟨hrow', hreg⟩ := hnone fun p' hp' hk => hlater ⟨p', hp', hk⟩
          refine ⟨⟨now, by rw [hsettled]; exact hrow'⟩, hreg.trans ?_⟩
          rw [← hqr]
          exact hpeer
      · have hrow := hturn.other_rows r hr (Ne.symm hqr)
        have hpeer := hturn.other_peers r.key (Ne.symm hqr)
        obtain ⟨hnone, hsome⟩ := ih _ hwf' hrest r hrow hcons'
        refine ⟨fun hno => ?_, fun p hp hpr => ?_⟩
        · obtain ⟨hrow', hreg⟩ := hnone fun p hp => hno p (List.mem_cons_of_mem _ hp)
          exact ⟨hrow', hreg.trans hpeer⟩
        · rcases List.mem_cons.1 hp with rfl | hp'
          · exact absurd hpr hqr
          · obtain ⟨hrow', hreg⟩ := hsome p hp' hpr
            exact ⟨hrow', hreg.trans (and_congr_left' hpeer)⟩

/-- With counters that are not negative, the test of `enforceCap` is the
comparison it stands for, unless the sum leaves the range of an `int64`. -/
theorem exceeds_iff {r : Session} {p : Peer} (hup : 0 ≤ p.upload.toInt)
    (hdown : 0 ≤ p.download.toInt) :
    exceeds r p ↔ 0 < r.available.toInt ∧ r.available.toInt < p.upload.toInt + p.download.toInt ∧
      p.upload.toInt + p.download.toInt < 2 ^ 63 := by
  unfold exceeds
  by_cases hsum : p.upload.toInt + p.download.toInt < 2 ^ 63
  · rw [toInt_add_of_lt hup hdown hsum]
    omega
  · -- the sum wraps to a negative number, which exceeds nothing
    have hwrap : ¬ 0 ≤ (p.upload + p.download).toInt := mt (toInt_add_nonneg_iff hup hdown).1 hsum
    omega

/-- Every listed peer with a row has its totals stored, and is no longer
registered if it has used more than its row allows. -/
def Metered (peers : List Peer) (s s' : Node S) : Prop :=
  ∀ p ∈ peers, ∀ r ∈ s.table.rows, r.key = p.key →
    (∃ r' ∈ s'.table.rows, r'.id = r.id ∧ r'.upload = r.baseUpload + p.upload ∧
      r'.download = r.baseDownload + p.download) ∧
    (0 < r.available.toInt → r.available.toInt < p.upload.toInt + p.download.toInt →
      p.key ∉ s'.registered)

/-- The pass can meter the peer `p` with the row `r`: the list does not contradict
itself about it, its upload has moved unless there is nothing to store, and, if
it is over its cap, the upload has moved and the sum of the counters fits an
`int64`, or it is not registered in the first place. -/
structure Meterable (peers : List Peer) (s : Node S) (p : Peer) (r : Session) : Prop where
  agree : Consistent peers p.key
  stored : moved r p ∨ r.baseDownload + p.download = r.download
  capped : 0 < r.available.toInt → r.available.toInt < p.upload.toInt + p.download.toInt →
    (moved r p ∧ p.upload.toInt + p.download.toInt < 2 ^ 63) ∨ p.key ∉ s.registered

@[simp] theorem settledRow_id (r : Session) (p : Peer) (now : Int) :
    (settledRow r p now).id = r.id := by
  unfold settledRow
  split <;> rfl

/-- The settled row holds the totals exactly when the upload moved or the
download had nothing to add. -/
theorem settledRow_totals (r : Session) (p : Peer) (now : Int) :
    ((settledRow r p now).upload = r.baseUpload + p.upload ∧
      (settledRow r p now).download = r.baseDownload + p.download) ↔
    (moved r p ∨ r.baseDownload + p.download = r.download) := by
  unfold settledRow
  by_cases hm : moved r p
  · rw [if_pos hm]
    exact ⟨fun _ => .inl hm, fun _ => ⟨rfl, rfl⟩⟩
  · rw [if_neg hm]
    have hup : r.baseUpload + p.upload = r.upload := not_not.1 hm
    exact ⟨fun h => .inr h.2.symm, fun h => ⟨hup.symm, (h.resolve_left hm).symm⟩⟩

/-- The pass is its loop, from a state with the same table and the same peers. -/
theorem run_setSessions {env : Env S} {s : Node S} {peers : List Peer}
    (h : env.peers s.clock = .ok peers) : ∃ t : Node S, t.table = s.table ∧ t.svc = s.svc ∧
      setSessions.run (machine env) .setSessions s =
        (setEach peers).run (machine env) .setSessions t := by
  refine ⟨(machine env).acquire .setSessions (execPeers env s).2, rfl, rfl, ?_⟩
  show Prog.run _ _ (match env.peers s.clock with
    | .error e => pure [Err.external e]
    | .ok peers => Prog.withLock (setEach peers)) (execPeers env s).2 = _
  rw [h]
  exact Prog.run_withLock _ _ _ _

/-- **Exactly when a pass meters its peers.**  In a pass none of whose calls
fails, over any table and any list of counters that are not negative, every
listed peer with a row is metered if and only if each of them is one the pass
can meter. -/
theorem setSessions_metered_iff (hS : S.Sound) (env : Env S) {s : Node S} (hwf : S.wf s.svc)
    {peers : List Peer} (hpeers : env.peers s.clock = .ok peers)
    (hnonneg : ∀ p ∈ peers, 0 ≤ p.upload.toInt ∧ 0 ≤ p.download.toInt)
    (hok : (setSessions.run (machine env) .setSessions s).1 = []) :
    Metered peers s (setSessions.run (machine env) .setSessions s).2 ↔
      ∀ p ∈ peers, ∀ r ∈ s.table.rows, r.key = p.key → Meterable peers s p r := by
  obtain ⟨t, htable, hsvc, hrun⟩ := run_setSessions hpeers
  have hreg : t.registered = s.registered := by
    unfold Node.registered
    rw [hsvc]
  rw [hrun] at hok ⊢
  -- what the loop leaves of a listed peer whose entries agree
  have hspec := fun (p : Peer) (hp : p ∈ peers) (r : Session) (hr : r ∈ s.table.rows)
      (hk : r.key = p.key) (hc : Consistent peers p.key) =>
    (setEach_spec hS env .setSessions peers t (hsvc.symm ▸ hwf) hok r (htable ▸ hr) (hk ▸ hc)).2 p hp
      hk.symm
  constructor
  · intro hmet p hp r hr hk
    have hagree : Consistent peers p.key := by
      intro q hq q' hq' hqk hqk'
      obtain ⟨⟨a, ha, haid, haup, hadown⟩, -⟩ := hmet q hq r hr (hk.trans hqk.symm)
      obtain ⟨⟨b, hb, hbid, hbup, hbdown⟩, -⟩ := hmet q' hq' r hr (hk.trans hqk'.symm)
      have hab := Table.eq_of_id ha hb (haid.trans hbid.symm)
      subst hab
      exact ⟨(Int64.add_right_inj _).1 (haup.symm.trans hbup),
        (Int64.add_right_inj _).1 (hadown.symm.trans hbdown)⟩
    obtain ⟨⟨now, hrow⟩, hpeer⟩ := hspec p hp r hr hk hagree
    obtain ⟨⟨a, ha, haid, haup, hadown⟩, hcap⟩ := hmet p hp r hr hk
    refine ⟨hagree, (settledRow_totals r p now).1 ?_, fun hav hover => ?_⟩
    · rw [Table.eq_of_id hrow ha ((settledRow_id r p now).trans haid.symm)]
      exact ⟨haup, hadown⟩
    · by_cases hin : p.key ∈ s.registered
      · left
        have hnot := hcap hav hover
        rw [← hk, hpeer, hreg, hk] at hnot
        obtain ⟨hm, hex⟩ := not_not.1 fun h => hnot ⟨hin, h⟩
        exact ⟨hm, ((exceeds_iff (hnonneg p hp).1 (hnonneg p hp).2).1 hex).2.2⟩
      · exact .inr hin
  · intro hall p hp r hr hk
    have hmeter := hall p hp r hr hk
    obtain ⟨⟨now, hrow⟩, hpeer⟩ := hspec p hp r hr hk hmeter.agree
    refine ⟨⟨_, hrow, settledRow_id r p now, (settledRow_totals r p now).2 hmeter.stored⟩,
      fun hav hover => ?_⟩
    rw [← hk, hpeer, hreg, hk]
    rintro ⟨hin, hnot⟩
    rcases hmeter.capped hav hover with ⟨hm, hfits⟩ | hout
    · exact hnot ⟨hm, (exceeds_iff (hnonneg p hp).1 (hnonneg p hp).2).2 ⟨hav, hover, hfits⟩⟩
    · exact hout hin

/-! ## One session, metered and not -/

/-- A session with ten bytes to use. -/
def tenBytes : Session := { id := 1, key := Key.of [1], address := "client", available := 10 }

/-- A node that serves that session and nothing else. -/
def oneSession : Node peerSet :=
  { Node.fresh (S := peerSet) ({Key.of [1]} : Finset Key) with
    table := ⟨[tenBytes], by decide, by decide⟩ }

/-- The peer of the session, with the given counters. -/
def onePeer (upload download : Int64) : Peer := ⟨Key.of [1], upload, download, by decide⟩

/-- No call fails, and the service reports one peer. -/
def reporting (peer : Peer) : Env peerSet where
  now t := t
  database _ := none
  peers _ := .ok [peer]
  control _ _ := Outcome.ok
  querySession _ _ := .ok none
  querySubscription _ _ := .ok none
  queryAllocation _ _ _ := .ok none
  updateSessions _ _ := none

/-- **A peer that only downloads is not metered**: after 500 bytes of its ten, its
row still says it has used nothing, and it is still registered. -/
theorem download_only_unmetered :
    (setSessions.run (machine (reporting (onePeer 0 500))) .setSessions oneSession).1 = [] ∧
    (setSessions.run (machine (reporting (onePeer 0 500))) .setSessions oneSession).2.table.rows =
      [tenBytes] ∧
    ¬ Metered [onePeer 0 500] oneSession
      (setSessions.run (machine (reporting (onePeer 0 500))) .setSessions oneSession).2 := by
  refine ⟨by decide, by decide, fun h => ?_⟩
  exact (h (onePeer 0 500) (by simp) tenBytes (by decide) rfl).2 (by decide) (by decide) (by decide)

/-- A peer whose upload has moved too is metered: eight bytes each way are stored
and, being more than ten, cost it its registration. -/
theorem both_ways_metered :
    Metered [onePeer 8 8] oneSession
      (setSessions.run (machine (reporting (onePeer 8 8))) .setSessions oneSession).2 := by
  refine (setSessions_metered_iff peerSet_sound (reporting (onePeer 8 8)) (s := oneSession) trivial
    rfl ?_ (by decide)).2 ?_
  · intro p hp
    rw [List.mem_singleton.1 hp]
    decide
  · intro p hp r hr _
    rw [List.mem_singleton.1 hp, List.mem_singleton.1 (show r ∈ [tenBytes] from hr)]
    refine ⟨fun q hq q' hq' _ _ => ?_, .inl (by decide), fun _ _ => .inl (by decide)⟩
    rw [List.mem_singleton.1 hq, List.mem_singleton.1 hq']
    exact ⟨rfl, rfl⟩

end Dvpnd
