import Dvpnd.Lib.Lists
import Dvpnd.Node.Staleness
import Dvpnd.Session.Locked

/-!
# Totals that never fall

The chain refuses a report whose bytes or duration are lower than what it already holds for the
session, and a session outlives the process that serves it.  So a row starts from what the chain
holds (`BaseUpload`, `BaseDownload`, `BaseDuration`, `types/session.go`), the peer's counters are
added on top, and what is reported is the row.

* `Totals` — upload, download and duration, ordered componentwise.
* `PeerCounters`, `Ordinary`, `Accounted` — what is assumed of the outside: a peer's counters only
  grow, the clock does not go back, no amount comes near the limit of an `int64`, and until this
  process has reported on a session the chain holds what it held.
* `Over` — the chain has ended the session, or the plan subscription it runs on.
* `RowSound`, `TotalsSound` — what holds of every row and of every report, at every moment.
-/

namespace Dvpnd

open Effect

variable {S : Service}

/-! ## Totals -/

/-- Upload, download and duration. -/
abbrev Totals := Int × Int × Int

/-- What is reported of a row. -/
def Session.totals (r : Session) : Totals := (r.upload.toInt, r.download.toInt, r.duration.toInt)

/-- What the chain holds. -/
def ChainSession.totals (x : ChainSession) : Totals :=
  (x.uploadBytes, x.downloadBytes, x.duration.toInt)

/-- Far enough from the limit of an `int64` that two of them can be added. -/
def Modest (v : Int) : Prop := 0 ≤ v ∧ v < 2 ^ 62

instance (v : Int) : Decidable (Modest v) := inferInstanceAs (Decidable (_ ∧ _))

/-- What the service counts for a peer: upload and download, by key, by the moment the peer was
added and by the moment the counters are read. -/
structure PeerCounters where
  read : Key → Nat → Nat → Int × Int
  mono : ∀ k added, Monotone (read k added)
  modest : ∀ k added t, Modest (read k added t).1 ∧ Modest (read k added t).2

/-- The clock does not go back, and neither it nor what the chain holds comes near the limit of an
`int64`. -/
structure Ordinary (env : Env S) : Prop where
  now_mono : Monotone env.now
  now : ∀ t, Modest (env.now t)
  session : ∀ {t id x}, env.querySession t id = .ok (some x) →
    Modest x.uploadBytes ∧ Modest x.downloadBytes ∧ Modest x.duration.toInt

/-! ## What has been reported, and what is over -/

/-- The sessions of a report, accepted or not. -/
def Event.report : Event → Option (List Session)
  | .reported items _ => some items
  | _ => none

/-- The reports sent so far, accepted or not: one that was refused, or seemed to be, may still
reach the chain. -/
def Node.reports (s : Node S) : List (List Session) := s.log.filterMap Event.report

/-- The chain's answer says the subscription is gone or inactive. -/
def lapsed : Except String (Option Subscription) → Bool
  | .error _ => false
  | .ok none => true
  | .ok (some subscription) => subscription.status == .inactive

/-- By the moment `T` the chain had ended the session, or the plan subscription it runs on. -/
def Over (env : Env S) (T id : Nat) : Prop :=
  ∃ t < T, ended (env.querySession t id) = true ∨
    ∃ x sub, env.querySession t id = .ok (some x) ∧ x.subscription = some sub ∧
      ∃ t' < T, lapsed (env.querySubscription t' sub) = true

theorem Over.mono {env : Env S} {T T' id : Nat} (hT : T ≤ T') (h : Over env T id) :
    Over env T' id := by
  obtain ⟨t, ht, hend⟩ := h
  refine ⟨t, ht.trans_le hT, hend.imp_right ?_⟩
  rintro ⟨x, sub, hx, hsub, t', ht', hlapsed⟩
  exact ⟨x, sub, hx, hsub, t', ht'.trans_le hT, hlapsed⟩

/-- The session's totals are no less than what the chain held when the process started, and no less
than any of these reports. -/
def Covers (held : Nat → Totals) (earlier : List (List Session)) (x : Session) : Prop :=
  held x.id ≤ x.totals ∧ ∀ y ∈ earlier.flatten, y.id = x.id → y.totals ≤ x.totals

theorem Covers.mono {held : Nat → Totals} {earlier : List (List Session)} {x y : Session}
    (hid : y.id = x.id) (hle : x.totals ≤ y.totals) (h : Covers held earlier x) :
    Covers held earlier y := by
  unfold Covers
  rw [hid]
  exact ⟨h.1.trans hle, fun z hz hzid => (h.2 z hz hzid).trans hle⟩

/-! ## The assumptions on a run -/

/-- The counters a pass reads are the peers'. -/
def CountersAre (counters : PeerCounters) (s : Node S) : Except String (List Peer) → Prop
  | .error _ => True
  | .ok peers => ∀ p ∈ peers,
      (p.upload.toInt, p.download.toInt) = counters.read p.key (s.addedAt p.key) s.clock

/-- An answer about a session that has not been reported on yet is what the chain held. -/
def HoldsStill (held : Nat → Totals) (s : Node S) (id : Nat) :
    Except String (Option ChainSession) → Prop
  | .ok (some x) => (∀ y ∈ s.reports.flatten, y.id ≠ id) → x.totals = held id
  | _ => True

/-- What the outside answers at this call is in keeping with the counters and the chain. -/
def AnswersFit (env : Env S) (counters : PeerCounters) (held : Nat → Totals) : Op → Node S → Prop
  | .peers, s => CountersAre counters s (env.peers s.clock)
  | .querySession id, s => HoldsStill held s id (env.querySession s.clock id)
  | _, _ => True

/-- What a run is assumed to meet: no key on the list of a waiting pass is added, the counters are
the peers', and only this process changes what the chain holds. -/
def Accounted (env : Env S) (counters : PeerCounters) (held : Nat → Totals) (i : Actor) (o : Op)
    (s : Node S) : Prop :=
  NoReadmission i o s ∧ AnswersFit env counters held o s

instance CountersAre.decidable (counters : PeerCounters) (s : Node S) :
    (r : Except String (List Peer)) → Decidable (CountersAre counters s r)
  | .error _ => isTrue trivial
  | .ok peers => inferInstanceAs (Decidable (∀ p ∈ peers,
      (p.upload.toInt, p.download.toInt) = counters.read p.key (s.addedAt p.key) s.clock))

instance HoldsStill.decidable (held : Nat → Totals) (s : Node S) (id : Nat) :
    (r : Except String (Option ChainSession)) → Decidable (HoldsStill held s id r)
  | .ok (some x) => inferInstanceAs (Decidable
      ((∀ y ∈ s.reports.flatten, y.id ≠ id) → x.totals = held id))
  | .ok none => isTrue trivial
  | .error _ => isTrue trivial

instance AnswersFit.decidable (env : Env S) (counters : PeerCounters) (held : Nat → Totals) :
    (o : Op) → (s : Node S) → Decidable (AnswersFit env counters held o s)
  | .peers, s => CountersAre.decidable counters s (env.peers s.clock)
  | .querySession id, s => HoldsStill.decidable held s id (env.querySession s.clock id)
  | .peerCount, _ | .hasPeer _, _ | .addPeer _, _ | .removePeer _ _, _ | .count _, _ | .find _ _, _
  | .create _, _ | .updates _ _ _, _ | .delete _, _ | .deleteAll, _ | .vacuum, _
  | .querySubscription _, _ | .queryAllocation _ _, _ | .updateSessions _, _ => isTrue trivial

instance Accounted.decidable (env : Env S) (counters : PeerCounters) (held : Nat → Totals)
    (i : Actor) (o : Op) (s : Node S) : Decidable (Accounted env counters held i o s) :=
  inferInstanceAs (Decidable (_ ∧ _))

/-! ## The invariant -/

/-- What holds of a row at every moment: it is a base the chain gave plus counters of its peer's,
its times are in order, and it covers what has been reported of it unless the session is over. -/
structure RowSound (env : Env S) (counters : PeerCounters) (held : Nat → Totals) (s : Node S)
    (r : Session) : Prop where
  baseUpload : Modest r.baseUpload.toInt
  baseDownload : Modest r.baseDownload.toInt
  baseDuration : Modest r.baseDuration.toInt
  createdAt : 0 ≤ r.createdAt ∧ r.createdAt ≤ r.updatedAt
  updatedAt : r.updatedAt ≤ env.now s.clock
  counted : ∃ t ≤ s.readAt,
    r.upload.toInt ≤ r.baseUpload.toInt + (counters.read r.key (s.addedAt r.key) t).1 ∧
    r.download.toInt ≤ r.baseDownload.toInt + (counters.read r.key (s.addedAt r.key) t).2
  covers : Over env s.clock r.id ∨ Covers held s.reports r

/-- The table has a row for the session. -/
def HasRow (s : Node S) (id : Nat) : Prop := ∃ r ∈ s.table.rows, r.id = id

/-- Every row is sound; what has been reported has its row, or is over; and each report covered what
the chain held and what was reported before it. -/
structure TotalsSound (env : Env S) (counters : PeerCounters) (held : Nat → Totals)
    (s : Node S) : Prop where
  rows : ∀ r ∈ s.table.rows, RowSound env counters held s r
  sent : ∀ x ∈ s.reports.flatten, HasRow s x.id ∨ Over env s.clock x.id
  rising : ∀ n items, s.reports[n]? = some items → ∀ x ∈ items,
    Over env s.clock x.id ∨ Covers held (s.reports.take n) x
  readAt : s.readAt ≤ s.clock

section Steps

variable {env : Env S} {counters : PeerCounters} {held : Nat → Totals} {s s' : Node S}

/-- Nothing a row's soundness rests on is taken back. -/
theorem RowSound.keep {r : Session} (h : RowSound env counters held s r) (henv : Ordinary env)
    (hclock : s.clock ≤ s'.clock) (hread : s.readAt ≤ s'.readAt)
    (hadded : s'.addedAt r.key = s.addedAt r.key) (hreports : s'.reports = s.reports) :
    RowSound env counters held s' r := by
  obtain ⟨t, ht, hcount⟩ := h.counted
  refine { h with
    updatedAt := h.updatedAt.trans (henv.now_mono hclock)
    counted := ⟨t, ht.trans hread, ?_⟩
    covers := ?_ }
  · rw [hadded]
    exact hcount
  · rw [hreports]
    exact h.covers.imp_left (Over.mono hclock)

/-- A call that neither writes a row, nor reports, nor adds a peer that has one. -/
theorem TotalsSound.keep (h : TotalsSound env counters held s) (henv : Ordinary env)
    (htable : s'.table = s.table) (hreports : s'.reports = s.reports)
    (hclock : s.clock ≤ s'.clock) (hread : s.readAt ≤ s'.readAt) (hread' : s'.readAt ≤ s'.clock)
    (hadded : ∀ r ∈ s.table.rows, s'.addedAt r.key = s.addedAt r.key) :
    TotalsSound env counters held s' where
  rows r hr := by
    rw [htable] at hr
    exact (h.rows r hr).keep henv hclock hread (hadded r hr) hreports
  sent x hx := by
    rw [hreports] at hx
    refine (h.sent x hx).imp (fun hrow => ?_) (Over.mono hclock)
    unfold HasRow
    rwa [htable]
  rising n items hn x hx := by
    rw [hreports] at hn ⊢
    exact (h.rising n items hn x hx).imp_left (Over.mono hclock)
  readAt := hread'

/-- A moment passes. -/
theorem TotalsSound.tick (henv : Ordinary env) (h : TotalsSound env counters held s) :
    TotalsSound env counters held s.tick := by
  refine h.keep henv rfl rfl (Nat.le_succ _) (Nat.le_refl _) ?_ fun _ _ => rfl
  exact h.readAt.trans (Nat.le_succ _)

/-! ### A stored usage -/

/-- Two modest amounts add up. -/
theorem toInt_add_of_modest {a b : Int64} (ha : Modest a.toInt) (hb : Modest b.toInt) :
    (a + b).toInt = a.toInt + b.toInt := by
  refine toInt_add_of_lt ha.1 hb.1 ?_
  have := ha.2
  have := hb.2
  omega

/-- A modest time does not saturate. -/
theorem toInt_add_ofIntClamp {a : Int64} {d : Int} (ha : Modest a.toInt) (hd : Modest d) :
    (a + Int64.ofIntClamp d).toInt = a.toInt + d := by
  obtain ⟨hd0, hd1⟩ := hd
  have hmin : Int64.minValue.toInt ≤ 0 := by decide
  have hmax : (2 : Int) ^ 62 ≤ Int64.maxValue.toInt := by decide
  have hval : (Int64.ofIntClamp d).toInt = d := Int64.toInt_ofIntClamp (by omega) (by omega)
  rw [toInt_add_of_modest ha (by rw [hval]; exact ⟨hd0, hd1⟩), hval]

/-- The duration of a sound row is what its times say. -/
theorem RowSound.duration (henv : Ordinary env) {r : Session}
    (h : RowSound env counters held s r) :
    r.duration.toInt = r.baseDuration.toInt + (r.updatedAt - r.createdAt) := by
  refine toInt_add_ofIntClamp h.baseDuration ?_
  have hlast := h.updatedAt
  have hnow := (henv.now s.clock).2
  obtain ⟨h0, hle⟩ := h.createdAt
  exact ⟨by omega, by omega⟩

/-- The row with a reading in it is sound again. -/
theorem RowSound.withTotals (henv : Ordinary env) {r : Session} {p : Peer}
    (h : RowSound env counters held s r)
    (hp : (p.upload.toInt, p.download.toInt) = counters.read r.key (s.addedAt r.key) s.readAt) :
    RowSound env counters held s (withTotals r p (env.now s.clock)) ∧
      r.totals ≤ (withTotals r p (env.now s.clock)).totals := by
  have hup : p.upload.toInt = (counters.read r.key (s.addedAt r.key) s.readAt).1 :=
    congrArg Prod.fst hp
  have hdown : p.download.toInt = (counters.read r.key (s.addedAt r.key) s.readAt).2 :=
    congrArg Prod.snd hp
  obtain ⟨hmup, hmdown⟩ := counters.modest r.key (s.addedAt r.key) s.readAt
  have hupload : (r.baseUpload + p.upload).toInt = r.baseUpload.toInt + p.upload.toInt :=
    toInt_add_of_modest h.baseUpload (hup ▸ hmup)
  have hdownload : (r.baseDownload + p.download).toInt = r.baseDownload.toInt + p.download.toInt :=
    toInt_add_of_modest h.baseDownload (hdown ▸ hmdown)
  have hduration : (r.baseDuration + Int64.ofIntClamp (env.now s.clock - r.createdAt)).toInt =
      r.baseDuration.toInt + (env.now s.clock - r.createdAt) := by
    refine toInt_add_ofIntClamp h.baseDuration ?_
    have hnow := (henv.now s.clock).2
    have hlast := h.updatedAt
    obtain ⟨h0, hle⟩ := h.createdAt
    exact ⟨by omega, by omega⟩
  -- the counters have not gone down since the reading the row holds
  have hgrows : r.totals ≤ (Dvpnd.withTotals r p (env.now s.clock)).totals := by
    obtain ⟨t, ht, hcu, hcd⟩ := h.counted
    obtain ⟨hmu, hmd⟩ := Prod.le_def.1 (counters.mono r.key (s.addedAt r.key) ht)
    refine Prod.le_def.2 ⟨?_, Prod.le_def.2 ⟨?_, ?_⟩⟩
    · show r.upload.toInt ≤ (r.baseUpload + p.upload).toInt
      omega
    · show r.download.toInt ≤ (r.baseDownload + p.download).toInt
      omega
    · show r.duration.toInt ≤
        (r.baseDuration + Int64.ofIntClamp (env.now s.clock - r.createdAt)).toInt
      rw [h.duration henv, hduration]
      have hlast := h.updatedAt
      omega
  refine ⟨{ h with
    createdAt := ⟨h.createdAt.1, h.createdAt.2.trans h.updatedAt⟩
    updatedAt := Int.le_refl _
    counted := ⟨s.readAt, Nat.le_refl _, ?_, ?_⟩
    covers := h.covers.imp_right fun hc => Covers.mono (x := r) rfl hgrows hc }, hgrows⟩
  · exact (hupload.trans (congrArg _ hup)).le
  · exact (hdownload.trans (congrArg _ hdown)).le

/-- Every row stays, with totals no lower. -/
def RowsGrow (s s' : Node S) : Prop :=
  ∀ r ∈ s.table.rows, ∃ r' ∈ s'.table.rows, r'.id = r.id ∧ r.totals ≤ r'.totals

theorem RowsGrow.of_table (h : s'.table = s.table) : RowsGrow s s' := by
  intro r hr
  exact ⟨r, by rwa [h], rfl, le_refl _⟩

theorem RowsGrow.trans {s'' : Node S} (h : RowsGrow s s') (h' : RowsGrow s' s'') :
    RowsGrow s s'' := by
  intro r hr
  obtain ⟨r', hr', hid, hle⟩ := h r hr
  obtain ⟨r'', hr'', hid', hle'⟩ := h' r' hr'
  exact ⟨r'', hr'', hid'.trans hid, hle.trans hle'⟩

theorem RowsGrow.hasRow {id : Nat} (h : RowsGrow s s') (hrow : HasRow s id) : HasRow s' id := by
  obtain ⟨r, hr, hid⟩ := hrow
  obtain ⟨r', hr', hid', -⟩ := h r hr
  exact ⟨r', hr', hid'.trans hid⟩

/-- Writing one row's totals changes that row and no other. -/
theorem of_mem_setUsage_id {T : Table} {item r : Session} {p : Peer} {now : Int}
    (hitem : item ∈ T.rows) (hid : item.id ≠ 0)
    (hr : r ∈ (T.setUsage { id := item.id } (item.baseUpload + p.upload)
      (item.baseDownload + p.download) now).rows) :
    r = withTotals item p now ∨ r ∈ T.rows := by
  obtain ⟨r₀, hr₀, rfl⟩ := List.mem_map.1 hr
  split
  · rename_i hsat
    have heq := Table.eq_of_id hr₀ hitem ((Session.satisfies_id.1 hsat).resolve_left hid)
    subst heq
    exact .inl rfl
  · exact .inr hr₀

/-- **A stored usage keeps the invariant, and raises the row it is stored in.** -/
theorem TotalsSound.updates (henv : Ordinary env) {item : Session} {p : Peer}
    (hitem : item ∈ s.table.rows)
    (hp : (p.upload.toInt, p.download.toInt) =
      counters.read item.key (s.addedAt item.key) s.readAt)
    (h : TotalsSound env counters held s) :
    TotalsSound env counters held (execUpdates env { id := item.id } (item.baseUpload + p.upload)
        (item.baseDownload + p.download) s).2 ∧
      RowsGrow s (execUpdates env { id := item.id } (item.baseUpload + p.upload)
        (item.baseDownload + p.download) s).2 := by
  rcases execUpdates_cases env { id := item.id } (item.baseUpload + p.upload)
    (item.baseDownload + p.download) s with ⟨e, he⟩ | ⟨hz, he⟩
  · rw [he]
    exact ⟨h.tick henv, .of_table rfl⟩
  have hid : item.id ≠ 0 := fun h0 => Bool.eq_false_iff.1 hz (Session.isZero_id.2 h0)
  obtain ⟨hsound, hgrows⟩ := (h.rows item hitem).withTotals henv hp
  rw [he]
  have hgrow : RowsGrow s { s.tick with
      table := s.table.setUsage { id := item.id } (item.baseUpload + p.upload)
        (item.baseDownload + p.download) (env.now s.clock)
      usage := s.usage ++ (s.table.find { id := item.id }).map fun r =>
        ⟨r.key, s.readAt, s.addedAt r.key⟩ } := by
    intro r hr
    refine ⟨_, mem_setUsage_id p (env.now s.clock) hitem hid hr, ?_⟩
    by_cases heq : r = item
    · rw [if_pos heq, heq]
      exact ⟨rfl, hgrows⟩
    · rw [if_neg heq]
      exact ⟨rfl, le_refl _⟩
  refine ⟨⟨fun r hr => ?_, fun x hx => ?_, ?_, (h.tick henv).readAt⟩, hgrow⟩
  · rcases of_mem_setUsage_id hitem hid hr with rfl | hold
    · exact hsound.keep henv (Nat.le_succ _) (Nat.le_refl _) rfl rfl
    · exact (h.rows r hold).keep henv (Nat.le_succ _) (Nat.le_refl _) rfl rfl
  · exact (h.sent x hx).imp hgrow.hasRow (Over.mono (Nat.le_succ _))
  · exact fun n items hn x hx => (h.rising n items hn x hx).imp_left (Over.mono (Nat.le_succ _))

/-! ### A new row -/

/-- What an admission knows of the chain's answer about its session: it is what the chain held and
nothing has been reported since, or there is a row already, or the session is over. -/
def AnswerStands (env : Env S) (held : Nat → Totals) (id : Nat) (x : ChainSession) (s : Node S) : Prop :=
  ((∀ y ∈ s.reports.flatten, y.id ≠ id) ∧ x.totals = held id) ∨ HasRow s id ∨ Over env s.clock id

/-- The row of a modest session is stored with the chain's totals. -/
theorem admittedRow_totals {req : AdmitRequest} {a : Admission} {available : Int64} (now : Int)
    (hup : Modest a.session.uploadBytes) (hdown : Modest a.session.downloadBytes)
    (hdur : Modest a.session.duration.toInt) :
    Session.totals { admittedRow req a available with createdAt := now, updatedAt := now } =
      a.session.totals := by
  have hclamp : ∀ {v : Int}, Modest v → (clampInt64 v).toInt = v := by
    intro v hv
    rw [toInt_clampInt64 hv.1]
    have := hv.2
    omega
  have hduration : (a.session.duration + Int64.ofIntClamp (now - now)).toInt =
      a.session.duration.toInt := by
    rw [toInt_add_ofIntClamp hdur (by rw [Int.sub_self]; decide), Int.sub_self, Int.add_zero]
  unfold Session.totals ChainSession.totals
  exact Prod.ext (hclamp hup) (Prod.ext (hclamp hdown) hduration)

/-- **A new row keeps the invariant**: what it starts from is what the chain holds. -/
theorem TotalsSound.create (h : TotalsSound env counters held s) (henv : Ordinary env)
    {req : AdmitRequest} {a : Admission} (available : Int64) (hnew : NewTo req s.table)
    (hup : Modest a.session.uploadBytes) (hdown : Modest a.session.downloadBytes)
    (hdur : Modest a.session.duration.toInt) (hq : AnswerStands env held req.id a.session s) :
    TotalsSound env counters held (execCreate env (admittedRow req a available) s).2 ∧
      RowsGrow s (execCreate env (admittedRow req a available) s).2 := by
  rcases execCreate_cases env (admittedRow req a available) s with ⟨e, he⟩ | ⟨t, ht, he⟩
  · rw [he]
    exact ⟨h.tick henv, .of_table rfl⟩
  have hrows := Table.create_rows ht
  rw [he]
  have hgrow : RowsGrow s { s.tick with table := t } := by
    intro r hr
    refine ⟨r, ?_, rfl, le_refl _⟩
    show r ∈ t.rows
    rw [hrows]
    exact List.mem_append_left _ hr
  refine ⟨⟨fun r hr => ?_, fun x hx => ?_, ?_, (h.tick henv).readAt⟩, hgrow⟩
  · have hr' : r ∈ t.rows := hr
    rw [hrows] at hr'
    rcases List.mem_append.1 hr' with hold | hlast
    · exact (h.rows r hold).keep henv (Nat.le_succ _) (Nat.le_refl _) rfl rfl
    · obtain rfl := List.mem_singleton.1 hlast
      have hcap : ∀ {v : Int}, Modest v → Modest (clampInt64 v).toInt := by
        intro v hv
        rw [toInt_clampInt64 hv.1]
        exact ⟨by have := hv.1; omega, by have := hv.2; omega⟩
      obtain ⟨hread1, hread2⟩ := counters.modest req.peerKey (s.addedAt req.peerKey) 0
      refine ⟨hcap hup, hcap hdown, hdur, ⟨(henv.now s.clock).1, Int.le_refl _⟩,
        henv.now_mono (Nat.le_succ _), ⟨0, Nat.zero_le _, ?_, ?_⟩, ?_⟩
      · exact Int.le_add_of_nonneg_right hread1.1
      · exact Int.le_add_of_nonneg_right hread2.1
      · -- the locked check found no row, so the answer still stands or the session is over
        rcases hq with ⟨hnone, hheld⟩ | ⟨r, hr, hid⟩ | hover
        · refine .inr ⟨?_, fun y hy hid => absurd hid (hnone y hy)⟩
          rw [admittedRow_totals _ hup hdown hdur, hheld]
          exact le_refl _
        · exact absurd hid (hnew.id r hr)
        · exact .inl (hover.mono (Nat.le_succ _))
  · exact (h.sent x hx).imp hgrow.hasRow (Over.mono (Nat.le_succ _))
  · exact fun n items hn x hx => (h.rising n items hn x hx).imp_left (Over.mono (Nat.le_succ _))

/-- Adding a peer under a key without a row. -/
theorem TotalsSound.addPeer (h : TotalsSound env counters held s) (henv : Ordinary env)
    {data : List UInt8} (hkey : ∀ r ∈ s.table.rows, r.key ≠ Key.of data) :
    TotalsSound env counters held (execAddPeer env data s).2 := by
  rcases execAddPeer_cases env data s with ⟨e, -, he⟩ | ⟨m, -, he⟩ <;> rw [he]
  · exact h.keep henv rfl rfl (Nat.le_succ _) (Nat.le_refl _) (h.tick henv).readAt fun _ _ => rfl
  · exact h.keep henv rfl rfl (Nat.le_succ _) (Nat.le_refl _) (h.tick henv).readAt
      fun r hr => Function.update_of_ne (hkey r hr) _ _

/-! ### A report -/

/-- What an `update_sessions` pass knows of the rows it has read: each still has its row, with
totals no lower, and covers what has been reported unless the session is over. -/
structure Snapshot (env : Env S) (held : Nat → Totals) (items : List Session) (s : Node S) :
    Prop where
  ids : (items.map Session.id).Nodup
  rows : ∀ x ∈ items, ∃ r ∈ s.table.rows, r.id = x.id ∧ x.totals ≤ r.totals
  covers : ∀ x ∈ items, Over env s.clock x.id ∨ Covers held s.reports x

/-- The rows themselves. -/
theorem TotalsSound.snapshot (h : TotalsSound env counters held s) :
    Snapshot env held s.table.rows s where
  ids := s.table.ids_nodup
  rows x hx := ⟨x, hx, rfl, le_refl _⟩
  covers x hx := (h.rows x hx).covers

theorem Snapshot.sublist {items sub : List Session} (h : Snapshot env held items s)
    (hsub : sub.Sublist items) : Snapshot env held sub s where
  ids := h.ids.sublist (hsub.map _)
  rows x hx := h.rows x (hsub.subset hx)
  covers x hx := h.covers x (hsub.subset hx)

/-- No other session on the list has the id of one. -/
theorem Snapshot.id_ne {items : List Session} {n : Nat} {item x : Session}
    (h : Snapshot env held items s) (hn : items[n]? = some item) (hx : x ∈ items.eraseIdx n) :
    x.id ≠ item.id := by
  obtain ⟨m, hne, hm⟩ := List.mem_eraseIdx_iff_getElem?.1 hx
  intro hid
  have hlen : m < (items.map Session.id).length := by
    rw [List.length_map]
    exact (List.getElem?_eq_some_iff.1 hm).1
  refine hne ((List.getElem?_inj hlen h.ids).1 ?_)
  rw [List.getElem?_map, List.getElem?_map, hm, hn, Option.map_some, Option.map_some, hid]

/-- Rows that stay and grow, and no report, leave a snapshot good. -/
theorem Snapshot.keep {items : List Session} (h : Snapshot env held items s)
    (hrows : RowsGrow s s') (hreports : s'.reports = s.reports) (hclock : s.clock ≤ s'.clock) :
    Snapshot env held items s' where
  ids := h.ids
  rows x hx := by
    obtain ⟨r, hr, hid, hle⟩ := h.rows x hx
    obtain ⟨r', hr', hid', hle'⟩ := hrows r hr
    exact ⟨r', hr', hid'.trans hid, hle.trans hle'⟩
  covers x hx := by
    rw [hreports]
    exact (h.covers x hx).imp_left (Over.mono hclock)

/-- A report goes on record, accepted or not. -/
theorem reports_updateSessions (env : Env S) (s : Node S) (sub : List Session) :
    (exec env (.updateSessions sub) s).2.reports = s.reports ++ [sub] := by
  show List.filterMap Event.report (s.log ++ [_]) = _
  rw [List.filterMap_append]
  rfl

/-- The call is a report. -/
def Op.IsReport : Op → Prop
  | .updateSessions _ => True
  | _ => False

/-- Nothing else goes on record as one. -/
theorem exec_reports (env : Env S) (s : Node S) {o : Op} (ho : ¬ o.IsReport) :
    (exec env o s).2.reports = s.reports := by
  have hasked : ∀ {e : Event}, e.report = none →
      (s.log ++ [e]).filterMap Event.report = s.log.filterMap Event.report := by
    intro e he
    rw [List.filterMap_append, List.filterMap_cons_none he, List.filterMap_nil, List.append_nil]
  by_cases hst : o.IsStatement
  · obtain ⟨T, U, he, -⟩ := hst.frame env s
    rw [he]
    rfl
  cases o with
  | updateSessions items => exact absurd trivial ho
  | querySession _ | querySubscription _ => exact hasked rfl
  | addPeer data =>
      show (execAddPeer env data s).2.reports = s.reports
      rcases execAddPeer_cases env data s with ⟨e, -, he⟩ | ⟨m, -, he⟩ <;> rw [he] <;> rfl
  | create _ | updates _ _ _ | delete _ | deleteAll | vacuum => exact absurd trivial hst
  | peers | removePeer _ _ | peerCount | hasPeer _ | count _ | find _ _ | queryAllocation _ _ => rfl

theorem Covers.append {earlier : List (List Session)} {sub : List Session} {x : Session}
    (h : Covers held earlier x) (hsub : ∀ y ∈ sub, y.id = x.id → y.totals ≤ x.totals) :
    Covers held (earlier ++ [sub]) x := by
  refine ⟨h.1, fun y hy hid => ?_⟩
  rw [List.flatten_append, List.flatten_singleton] at hy
  rcases List.mem_append.1 hy with hold | hnew
  · exact h.2 y hold hid
  · exact hsub y hnew hid

/-- **A report of what a pass has read keeps the invariant**: it covers what was reported before,
and the rows cover it. -/
theorem TotalsSound.report (h : TotalsSound env counters held s) (henv : Ordinary env)
    {items sub : List Session} (hsnap : Snapshot env held items s) (hsub : sub ⊆ items) :
    TotalsSound env counters held (exec env (.updateSessions sub) s).2 ∧
      Snapshot env held items (exec env (.updateSessions sub) s).2 := by
  have hreports := reports_updateSessions env s sub
  have hover : ∀ {id : Nat}, Over env s.clock id →
      Over env (exec env (.updateSessions sub) s).2.clock id := Over.mono (Nat.le_succ _)
  refine ⟨⟨fun r hr => ?_, fun x hx => ?_, fun n rep hn x hx => ?_, (h.tick henv).readAt⟩,
    ⟨hsnap.ids, hsnap.rows, fun x hx => ?_⟩⟩
  · have hr' := (h.rows r hr)
    refine { hr' with updatedAt := ((h.tick henv).rows r hr).updatedAt, covers := ?_ }
    rw [hreports]
    refine hr'.covers.imp hover fun hc => hc.append fun y hy hid => ?_
    -- the row of a reported session is the one the pass read, grown since
    obtain ⟨r', hrow, hid', hle⟩ := hsnap.rows y (hsub hy)
    obtain rfl := Table.eq_of_id hrow hr (hid'.trans hid)
    exact hle
  · rw [hreports, List.flatten_append, List.flatten_singleton] at hx
    rcases List.mem_append.1 hx with hold | hnew
    · exact (h.sent x hold).imp_right hover
    · obtain ⟨r, hr, hid, -⟩ := hsnap.rows x (hsub hnew)
      exact .inl ⟨r, hr, hid⟩
  · rw [hreports] at hn ⊢
    rcases Lists.getElem?_concat_cases hn with hold | ⟨rfl, rfl⟩
    · have hlen := (List.getElem?_eq_some_iff.1 hold).1
      rw [List.take_append_of_le_length (Nat.le_of_lt hlen)]
      exact (h.rising n rep hold x hx).imp_left hover
    · rw [List.take_left']
      · exact (hsnap.covers x (hsub hx)).imp_left hover
      · rfl
  · rw [hreports]
    refine (hsnap.covers x hx).imp hover fun hc => hc.append fun y hy hid => ?_
    rw [List.inj_on_of_nodup_map hsnap.ids (hsub hy) hx hid]

/-! ### A row that goes -/

/-- **Deleting the row of a session that is over keeps the invariant**, and the other sessions a
pass has read their rows. -/
theorem TotalsSound.delete (h : TotalsSound env counters held s) (henv : Ordinary env) {id : Nat}
    (hover : Over env s.clock id) : TotalsSound env counters held (execDelete env { id := id } s).2 := by
  obtain ⟨-, -, -, hkeep⟩ := execDelete_spec env id s
  have hrows : ∀ r ∈ (execDelete env { id := id } s).2.table.rows, r ∈ s.table.rows := by
    intro r hr
    rcases execDelete_cases env { id := id } s with ⟨e, he⟩ | ⟨-, he⟩
    · rwa [he] at hr
    · rw [he] at hr
      exact (Table.mem_delete.1 hr).1
  obtain ⟨T, U, hexec, -⟩ := Op.IsStatement.frame env (o := .delete { id := id }) trivial s
  have hexec' : (execDelete env { id := id } s).2 = { s.tick with table := T, usage := U } := hexec
  rw [hexec'] at hkeep hrows ⊢
  refine ⟨fun r hr => ?_, fun x hx => ?_, ?_, (h.tick henv).readAt⟩
  · exact (h.rows r (hrows r hr)).keep henv (Nat.le_succ _) (Nat.le_refl _) rfl rfl
  · rcases h.sent x hx with ⟨r, hr, hid⟩ | hx'
    · by_cases heq : r.id = id
      · exact .inr (by rw [← hid, heq]; exact hover.mono (Nat.le_succ _))
      · exact .inl ⟨r, hkeep r hr heq, hid⟩
    · exact .inr (hx'.mono (Nat.le_succ _))
  · exact fun n items hn x hx => (h.rising n items hn x hx).imp_left (Over.mono (Nat.le_succ _))

end Steps

end Dvpnd
