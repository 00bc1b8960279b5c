import Dvpnd.Node.Totals

/-!
# What the threads leave to one another's totals

Handshakes, `set_sessions` and `update_sessions` interleave as they like.  Each thread relies on
what the others leave alone:

* a `set_sessions` pass on the list it has read (`Awaited`), so the counters it stores are those of
  the peers that are there;
* an `update_sessions` pass on the rows it has read, which nobody else takes or lowers, and on
  being the only one that reports;
* a handshake on the chain's answer, which a report overtakes only for a session that has a row, or
  that is over.

`totalsContract` says so; `admitSession_sound` and `setSessions_sound` say that handshakes and
`set_sessions` keep it.
-/

namespace Dvpnd

open Effect

variable {S : Service} {env : Env S} {counters : PeerCounters} {held : Nat → Totals}
  {s s' : Node S} {i : Actor}

/-! ## The contract -/

/-- What every thread leaves to a handshake that waits for the lock: a row stays unless its session
is over, and what is reported has its row or is over. -/
structure Tracks (env : Env S) (s s' : Node S) : Prop where
  clock : s.clock ≤ s'.clock
  rows : ∀ id, HasRow s id → HasRow s' id ∨ Over env s'.clock id
  sent : ∀ x ∈ s'.reports.flatten,
    x ∈ s.reports.flatten ∨ HasRow s' x.id ∨ Over env s'.clock x.id

theorem Tracks.of_rows (hclock : s.clock ≤ s'.clock) (hrows : RowsGrow s s')
    (hreports : s'.reports = s.reports) : Tracks env s s' where
  clock := hclock
  rows _ hrow := .inl (hrows.hasRow hrow)
  sent x hx := by
    rw [hreports] at hx
    exact .inl hx

theorem Tracks.trans {s'' : Node S} (h : Tracks env s s') (h' : Tracks env s' s'') :
    Tracks env s s'' where
  clock := h.clock.trans h'.clock
  rows id hrow := by
    rcases h.rows id hrow with hmid | hover
    · exact h'.rows id hmid
    · exact .inr (hover.mono h'.clock)
  sent x hx := by
    rcases h'.sent x hx with hmid | hrest
    · rcases h.sent x hmid with hfirst | hrow | hover
      · exact .inl hfirst
      · exact .inr (h'.rows x.id hrow)
      · exact .inr (.inr (hover.mono h'.clock))
    · exact .inr hrest

/-- The chain's answer stands across what the others do. -/
theorem AnswerStands.tracks {id : Nat} {x : ChainSession} (h : AnswerStands env held id x s)
    (ht : Tracks env s s') : AnswerStands env held id x s' := by
  rcases h with ⟨hnone, hheld⟩ | hrow | hover
  · by_cases hsent : ∃ y ∈ s'.reports.flatten, y.id = id
    · -- reported since: that session has its row, or is over
      obtain ⟨y, hy, rfl⟩ := hsent
      exact .inr ((ht.sent y hy).resolve_left fun hold => hnone y hold rfl)
    · exact .inl ⟨fun y hy hid => hsent ⟨y, hy, hid⟩, hheld⟩
  · exact .inr (ht.rows id hrow)
  · exact .inr (.inr (hover.mono ht.clock))

/-- What thread `i` relies on while it does not hold the lock. -/
structure TotalsRely (env : Env S) (i : Actor) (s s' : Node S) : Prop where
  tracks : Tracks env s s'
  awaited : i = .setSessions → Awaited s s'
  rows : i = .updateSessions → RowsGrow s s'
  reports : i = .updateSessions → s'.reports = s.reports

/-- What it relies on while it does. -/
structure TotalsCalm (env : Env S) (i : Actor) (s s' : Node S) : Prop where
  tracks : Tracks env s s'
  table : s'.table = s.table
  settled : i = .setSessions → Settled s s'
  reports : i = .updateSessions → s'.reports = s.reports

/-- What it does outside the lock: only `set_sessions` reads counters, and only `update_sessions`
reports. -/
structure TotalsTick (env : Env S) (counters : PeerCounters) (held : Nat → Totals) (i : Actor)
    (s s' : Node S) : Prop where
  tracks : Tracks env s s'
  table : s'.table = s.table
  settled : i ≠ .setSessions → Settled s s'
  reports : i ≠ .updateSessions → s'.reports = s.reports
  sound : TotalsSound env counters held s'

/-- What it does under the lock: only `update_sessions` takes rows. -/
structure TotalsGuar (env : Env S) (counters : PeerCounters) (held : Nat → Totals) (i : Actor)
    (s s' : Node S) : Prop where
  tracks : Tracks env s s'
  record : i ≠ .setSessions → s'.record = s.record
  rows : i ≠ .updateSessions → RowsGrow s s'
  reports : i ≠ .updateSessions → s'.reports = s.reports
  sound : TotalsSound env counters held s'

/-- What the threads owe one another; each may count on the invariant at its own calls. -/
def totalsContract (env : Env S) (counters : PeerCounters) (held : Nat → Totals) :
    Contract Op Actor (Node S) where
  inv _ := True
  rely := TotalsRely env
  calm := TotalsCalm env
  tick := TotalsTick env counters held
  guar := TotalsGuar env counters held
  ok i o s := Accounted env counters held i o s ∧ TotalsSound env counters held s

theorem acquire_of_ne (hi : i ≠ .setSessions) : (machine env).acquire i s = s := if_neg hi

theorem TotalsCalm.rely (h : TotalsCalm env i s s') : TotalsRely env i s s' :=
  ⟨h.tracks, fun hi => (h.settled hi).awaited, fun _ => .of_table h.table, h.reports⟩

theorem totalsContract_fits (env : Env S) (counters : PeerCounters) (held : Nat → Totals) :
    (totalsContract env counters held).Fits (machine env) where
  rely_refl _ _ := ⟨.of_rows (Nat.le_refl _) (.of_table rfl) rfl, fun _ => ⟨rfl, rfl, fun _ _ => rfl⟩,
    fun _ => .of_table rfl, fun _ => rfl⟩
  rely_trans _ _ _ _ hab hbc := ⟨hab.tracks.trans hbc.tracks,
    fun hi => (hab.awaited hi).trans (hbc.awaited hi),
    fun hi => (hab.rows hi).trans (hbc.rows hi),
    fun hi => (hbc.reports hi).trans (hab.reports hi)⟩
  calm_refl _ _ := ⟨.of_rows (Nat.le_refl _) (.of_table rfl) rfl, rfl, fun _ => ⟨rfl, rfl, rfl, rfl⟩,
    fun _ => rfl⟩
  calm_trans _ _ _ _ hab hbc := ⟨hab.tracks.trans hbc.tracks, hbc.table.trans hab.table,
    fun hi => ⟨(hbc.settled hi).waiting.trans (hab.settled hi).waiting,
      (hbc.settled hi).readAt.trans (hab.settled hi).readAt,
      (hbc.settled hi).addedAt.trans (hab.settled hi).addedAt,
      (hbc.settled hi).table.trans (hab.settled hi).table⟩,
    fun hi => (hbc.reports hi).trans (hab.reports hi)⟩
  tick_rely hij ht := ⟨ht.tracks, fun hj => (ht.settled fun hi => hij (hi.trans hj.symm)).awaited,
    fun _ => .of_table ht.table, fun hj => ht.reports fun hi => hij (hi.trans hj.symm)⟩
  tick_calm hij ht := ⟨ht.tracks, ht.table, fun hj => ht.settled fun hi => hij (hi.trans hj.symm),
    fun hj => ht.reports fun hi => hij (hi.trans hj.symm)⟩
  tick_inv _ _ := trivial
  guar_rely hij hok hg := ⟨hg.tracks,
    fun hj => Awaited.of_record hok.1.1 (hg.record fun hi => hij (hi.trans hj.symm)),
    fun hj => hg.rows fun hi => hij (hi.trans hj.symm),
    fun hj => hg.reports fun hi => hij (hi.trans hj.symm)⟩
  acquire_rely {i j s} hij := by
    have htable : ((machine env).acquire i s).table = s.table := (acquire_quiet env i s).table
    by_cases hi : i = .setSessions
    · subst hi
      exact ⟨.of_rows (Nat.le_refl _) (.of_table htable) rfl, fun hj => absurd hj.symm hij,
        fun _ => .of_table htable, fun _ => rfl⟩
    · rw [acquire_of_ne hi]
      exact ⟨.of_rows (Nat.le_refl _) (.of_table rfl) rfl, fun _ => ⟨rfl, rfl, fun _ _ => rfl⟩,
        fun _ => .of_table rfl, fun _ => rfl⟩

/-! ## Calls that leave the books alone -/

/-- The call changes nothing that totals rest on. -/
structure Unchanged (s s' : Node S) : Prop where
  clock : s.clock ≤ s'.clock
  table : s'.table = s.table
  reports : s'.reports = s.reports
  addedAt : s'.addedAt = s.addedAt
  readAt : s'.readAt = s.readAt

theorem Unchanged.sound (hu : Unchanged s s') (henv : Ordinary env)
    (h : TotalsSound env counters held s) : TotalsSound env counters held s' := by
  refine h.keep henv hu.table hu.reports hu.clock hu.readAt.ge ?_ fun r _ => by rw [hu.addedAt]
  rw [hu.readAt]
  exact h.readAt.trans hu.clock

theorem Unchanged.tracks (hu : Unchanged s s') : Tracks env s s' :=
  .of_rows hu.clock (.of_table hu.table) hu.reports

theorem Unchanged.tick (hu : Unchanged s s') (henv : Ordinary env) (hwait : s'.waiting = s.waiting)
    (h : TotalsSound env counters held s) : TotalsTick env counters held i s s' :=
  ⟨hu.tracks, hu.table, fun _ => ⟨hwait, hu.readAt, hu.addedAt, hu.table⟩, fun _ => hu.reports,
    hu.sound henv h⟩

theorem Unchanged.guar (hu : Unchanged s s') (henv : Ordinary env)
    (hrec : i ≠ .setSessions → s'.record = s.record) (h : TotalsSound env counters held s) :
    TotalsGuar env counters held i s s' :=
  ⟨hu.tracks, hrec, fun _ => .of_table hu.table, fun _ => hu.reports, hu.sound henv h⟩

theorem Op.IsQuery.unchanged (env : Env S) {o : Op} (ho : o.IsQuery) (s : Node S) :
    Unchanged s (exec env o s).2 ∧ (exec env o s).2.record = s.record := by
  cases o with
  | peerCount | hasPeer _ | count _ | find _ _ | queryAllocation _ _ | querySession _
  | querySubscription _ =>
      exact ⟨⟨Nat.le_succ _, rfl, exec_reports env s id, rfl, rfl⟩, rfl⟩
  | _ => exact absurd ho id

theorem unchanged_removePeer (env : Env S) (site : CallSite) (data : List UInt8) (s : Node S) :
    Unchanged s (execRemovePeer env site data s).2 := ⟨Nat.le_succ _, rfl, rfl, rfl, rfl⟩

section Threads

variable (env counters held)

/-- Questions outside the lock, with what the others keep. -/
theorem queries_safe (henv : Ordinary env) {α : Type} {A : Node S → Prop} {R : α → Prop}
    (hA : ∀ {t t' : Node S}, TotalsRely env i t t' → A t → A t')
    (hQ : ∀ {t t' : Node S}, Unchanged t t' → A t → A t') {p : NodeM α}
    (hp : Prog.Plain Op.IsQuery p) (hy : Prog.Yields R p) (hs : A s) :
    Safe (machine env) (totalsContract env counters held) i (fun a b t => b = false ∧ R a ∧ A t) p
      false s := by
  refine Safe.of_plain (A := A) (P := Op.IsQuery) (R := R) ?_ ?_ ?_ hp hy hs
  · exact fun _ _ hr ht => hA hr ht
  · intro o t ho hok ht
    obtain ⟨hu, hrec⟩ := ho.unchanged env t
    exact ⟨hu.tick henv (congrArg Prod.fst hrec) hok.2, hQ hu ht⟩
  · exact fun _ _ hy ht => ⟨rfl, hy, ht⟩

/-! ## A handshake -/

/-- What an admission carries from the chain to the lock. -/
structure Grounded (env : Env S) (held : Nat → Totals) (req : AdmitRequest) (a : Admission)
    (s : Node S) : Prop where
  upload : Modest a.session.uploadBytes
  download : Modest a.session.downloadBytes
  duration : Modest a.session.duration.toInt
  answer : AnswerStands env held req.id a.session s

variable {req : AdmitRequest} {a : Admission}

variable {env counters held} in
theorem Grounded.tracks (h : Grounded env held req a s) (ht : Tracks env s s') :
    Grounded env held req a s' :=
  { h with answer := h.answer.tracks ht }

variable {env counters held} in
/-- The chain's answer about a session stands when it is given. -/
theorem answerStands_of_query {id : Nat} {x : ChainSession} (h : TotalsSound env counters held s)
    (hstill : HoldsStill held s id (.ok (some x))) : AnswerStands env held id x s := by
  by_cases hsent : ∃ y ∈ s.reports.flatten, y.id = id
  · obtain ⟨y, hy, rfl⟩ := hsent
    exact .inr (h.sent y hy)
  · have hnone : ∀ y ∈ s.reports.flatten, y.id ≠ id := fun y hy hid => hsent ⟨y, hy, hid⟩
    exact .inl ⟨hnone, hstill hnone⟩

/-- The plan's answers do not change the session's. -/
theorem queryPlan_session (req : AdmitRequest) (a : Admission) (id : Nat) :
    Prog.Yields (fun r => ∀ a', r = .ok a' → a'.session = a.session) (queryPlan req a id) := by
  refine .perform_bind fun r => ?_
  rcases r with e | (_ | subscription)
  · rintro a' ⟨⟩
  · rintro a' ⟨⟩
  · dsimp only
    split
    · rintro a' ⟨⟩
    · refine .perform_bind fun r => ?_
      rcases r with e | (_ | alloc)
      · rintro a' ⟨⟩
      · rintro a' ⟨⟩
      · rintro a' ⟨⟩
        rfl

theorem queryAdmission_grounded (henv : Ordinary env) (cfg : Config) (req : AdmitRequest)
    (s : Node S) :
    Safe (machine env) (totalsContract env counters held) i
      (fun r b t => b = false ∧ ∀ a, r = .ok a → Grounded env held req a t)
      (queryAdmission cfg req) false s := by
  have hrefuse : ∀ {e : ApiError} {t : Node S},
      Safe (machine env) (totalsContract env counters held) i
        (fun (r : Except ApiError Admission) b t => b = false ∧
          ∀ a, r = .ok a → Grounded env held req a t)
        (Prog.ret (.error e)) false t := by
    refine fun _ _ => ⟨rfl, ?_⟩
    rintro a ⟨⟩
  refine Safe.perform_bind fun s₁ _ hok => ?_
  obtain ⟨hu, hrec⟩ := Op.IsQuery.unchanged env (o := .querySession req.id) trivial s₁
  refine ⟨hu.tick henv (congrArg Prod.fst hrec) hok.2, ?_⟩
  have hstill : HoldsStill held s₁ req.id (env.querySession s₁.clock req.id) := hok.1.2
  cases hx : ((machine env).exec (.querySession req.id) s₁).1 with
  | error e => exact hrefuse
  | ok answer =>
      have hx' : env.querySession s₁.clock req.id = .ok answer := hx
      cases answer with
      | none => exact hrefuse
      | some session =>
          rw [hx'] at hstill
          obtain ⟨hup, hdown, hdur⟩ := henv.session hx'
          have hstands := (answerStands_of_query hok.2 hstill).tracks hu.tracks
          have hground : ∀ {a : Admission} {t : Node S}, a.session = session →
              AnswerStands env held req.id session t → Grounded env held req a t := by
            rintro a t rfl ht
            exact ⟨hup, hdown, hdur, ht⟩
          dsimp only
          split
          · exact hrefuse
          split
          · exact hrefuse
          split
          · exact hrefuse
          cases sessionCap session with
          | error e => exact hrefuse
          | ok cap =>
              dsimp only
              cases session.subscription with
              | none =>
                  refine fun t hr => ⟨rfl, ?_⟩
                  rintro a ⟨⟩
                  exact hground rfl (hstands.tracks hr.tracks)
              | some id =>
                  refine Safe.mono ?_ (queries_safe env counters held henv
                    (fun hr ht => AnswerStands.tracks ht hr.tracks)
                    (fun hu ht => AnswerStands.tracks ht hu.tracks)
                    (queryPlan_queries req _ id) (queryPlan_session req _ id) hstands)
                  rintro r b t ⟨rfl, hsession, ht⟩
                  exact ⟨rfl, fun a ha => hground (hsession a ha) ht⟩

/-- Under the lock a handshake knows the table, and the chain's answer stands. -/
theorem grounded_steady (henv : Ordinary env) (req : AdmitRequest) (a : Admission) (n : Nat)
    (T : Table) :
    Steady env (totalsContract env counters held) (.handshake n) T
      (fun t => t.table = T ∧ Grounded env held req a t) where
  fits := totalsContract_fits env counters held
  table ht := ht.1
  calm hcalm ht := ⟨hcalm.table.trans ht.1, ht.2.tracks hcalm.tracks⟩
  query {_ t} ho hok ht := by
    obtain ⟨hu, hrec⟩ := ho.unchanged env t
    exact ⟨hu.guar henv (fun _ => hrec) hok.2, hu.table.trans ht.1, ht.2.tracks hu.tracks⟩

/-- The calls by which `admit` and `retire` drop a peer. -/
def Op.Drops : Op → Prop
  | .hasPeer _ | .removePeer .eviction _ | .removePeer .rollback _
  | .removePeer .retirement _ => True
  | _ => False

theorem Op.Drops.guar (henv : Ordinary env) {o : Op} (ho : o.Drops)
    (h : TotalsSound env counters held s) :
    TotalsGuar env counters held i s (exec env o s).2 ∧ Unchanged s (exec env o s).2 := by
  have hrecord : o.Unmetered → i ≠ .setSessions → (exec env o s).2.record = s.record :=
    fun hm _ => hm.record env s
  cases o with
  | hasPeer data =>
      obtain ⟨hu, hrec⟩ := Op.IsQuery.unchanged env (o := .hasPeer data) trivial s
      exact ⟨hu.guar henv (fun _ => hrec) h, hu⟩
  | removePeer site data =>
      have hu := unchanged_removePeer env site data s
      refine ⟨hu.guar henv (hrecord ?_) h, hu⟩
      cases site with
      | eviction | rollback | retirement => trivial
      | _ => exact absurd ho id
  | _ => exact absurd ho id

/-- Dropping peers under the lock, with what the others and an unchanged state keep. -/
theorem drops_safe (henv : Ordinary env) {α : Type} {A : Node S → Prop}
    (hA : ∀ {t t' : Node S}, TotalsCalm env i t t' → A t → A t')
    (hU : ∀ {t t' : Node S}, Unchanged t t' → A t → A t') {p : NodeM α}
    (hp : Prog.Plain Op.Drops p) (hs : A s) :
    Safe (machine env) (totalsContract env counters held) i (fun _ b t => b = true ∧ A t) p true
      s := by
  refine Safe.of_plain (P := Op.Drops) (R := fun _ => True) (A := A) ?_ ?_ ?_ hp
    (Prog.Yields.of_forall (fun _ => trivial) _) hs
  · exact fun _ _ hcalm ht => hA hcalm ht
  · intro o t ho hok ht
    obtain ⟨hguar, hu⟩ := ho.guar env counters held henv hok.2
    exact ⟨hguar, hU hu ht⟩
  · exact fun _ _ _ ht => ⟨rfl, ht⟩

/-- **Adding and recording a peer keeps the invariant.** -/
theorem addAndRecord_sound (henv : Ordinary env) (n : Nat) {T : Table} (hnew : NewTo req T)
    {available : Int64} (hs : s.table = T ∧ Grounded env held req a s) :
    Safe (machine env) (totalsContract env counters held) (.handshake n) (fun _ b _ => b = true)
      (addAndRecord req a available) true s := by
  have hsteady := grounded_steady env counters held henv req a n T
  refine Safe.perform_bind fun s₁ hcalm₁ hok₁ => ?_
  obtain ⟨ht₁, hg₁⟩ := hsteady.calm hcalm₁ hs
  have hsound₁ : TotalsSound env counters held (execAddPeer env req.peerData s₁).2 :=
    hok₁.2.addPeer henv fun r hr => hnew.key r (ht₁ ▸ hr)
  have htable : (execAddPeer env req.peerData s₁).2.table = s₁.table :=
    Op.KeepsTable.table env (o := .addPeer req.peerData) trivial s₁
  have hreports₁ : (execAddPeer env req.peerData s₁).2.reports = s₁.reports :=
    exec_reports env s₁ (o := .addPeer req.peerData) id
  have htracks : Tracks env s₁ (execAddPeer env req.peerData s₁).2 :=
    .of_rows (exec_clock env (.addPeer req.peerData) s₁ ▸ Nat.le_succ _) (.of_table htable)
      hreports₁
  refine ⟨⟨htracks, fun _ => Op.Unmetered.record env (o := .addPeer req.peerData) trivial s₁,
    fun _ => .of_table htable, fun _ => hreports₁, hsound₁⟩, ?_⟩
  cases ((machine env).exec (.addPeer req.peerData) s₁).1 with
  | error e => exact fun _ _ => rfl
  | ok peer =>
      refine Safe.perform_bind fun s₂ hcalm₂ hok₂ => ?_
      obtain ⟨ht₂, hg₂⟩ := hsteady.calm hcalm₂ ⟨htable.trans ht₁, hg₁.tracks htracks⟩
      obtain ⟨hsound₂, hgrow₂⟩ := hok₂.2.create henv available (ht₂ ▸ hnew) hg₂.upload hg₂.download
        hg₂.duration hg₂.answer
      have hreports₂ := exec_reports env s₂ (o := .create (admittedRow req a available)) id
      refine ⟨⟨.of_rows (exec_clock env _ s₂ ▸ Nat.le_succ _) hgrow₂ hreports₂,
        fun _ => Op.Unmetered.record env (o := .create _) trivial s₂, fun _ => hgrow₂,
        fun _ => hreports₂, hsound₂⟩, ?_⟩
      cases ((machine env).exec (.create (admittedRow req a available)) s₂).1 with
      | none => exact fun _ _ => rfl
      | some e =>
          refine Safe.perform_bind fun s₃ _ hok₃ => ⟨?_, fun _ _ => rfl⟩
          exact (Op.Drops.guar env counters held henv (o := .removePeer .rollback req.peerData)
            trivial hok₃.2).1

theorem admitLocked_sound (henv : Ordinary env) (cfg : Config) (n : Nat)
    (hs : Grounded env held req a s) :
    Safe (machine env) (totalsContract env counters held) (.handshake n) (fun _ b _ => b = true)
      (admitLocked cfg req a) true s := by
  have hfits := totalsContract_fits env counters held
  have hsteady := grounded_steady env counters held henv req a n s.table
  refine Safe.bind (Safe.mono ?_ (hsteady.checkCapacity cfg ⟨rfl, hs⟩)) hfits
  rintro r b t ⟨rfl, ht, hnew⟩
  cases r with
  | some e => exact fun _ _ => rfl
  | none =>
      refine Safe.bind (Safe.mono ?_ (hsteady.queries (remainingBytes_queries req a) ht)) hfits
      rintro r b t₁ ⟨rfl, ht₁⟩
      cases r with
      | error e => exact fun _ _ => rfl
      | ok available =>
          refine hsteady.ask (o := .find (accountRows req a) none) trivial ht₁ fun t₂ _ t₃ ht₃ => ?_
          cases (exec env (.find (accountRows req a) none) t₂).1 with
          | error e => exact fun _ _ => rfl
          | ok items =>
              refine Safe.bind (Safe.mono ?_ (drops_safe env counters held henv hsteady.calm
                (fun hu ht => ⟨hu.table.trans ht.1, ht.2.tracks hu.tracks⟩)
                (evict_plain (fun _ => trivial) (fun _ => trivial) items) ht₃)) hfits
              rintro r b t₄ ⟨rfl, ht₄⟩
              cases r with
              | some e => exact fun _ _ => rfl
              | none => exact addAndRecord_sound env counters held henv n (hnew rfl) ht₄

/-- **A handshake keeps the contract.** -/
theorem admitSession_sound (henv : Ordinary env) (cfg : Config) (n : Nat) (req : AdmitRequest)
    (s : Node S) :
    Safe (machine env) (totalsContract env counters held) (.handshake n) (fun _ b _ => b = false)
      (admitSession cfg req) false s := by
  have hfits := totalsContract_fits env counters held
  refine Safe.bind (Safe.mono ?_ (queries_safe env counters held (A := fun _ => True)
    (R := fun _ => True) henv (fun _ h => h) (fun _ h => h) (checkCapacity_queries cfg req)
    (Prog.Yields.of_forall (fun _ => trivial) _) trivial)) hfits
  rintro r b t ⟨rfl, -, -⟩
  cases r with
  | some e => exact fun _ _ => rfl
  | none =>
      refine Safe.bind (Safe.mono ?_ (queryAdmission_grounded env counters held henv cfg req t)) hfits
      rintro r b t₁ ⟨rfl, hground⟩
      cases r with
      | error e => exact fun _ _ => rfl
      | ok a =>
          refine Safe.withLock hfits (fun t₂ hr₂ _ => ?_) (fun _ _ _ h => h)
            fun hcalm => TotalsCalm.rely hcalm
          rw [acquire_of_ne (i := .handshake n) nofun]
          refine Safe.mono ?_ (admitLocked_sound env counters held henv cfg n
            ((hground a rfl).tracks hr₂.tracks))
          exact fun _ _ _ hb => ⟨hb, trivial, fun _ _ => rfl⟩

/-! ## A `set_sessions` pass -/

/-- The counters the pass has read are those of the peers that are there. -/
def ReadsPeers (counters : PeerCounters) (peers : List Peer) (s : Node S) : Prop :=
  ∀ p ∈ peers, (p.upload.toInt, p.download.toInt) =
    counters.read p.key (s.addedAt p.key) s.readAt

variable {counters} in
theorem ReadsPeers.settled {peers : List Peer} (h : ReadsPeers counters peers s) (hs : Settled s s') :
    ReadsPeers counters peers s' := by
  intro p hp
  rw [hs.addedAt, hs.readAt]
  exact h p hp

variable {counters} in
theorem ReadsPeers.unchanged {peers : List Peer} (h : ReadsPeers counters peers s) (hu : Unchanged s s') :
    ReadsPeers counters peers s' := by
  intro p hp
  rw [hu.addedAt, hu.readAt]
  exact h p hp

/-- A removal by the pass, for whatever reason. -/
theorem removePeer_reads (henv : Ordinary env) {peers : List Peer} (site : CallSite) (key : Key)
    (h : ReadsPeers counters peers s) :
    Safe (machine env) (totalsContract env counters held) .setSessions
      (fun _ b t => b = true ∧ ReadsPeers counters peers t) (removePeer site key) true s := by
  obtain ⟨data, hdec, rfl⟩ := key.decode
  unfold removePeer
  rw [hdec]
  refine Safe.perform_bind fun s₁ hcalm hok => ?_
  have hu := unchanged_removePeer env site data s₁
  refine ⟨hu.guar henv (fun hi => absurd rfl hi) hok.2, fun t ht => ⟨rfl, ?_⟩⟩
  exact ((h.settled (hcalm.settled rfl)).unchanged hu).settled (ht.settled rfl)

theorem enforceCap_reads (henv : Ordinary env) {peers : List Peer} (item : Session) (peer : Peer)
    (h : ReadsPeers counters peers s) :
    Safe (machine env) (totalsContract env counters held) .setSessions
      (fun _ b t => b = true ∧ ReadsPeers counters peers t) (enforceCap item peer) true s := by
  unfold enforceCap
  dsimp only
  split
  · refine Safe.bind (Safe.mono ?_ (removePeer_reads env counters held henv .exceeded item.key h))
      (totalsContract_fits env counters held)
    rintro r b t ⟨rfl, ht⟩
    cases r with
    | none => exact fun t' ht' => ⟨rfl, ht.settled (ht'.settled rfl)⟩
    | some e => exact fun t' ht' => ⟨rfl, ht.settled (ht'.settled rfl)⟩
  · exact fun t ht => ⟨rfl, h.settled (ht.settled rfl)⟩

/-- Storing what a peer has used raises its row. -/
theorem storeUsage_reads (henv : Ordinary env) {peers : List Peer} {item : Session} {peer : Peer}
    (hrow : item ∈ s.table.rows) (hpeer : peer ∈ peers) (hkey : item.key = peer.key)
    (h : ReadsPeers counters peers s) :
    Safe (machine env) (totalsContract env counters held) .setSessions
      (fun _ b t => b = true ∧ ReadsPeers counters peers t) (storeUsage item peer) true s := by
  have hfits := totalsContract_fits env counters held
  unfold storeUsage
  dsimp only [reportedUsage]
  split
  · exact fun t ht => ⟨rfl, h.settled (ht.settled rfl)⟩
  · refine Safe.perform_bind fun s₁ hcalm hok => ?_
    have hread := h.settled (hcalm.settled rfl)
    obtain ⟨hsound, hgrow⟩ := hok.2.updates henv (p := peer) (by rw [hcalm.table]; exact hrow)
      (by rw [hkey]; exact hread peer hpeer)
    have hreports := exec_reports env s₁ (o := .updates { id := item.id }
      (item.baseUpload + peer.upload) (item.baseDownload + peer.download)) id
    obtain ⟨T, U, hframe, -⟩ := Op.IsStatement.frame env (o := .updates { id := item.id }
      (item.baseUpload + peer.upload) (item.baseDownload + peer.download)) trivial s₁
    refine ⟨⟨.of_rows (exec_clock env _ s₁ ▸ Nat.le_succ _) hgrow hreports,
      fun hi => absurd rfl hi, fun _ => hgrow, fun _ => hreports, hsound⟩, ?_⟩
    have hread' : ReadsPeers counters peers (exec env (.updates { id := item.id }
        (item.baseUpload + peer.upload) (item.baseDownload + peer.download)) s₁).2 := by
      rw [hframe]
      exact hread
    refine Safe.bind (Safe.mono ?_ (enforceCap_reads env counters held henv item peer hread')) hfits
    rintro r b t ⟨rfl, ht⟩
    exact fun t' ht' => ⟨rfl, ht.settled (ht'.settled rfl)⟩

/-- One turn of the loop. -/
theorem setSession_reads (henv : Ordinary env) {peers : List Peer} {peer : Peer}
    (hpeer : peer ∈ peers) (h : ReadsPeers counters peers s) :
    Safe (machine env) (totalsContract env counters held) .setSessions
      (fun _ b t => b = true ∧ ReadsPeers counters peers t) (setSession peer) true s := by
  refine Safe.perform_bind fun s₁ hcalm hok => ?_
  obtain ⟨hu, -⟩ := Op.IsQuery.unchanged env (o := .find { key := peer.key } (some 1)) trivial s₁
  refine ⟨hu.guar henv (fun hi => absurd rfl hi) hok.2, ?_⟩
  have hread := (h.settled (hcalm.settled rfl)).unchanged hu
  cases hf : ((machine env).exec (.find { key := peer.key } (some 1)) s₁).1 with
  | error e => exact fun t ht => ⟨rfl, hread.settled (ht.settled rfl)⟩
  | ok items =>
      cases items with
      | nil =>
          refine Safe.bind (Safe.mono ?_
            (removePeer_reads env counters held henv .unknown peer.key hread))
            (totalsContract_fits env counters held)
          rintro r b t ⟨rfl, ht⟩
          cases r with
          | none => exact fun t' ht' => ⟨rfl, ht.settled (ht'.settled rfl)⟩
          | some e => exact fun t' ht' => ⟨rfl, ht.settled (ht'.settled rfl)⟩
      | cons item rest =>
          obtain ⟨hrow, hkey⟩ := found_by_key hf
          exact storeUsage_reads env counters held henv (hu.table.symm ▸ hrow) hpeer hkey hread

theorem setEach_reads (henv : Ordinary env) {peers : List Peer} (rest : List Peer) :
    ∀ {s : Node S}, rest ⊆ peers → ReadsPeers counters peers s →
      Safe (machine env) (totalsContract env counters held) .setSessions
        (fun _ b t => b = true ∧ ReadsPeers counters peers t) (setEach rest) true s := by
  have hfits := totalsContract_fits env counters held
  induction rest with
  | nil => exact fun _ h t ht => ⟨rfl, h.settled (ht.settled rfl)⟩
  | cons peer rest ih =>
      intro s hsub h
      have hpeer : peer ∈ peers := hsub List.mem_cons_self
      refine Safe.bind (Safe.mono ?_ (setSession_reads env counters held henv hpeer h)) hfits
      rintro errs b t ⟨rfl, ht⟩
      refine Safe.bind (Safe.mono ?_
        (ih (fun p hp => hsub (List.mem_cons_of_mem _ hp)) ht)) hfits
      rintro more b t' ⟨rfl, ht'⟩
      exact fun t'' ht'' => ⟨rfl, ht'.settled (ht''.settled rfl)⟩

/-- **A `set_sessions` pass keeps the contract.** -/
theorem setSessions_sound (henv : Ordinary env) (s : Node S) :
    Safe (machine env) (totalsContract env counters held) .setSessions (fun _ b _ => b = false)
      setSessions false s := by
  have hfits := totalsContract_fits env counters held
  refine Safe.perform_bind fun s₁ _ hok => ?_
  have hsound : TotalsSound env counters held (execPeers env s₁).2 :=
    hok.2.keep henv rfl rfl (Nat.le_succ _) hok.2.readAt (Nat.le_succ _) fun _ _ => rfl
  refine ⟨⟨.of_rows (Nat.le_succ _) (.of_table rfl) rfl, rfl, fun hi => absurd rfl hi, fun _ => rfl,
    hsound⟩, ?_⟩
  have hcounters : CountersAre counters s₁ (env.peers s₁.clock) := hok.1.2
  cases hp : ((machine env).exec .peers s₁).1 with
  | error e => exact fun _ _ => rfl
  | ok peers =>
      have hpeers : env.peers s₁.clock = .ok peers := hp
      have hwait : (execPeers env s₁).2.waiting = some (peers.map Peer.key) := by
        simp only [execPeers, hpeers]
      rw [hpeers] at hcounters
      refine Safe.withLock hfits (fun s₂ hr₂ _ => ?_) (fun _ _ _ h => h)
        fun hcalm => TotalsCalm.rely hcalm
      -- while the pass waited, no peer on its list was added again
      have hread : ReadsPeers counters peers s₂ := by
        intro p hp
        have haw := hr₂.awaited rfl
        have hadded : s₂.addedAt p.key = s₁.addedAt p.key := haw.addedAt p.key (by
          show p.key ∈ (execPeers env s₁).2.waiting.getD []
          rw [hwait]
          exact List.mem_map_of_mem hp)
        rw [hadded, show s₂.readAt = s₁.clock from haw.readAt]
        exact hcounters p hp
      refine Safe.mono ?_ (setEach_reads env counters held henv peers (List.Subset.refl _) hread)
      rintro errs b t ⟨rfl, -⟩
      exact ⟨rfl, trivial, fun _ _ => rfl⟩

end Threads

end Dvpnd
