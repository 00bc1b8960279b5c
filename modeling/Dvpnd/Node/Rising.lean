import Dvpnd.Node.Books

/-!
# Reports that never fall

`updateSessions` (`node/jobs.go`) reports rows it has read some time before.  In between it takes
rows, but only of sessions the chain has ended (`checkSession_warranted`), and drops those from
what it reports.

`reports_rise` draws the conclusion: **no report is lower than what the chain held, or than any
report before it**, and neither is a row, which is what a restart reports.
-/

namespace Dvpnd

open Effect

variable {S : Service} {env : Env S} {counters : PeerCounters} {held : Nat → Totals}
  {s s' : Node S} {items : List Session}

section Threads

variable (env counters held)

/-! ## An `update_sessions` pass -/

variable {env held} in
theorem Snapshot.rely (h : Snapshot env held items s) (hr : TotalsRely env .updateSessions s s') :
    Snapshot env held items s' :=
  h.keep (hr.rows rfl) (hr.reports rfl) hr.tracks.clock

variable {env held} in
theorem Snapshot.unchanged (h : Snapshot env held items s) (hu : Unchanged s s') :
    Snapshot env held items s' :=
  h.keep (.of_table hu.table) hu.reports hu.clock

/-- What the check of a session says about taking its row: then it is not reported either, and it
is over. -/
def Warranted (env : Env S) (item : Session) (r : Option Check) (s : Node S) : Prop :=
  ∀ c, r = some c → c.removeSession = true → c.skipUpdate = true ∧ Over env s.clock item.id

variable {env} in
theorem Warranted.mono {item : Session} {r : Option Check} (h : Warranted env item r s)
    (hclock : s.clock ≤ s'.clock) : Warranted env item r s' := fun c hc hremove =>
  ⟨(h c hc hremove).1, (h c hc hremove).2.mono hclock⟩

/-- The subscription's record asks for the row of a lapsed one. -/
theorem subscriptionVerdict_removes {c : Check} {o : Option Subscription}
    (h : (subscriptionVerdict c o).removeSession = true) :
    (lapsed (.ok o) = true ∧ (subscriptionVerdict c o).skipUpdate = true) ∨
      (c.removeSession = true ∧ (subscriptionVerdict c o).skipUpdate = c.skipUpdate) := by
  cases o with
  | none => exact .inl ⟨rfl, rfl⟩
  | some subscription =>
      unfold subscriptionVerdict at h ⊢
      dsimp only at h ⊢
      split at h
      · rename_i hactive
        rw [if_pos hactive]
        exact .inr ⟨h, rfl⟩
      · rename_i hactive
        rw [if_neg hactive]
        split at h
        · rename_i hinactive
          rw [if_pos hinactive]
          exact .inl ⟨by simp [lapsed, hinactive], rfl⟩
        · rename_i hinactive
          rw [if_neg hinactive]
          exact .inr ⟨h, rfl⟩

/-- **A row is only taken when the chain has ended its session.** -/
theorem checkSession_warranted (henv : Ordinary env) (item : Session)
    (h : Snapshot env held items s) :
    Safe (machine env) (totalsContract env counters held) .updateSessions
      (fun r b t => b = false ∧ Snapshot env held items t ∧ Warranted env item r t)
      (checkSession item) false s := by
  have hret : ∀ {r : Option Check} {t : Node S}, Snapshot env held items t →
      Warranted env item r t →
      Safe (machine env) (totalsContract env counters held) .updateSessions
        (fun r b t => b = false ∧ Snapshot env held items t ∧ Warranted env item r t)
        (Prog.ret r) false t :=
    fun ht hw _ hr => ⟨rfl, ht.rely hr, hw.mono hr.tracks.clock⟩
  refine Safe.perform_bind fun s₁ hr₁ hok₁ => ?_
  obtain ⟨hu₁, hrec₁⟩ := Op.IsQuery.unchanged env (o := .querySession item.id) trivial s₁
  refine ⟨hu₁.tick henv (congrArg Prod.fst hrec₁) hok₁.2, ?_⟩
  have hsnap := (h.rely hr₁).unchanged hu₁
  have hnow : s₁.clock < (exec env (.querySession item.id) s₁).2.clock := Nat.lt_succ_self _
  cases hx : ((machine env).exec (.querySession item.id) s₁).1 with
  | error e => exact hret hsnap (by rintro c ⟨⟩ ⟨⟩)
  | ok answer =>
      have hx' : env.querySession s₁.clock item.id = .ok answer := hx
      cases answer with
      | none =>
          refine hret hsnap ?_
          rintro c ⟨⟩ -
          exact ⟨rfl, s₁.clock, hnow, .inl (by rw [hx']; rfl)⟩
      | some session =>
          -- the session's own record asks for the row only when it is inactive
          have hown : ∀ (same : Bool) {t : Node S},
              (exec env (.querySession item.id) s₁).2.clock ≤ t.clock →
              (sessionVerdict item session same).removeSession = true →
              (sessionVerdict item session same).skipUpdate = true ∧ Over env t.clock item.id := by
            intro same t ht hremove
            have hstatus : (session.status == .inactive) = true := hremove
            exact ⟨by simp [sessionVerdict, hstatus], s₁.clock, hnow.trans_le ht,
              .inl (by rw [hx']; exact hstatus)⟩
          dsimp only
          cases sameTotals item session with
          | none => exact hret hsnap (by rintro c ⟨⟩)
          | some same =>
              dsimp only
              cases hsub : session.subscription with
              | none =>
                  refine hret hsnap ?_
                  rintro c ⟨⟩ hremove
                  exact hown same (Nat.le_refl _) hremove
              | some id =>
                  refine Safe.perform_bind fun s₂ hr₂ hok₂ => ?_
                  obtain ⟨hu₂, hrec₂⟩ := Op.IsQuery.unchanged env (o := .querySubscription id)
                    trivial s₂
                  refine ⟨hu₂.tick henv (congrArg Prod.fst hrec₂) hok₂.2, ?_⟩
                  have hsnap₂ := (hsnap.rely hr₂).unchanged hu₂
                  have hlater := hr₂.tracks.clock.trans hu₂.clock
                  cases hy : ((machine env).exec (.querySubscription id) s₂).1 with
                  | error e =>
                      refine hret hsnap₂ ?_
                      rintro c ⟨⟩ hremove
                      exact ⟨rfl, (hown same hlater hremove).2⟩
                  | ok o =>
                      have hy' : env.querySubscription s₂.clock id = .ok o := hy
                      refine hret hsnap₂ ?_
                      rintro c ⟨⟩ hremove
                      rcases subscriptionVerdict_removes hremove with ⟨hlapsed, hskip⟩ | ⟨hc, hskip⟩
                      · refine ⟨hskip, s₁.clock, hnow.trans_le hlater,
                          .inr ⟨session, id, hx', hsub, s₂.clock, Nat.lt_succ_self _, ?_⟩⟩
                        rw [hy']
                        exact hlapsed
                      · rw [hskip]
                        exact hown same hlater hc

/-- Taking the row of a session that is over leaves the other sessions theirs. -/
theorem delete_sound (henv : Ordinary env) {item : Session} {rest : List Session}
    (h : TotalsSound env counters held s) (hsnap : Snapshot env held rest s)
    (hover : Over env s.clock item.id) (hrest : ∀ x ∈ rest, x.id ≠ item.id) :
    TotalsGuar env counters held .updateSessions s (execDelete env { id := item.id } s).2 ∧
      Snapshot env held rest (execDelete env { id := item.id } s).2 := by
  obtain ⟨-, -, -, hkeep⟩ := execDelete_spec env item.id s
  have hreports : (execDelete env { id := item.id } s).2.reports = s.reports :=
    exec_reports env s (o := .delete { id := item.id }) id
  have hclock : s.clock ≤ (execDelete env { id := item.id } s).2.clock :=
    exec_clock env (.delete { id := item.id }) s ▸ Nat.le_succ _
  refine ⟨⟨⟨hclock, fun id hrow => ?_, fun x hx => ?_⟩,
    fun _ => Op.Unmetered.record env (o := .delete { id := item.id }) trivial s,
    fun hi => absurd rfl hi, fun hi => absurd rfl hi, h.delete henv hover⟩,
    ⟨hsnap.ids, fun x hx => ?_, fun x hx => ?_⟩⟩
  · obtain ⟨r, hr, rfl⟩ := hrow
    by_cases heq : r.id = item.id
    · exact .inr (by rw [heq]; exact hover.mono hclock)
    · exact .inl ⟨r, hkeep r hr heq, rfl⟩
  · rw [hreports] at hx
    exact .inl hx
  · obtain ⟨r, hr, hid, hle⟩ := hsnap.rows x hx
    exact ⟨r, hkeep r hr (by rw [hid]; exact hrest x hx), hid, hle⟩
  · rw [hreports]
    exact (hsnap.covers x hx).imp_left (Over.mono hclock)

/-- `retire` takes a row only of a session that is over, and keeps what the pass will report. -/
theorem retire_sound (henv : Ordinary env) {item : Session} {rest : List Session} (rp rs : Bool)
    (hover : rs = true → Over env s.clock item.id) (hrest : rs = true → ∀ x ∈ rest, x.id ≠ item.id)
    (h : Snapshot env held rest s) :
    Safe (machine env) (totalsContract env counters held) .updateSessions
      (fun _ b t => b = false ∧ Snapshot env held rest t) (retire item rp rs) false s := by
  have hfits := totalsContract_fits env counters held
  refine Safe.withLock hfits (fun s₁ hr₁ _ => ?_) (fun _ _ _ h => h)
    fun hcalm => TotalsCalm.rely hcalm
  rw [acquire_of_ne (i := .updateSessions) nofun]
  have hpeer : Prog.Plain Op.Drops
      (if rp then removePeerIfExists .retirement item.key else return none) := by
    split
    · exact removePeerIfExists_plain (fun _ => trivial) (fun _ => trivial) _
    · exact .ret _
  refine Safe.bind (Safe.mono ?_ (drops_safe env counters held henv
    (A := fun t => Snapshot env held rest t ∧ (rs = true → Over env t.clock item.id))
    (fun hcalm ht => ⟨ht.1.rely hcalm.rely, fun hrs => (ht.2 hrs).mono hcalm.tracks.clock⟩)
    (fun hu ht => ⟨ht.1.unchanged hu, fun hrs => (ht.2 hrs).mono hu.clock⟩) hpeer
    ⟨h.rely hr₁, fun hrs => (hover hrs).mono hr₁.tracks.clock⟩)) hfits
  rintro r b t ⟨rfl, hsnap, hover'⟩
  have hend : ∀ {e : Option Err}, Safe (machine env) (totalsContract env counters held)
      .updateSessions (fun _ b t => b = true ∧ True ∧ ∀ t', TotalsRely env .updateSessions t t' →
        false = false ∧ Snapshot env held rest t') (Prog.ret e) true t :=
    fun t' hcalm => ⟨rfl, trivial, fun _ hr => ⟨rfl, (hsnap.rely hcalm.rely).rely hr⟩⟩
  cases r with
  | some e => exact hend
  | none =>
      cases rs with
      | false => exact hend
      | true =>
          refine fun t₁ hcalm hok => ?_
          obtain ⟨hguar, hsnap'⟩ := delete_sound env counters held henv hok.2
            (hsnap.rely hcalm.rely) ((hover' rfl).mono hcalm.tracks.clock) (hrest rfl)
          exact ⟨hguar, fun t₂ hcalm₂ => ⟨rfl, trivial,
            fun _ hr => ⟨rfl, (hsnap'.rely hcalm₂.rely).rely hr⟩⟩⟩

/-- The loop of `updateSessions`: what it leaves to be reported is still good. -/
theorem sweep_sound (henv : Ordinary env) : ∀ (n : Nat) (items : List Session) (errs : List Err)
    (s : Node S), Snapshot env held items s →
      Safe (machine env) (totalsContract env counters held) .updateSessions
        (fun r b t => b = false ∧ ∀ left errs', r = some (left, errs') → Snapshot env held left t)
        (sweep n items errs) false s := by
  have hfits := totalsContract_fits env counters held
  intro n
  induction n with
  | zero =>
      intro items errs s h t hr
      refine ⟨rfl, ?_⟩
      rintro left errs' ⟨⟩
      exact h.rely hr
  | succ n ih =>
      intro items errs s h
      unfold sweep
      cases hget : items[n]? with
      | none => exact fun _ _ => ⟨rfl, by rintro left errs' ⟨⟩⟩
      | some item =>
          refine Safe.bind (Safe.mono ?_ (checkSession_warranted env counters held henv item h)) hfits
          rintro r b t ⟨rfl, hsnap, hwarrant⟩
          cases r with
          | none => exact fun _ _ => ⟨rfl, by rintro left errs' ⟨⟩⟩
          | some c =>
              -- what stays on the list is part of it, without the item if its row goes
              dsimp only
              generalize hlist : (if c.skipUpdate || c.err.isSome then items.eraseIdx n
                else items) = rest
              have hsub : rest.Sublist items := by
                rw [← hlist]
                split
                · exact List.eraseIdx_sublist ..
                · exact List.Sublist.refl _
              have hrest : c.removeSession = true → ∀ x ∈ rest, x.id ≠ item.id := by
                intro hremove x hx
                rw [← hlist, (hwarrant c rfl hremove).1, Bool.true_or, if_pos rfl] at hx
                exact h.id_ne hget hx
              refine Safe.bind (Safe.mono (Q := fun _ b t => b = false ∧ Snapshot env held rest t)
                ?_ ?_) hfits
              · rintro err b t' ⟨rfl, hsnap'⟩
                exact ih _ _ _ hsnap'
              · split
                · exact retire_sound env counters held henv _ _
                    (fun hremove => (hwarrant c rfl hremove).2) hrest (hsnap.sublist hsub)
                · exact fun t' hr => ⟨rfl, (hsnap.sublist hsub).rely hr⟩

/-- A report of what the pass has read. -/
theorem report_sound (henv : Ordinary env) {sub : List Session}
    (h : TotalsSound env counters held s) (hsnap : Snapshot env held items s) (hsub : sub ⊆ items) :
    TotalsTick env counters held .updateSessions s (exec env (.updateSessions sub) s).2 ∧
      Snapshot env held items (exec env (.updateSessions sub) s).2 := by
  obtain ⟨hsound, hsnap'⟩ := h.report henv hsnap hsub
  refine ⟨⟨⟨Nat.le_succ _, fun _ hrow => .inl hrow, fun x hx => ?_⟩, rfl,
    fun _ => ⟨rfl, rfl, rfl, rfl⟩, fun hi => absurd rfl hi, hsound⟩, hsnap'⟩
  rw [reports_updateSessions, List.flatten_append, List.flatten_singleton] at hx
  rcases List.mem_append.1 hx with hold | hnew
  · exact .inl hold
  · obtain ⟨r, hr, hid, -⟩ := hsnap.rows x (hsub hnew)
    exact .inr (.inl ⟨r, hr, hid⟩)

theorem reportEach_sound (henv : Ordinary env) (rest : List Session) : ∀ {s : Node S},
    rest ⊆ items → Snapshot env held items s →
      Safe (machine env) (totalsContract env counters held) .updateSessions (fun _ b _ => b = false)
        (reportEach rest) false s := by
  induction rest with
  | nil => exact fun _ _ _ _ => rfl
  | cons item rest ih =>
      intro s hsub h
      refine Safe.perform_bind fun s₁ hr hok => ?_
      have hone : [item] ⊆ items := by
        intro x hx
        rw [List.mem_singleton.1 hx]
        exact hsub List.mem_cons_self
      obtain ⟨htick, hsnap⟩ := report_sound env counters held henv hok.2 (h.rely hr) hone
      refine ⟨htick, Safe.bind (Safe.mono ?_
        (ih (fun x hx => hsub (List.mem_cons_of_mem _ hx)) hsnap))
        (totalsContract_fits env counters held)⟩
      rintro errs b t rfl
      cases ((machine env).exec (.updateSessions [item]) s₁).1 with
      | none => exact fun _ _ => rfl
      | some e => exact fun _ _ => rfl

/-- Asking again about the sessions. -/
theorem requery_queries (items : List Session) : Prog.Plain Op.IsQuery (requery items) := by
  induction items with
  | nil => exact .ret _
  | cons item rest ih =>
      refine .perform_bind trivial fun r => ih.bind fun q => ?_
      rcases r with e | (_ | session)
      · exact .ret _
      · exact .ret _
      · dsimp only
        split
        · exact .ret _
        · exact .ret _

theorem requery_subset (items : List Session) :
    Prog.Yields (fun q => q.1 ⊆ items) (requery items) := by
  induction items with
  | nil => exact List.Subset.refl _
  | cons item rest ih =>
      refine .perform_bind fun r => ih.bind fun q hq => ?_
      have hskip : q.1 ⊆ item :: rest := List.subset_cons_of_subset _ hq
      have hkeep : item :: q.1 ⊆ item :: rest := List.cons_subset_cons _ hq
      rcases r with e | (_ | session)
      · exact hkeep
      · exact hskip
      · dsimp only
        split
        · exact hskip
        · exact hkeep

theorem reportSessions_sound (henv : Ordinary env) (h : Snapshot env held items s) :
    Safe (machine env) (totalsContract env counters held) .updateSessions (fun _ b _ => b = false)
      (reportSessions items) false s := by
  have hfits := totalsContract_fits env counters held
  refine Safe.perform_bind fun s₁ hr₁ hok₁ => ?_
  obtain ⟨htick₁, hsnap₁⟩ := report_sound env counters held henv hok₁.2 (h.rely hr₁)
    (List.Subset.refl _)
  refine ⟨htick₁, ?_⟩
  cases ((machine env).exec (.updateSessions items) s₁).1 with
  | none => exact fun _ _ => rfl
  | some err =>
      refine Safe.bind (Safe.mono ?_ (queries_safe env counters held henv
        (fun hr ht => Snapshot.rely ht hr) (fun hu ht => Snapshot.unchanged ht hu)
        (requery_queries items) (requery_subset items) hsnap₁)) hfits
      rintro q b t ⟨rfl, hsub, hsnap⟩
      dsimp only
      split
      · exact fun _ _ => rfl
      · split
        · exact fun _ _ => rfl
        · split
          · refine Safe.perform_bind fun s₂ hr₂ hok₂ => ?_
            obtain ⟨htick₂, hsnap₂⟩ := report_sound env counters held henv hok₂.2
              (hsnap.rely hr₂) hsub
            refine ⟨htick₂, ?_⟩
            cases ((machine env).exec (.updateSessions q.1) s₂).1 with
            | none => exact fun _ _ => rfl
            | some e => exact reportEach_sound env counters held henv q.1 hsub hsnap₂
          · exact reportEach_sound env counters held henv q.1 hsub hsnap

/-- **An `update_sessions` pass keeps the contract.** -/
theorem updateSessions_sound (henv : Ordinary env) (s : Node S) :
    Safe (machine env) (totalsContract env counters held) .updateSessions (fun _ b _ => b = false)
      updateSessions false s := by
  have hfits := totalsContract_fits env counters held
  refine Safe.perform_bind fun s₁ _ hok => ?_
  obtain ⟨hu, hrec⟩ := Op.IsQuery.unchanged env (o := .find {} none) trivial s₁
  refine ⟨hu.tick henv (congrArg Prod.fst hrec) hok.2, ?_⟩
  cases hfind : ((machine env).exec (.find {} none) s₁).1 with
  | error e => exact fun _ _ => rfl
  | ok items =>
      have hsnap : Snapshot env held items (exec env (.find {} none) s₁).2 := by
        rw [find_all hfind]
        exact hok.2.snapshot.unchanged hu
      refine Safe.bind (Safe.mono ?_
        (sweep_sound env counters held henv items.length items [] _ hsnap)) hfits
      rintro r b t ⟨rfl, hleft⟩
      rcases r with _ | ⟨left, errs⟩
      · exact fun _ _ => rfl
      · dsimp only
        split
        · refine Safe.bind (Safe.mono ?_
            (reportSessions_sound env counters held henv (hleft left errs rfl))) hfits
          rintro more b t' rfl
          exact fun _ _ => rfl
        · exact fun _ _ => rfl

theorem nodeProgram_sound (henv : Ordinary env) (cfg : Config) (i : Actor) (req : AdmitRequest)
    (s : Node S) :
    Safe (machine env) (totalsContract env counters held) i Released (nodeProgram cfg i req) false
      s := by
  have hdone : ∀ {α : Type} {p : NodeM α},
      Safe (machine env) (totalsContract env counters held) i (fun _ b _ => b = false) p false s →
      Safe (machine env) (totalsContract env counters held) i Released (p >>= fun _ => Prog.ret ())
        false s :=
    fun hp => Safe.bind (Safe.mono (fun _ _ _ hb _ _ => hb) hp)
      (totalsContract_fits env counters held)
  cases i with
  | setSessions => exact hdone (setSessions_sound env counters held henv s)
  | updateSessions => exact hdone (updateSessions_sound env counters held henv s)
  | handshake n => exact hdone (admitSession_sound env counters held henv cfg n req s)

end Threads

/-! ## Every run -/

theorem totalsSound_fresh (svc : S.State) :
    TotalsSound env counters held (Node.fresh svc : Node S) where
  rows _ hr := absurd hr List.not_mem_nil
  sent _ hx := absurd hx List.not_mem_nil
  rising _ _ hn := absurd hn (by simp [Node.reports, Node.fresh])
  readAt := Nat.le_refl _

theorem totalsSound_acquire (env : Env S) (i : Actor) (h : TotalsSound env counters held s) :
    TotalsSound env counters held ((machine env).acquire i s) := by
  by_cases hi : i = .setSessions
  · subst hi
    exact ⟨fun r hr => { h.rows r hr with }, h.sent, h.rising, h.readAt⟩
  · rw [acquire_of_ne hi]
    exact h

/-- **Reports never fall.**  Let the clock not go back, the peers' counters only grow, and only this
process change what the chain holds.  Then in every interleaving of handshakes, `set_sessions` and
`update_sessions` in which no key is added again under a waiting pass, and whichever calls fail,
each session of each report is sent with an upload, a download and a duration no lower than what
the chain held for it and than every report of it before, unless the chain has ended it.  So is
every row at every moment, and with it what `ReconcileSessions` reports when the process dies
there and is started again. -/
theorem reports_rise (cfg : Config) (henv : Ordinary env) (counters : PeerCounters)
    (held : Nat → Totals) (svc : S.State) {c : Effect.Config Op.Res Actor (Node S)}
    (h : Reach (nodeSystem cfg env) (Accounted env counters held) (Node.fresh svc) c) :
    (∀ n items, c.state.reports[n]? = some items → ∀ x ∈ items,
      Over env c.state.clock x.id ∨ Covers held (c.state.reports.take n) x) ∧
    ∀ r ∈ c.state.table.rows, Over env c.state.clock r.id ∨ Covers held c.state.reports r := by
  have hsound := (Reach.assume (Y := nodeSystem cfg env) (C := totalsContract env counters held)
    (P := TotalsSound env counters held) (totalsContract_fits env counters held)
    (nodeProgram_sound env counters held henv cfg) (fun hok hP => ⟨hok, hP⟩) trivial
    (totalsSound_fresh svc) (fun i s hs => totalsSound_acquire env i hs)
    (fun i b o s _ hown _ => by
      cases b with
      | false => exact hown.sound
      | true => exact hown.sound) h).2
  exact ⟨hsound.rising, fun r hr => (hsound.rows r hr).covers⟩

/-! ### Two reports of one session -/

/-- Counters that go up by one byte each way at every moment, up to a hundred. -/
def risingCounters : PeerCounters where
  read _ _ t := ((min t 100 : Nat), (min t 100 : Nat))
  mono _ _ t t' h := by
    refine Prod.le_def.2 ⟨?_, ?_⟩ <;> simp only <;> omega
  modest _ _ t := by
    refine ⟨⟨?_, ?_⟩, ⟨?_, ?_⟩⟩ <;> simp only <;> omega

theorem firstRequest_key_ne : firstRequest.peerKey.text ≠ "" := by decide

/-- A chain that has every session active, and a service with the one peer. -/
def risingEnv : Env xray :=
  { calmEnv with
    now := fun t => (min t 1000 : Nat)
    peers := fun t => .ok [⟨firstRequest.peerKey, Int64.ofNat (min t 100), Int64.ofNat (min t 100),
      firstRequest_key_ne⟩]
    querySession := fun _ id => .ok (some
      { id := id, accAddress := "client", nodeAddress := "node", status := .active }) }

theorem risingEnv_ordinary : Ordinary risingEnv where
  now_mono t t' h := by
    show ((min t 1000 : Nat) : Int) ≤ (min t' 1000 : Nat)
    omega
  now t := by
    show 0 ≤ ((min t 1000 : Nat) : Int) ∧ ((min t 1000 : Nat) : Int) < 2 ^ 62
    omega
  session := by
    rintro t id x ⟨⟩
    have hzero : Modest 0 := by decide
    exact ⟨hzero, hzero, hzero⟩

/-- A handshake, and the two jobs twice. -/
def reportTwice : List (Choice Actor AdmitRequest) :=
  turn (.handshake 0) firstRequest 12 ++ turn .setSessions firstRequest 5 ++
    turn .updateSessions firstRequest 3 ++ turn .setSessions firstRequest 5 ++
    turn .updateSessions firstRequest 3

theorem reports_rise_reportTwice :
    ∃ c, (Effect.Config.idle (Node.fresh (Users.empty : Users xrayCheck))).runs
        (nodeSystem ⟨4, "node"⟩ risingEnv) (Accounted risingEnv risingCounters fun _ => (0, 0, 0))
        reportTwice = some c ∧
      c.state.reports.map (List.map Session.totals) = [[(10, 10, 3)], [(16, 16, 9)]] ∧
      (∀ n items, c.state.reports[n]? = some items → ∀ x ∈ items,
        Covers (fun _ => (0, 0, 0)) (c.state.reports.take n) x) ∧
      ∀ r ∈ c.state.table.rows, Covers (fun _ => (0, 0, 0)) c.state.reports r := by
  have hrun : ((Effect.Config.idle (Node.fresh (Users.empty : Users xrayCheck))).runs
      (nodeSystem ⟨4, "node"⟩ risingEnv) (Accounted risingEnv risingCounters fun _ => (0, 0, 0))
      reportTwice).map (fun c => c.state.reports.map (List.map Session.totals)) =
        some [[(10, 10, 3)], [(16, 16, 9)]] := by decide +kernel
  obtain ⟨c, hc, hend⟩ := Option.map_eq_some_iff.1 hrun
  have hopen : ∀ id, ¬ Over risingEnv c.state.clock id := by
    rintro id ⟨t, -, hended | ⟨x, sub, hx, hsub, -⟩⟩
    · exact absurd hended (by simp [risingEnv, ended])
    · cases hx
      cases hsub
  obtain ⟨hreports, hrows⟩ := reports_rise ⟨4, "node"⟩ risingEnv_ordinary risingCounters
    (fun _ => (0, 0, 0)) _ (Reach.runs .idle hc)
  exact ⟨c, hc, hend, fun n items hn x hx => (hreports n items hn x hx).resolve_left (hopen x.id),
    fun r hr => (hrows r hr).resolve_left (hopen r.id)⟩

end Dvpnd
