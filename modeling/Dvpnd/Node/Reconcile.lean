import Dvpnd.Node.UpdateSessions

/-!
# Reconciling the table at startup

`ReconcileSessions` (`node/reconcile.go`) runs before the jobs and the API: it
reports whatever usage of the previous run has not reached the chain, and then
clears the table, whose peers no longer exist.

* `unreported_spec` — the loop, by induction on the rows: what it asks, and which
  rows it finds to report.
* `reconcile_reports_iff` — **exactly when no report is lost to another**.  The
  rows go in one transaction and are cleared whether it is accepted or not, so a
  refused session takes the others with it (`refused_session_costs_reports`).
-/

namespace Dvpnd

open Effect

/-- `sessionNeedsReport`; `none` when `Int64()` panics on a chain total. -/
def sessionNeedsReport (item : Session) (session : ChainSession) : Option Bool :=
  if session.status ≠ .active then some false
  else
    match int64 session.uploadBytes with
    | none => none
    | some upload =>
        if item.upload ≠ upload then some true
        else
          match int64 session.downloadBytes with
          | none => none
          | some download => some (decide (item.download ≠ download))

/-- The sessions to report before the table is cleared; `none` when the check
of one panics. -/
def unreported : List Session → NodeM (Option (List Session))
  | [] => return some []
  | item :: rest => do
      match ← call (.querySession item.id) with
      | .error _ => unreported rest
      | .ok none => unreported rest
      | .ok (some session) =>
          match sessionNeedsReport item session with
          | none => return none
          | some needs => do
              match ← unreported rest with
              | none => return none
              | some report => return some (if needs then item :: report else report)

/-- Clear the table, and compact the file when that succeeded. -/
def clearAndCompact : NodeM (Option Err) := do
  match ← call .deleteAll with
  | some e => return some e
  | none => do
      let _ ← call .vacuum
      return none

/-- `ReconcileSessions`: the error it returns, or `none` when it panics. -/
def reconcileSessions : NodeM (Option (Option Err)) := do
  let found ← call (.find {} none)
  let items := match found with
    | .ok items => items
    | .error _ => []
  if items.length = 0 then do
    let _ ← call .vacuum
    return some none
  else
    match ← unreported items with
    | none => return none
    | some report => do
        if 0 < report.length then
          let _ ← call (.updateSessions report)
        return some (← clearAndCompact)

/-! ## The loop -/

/-- The chain returned the session as active, with totals that are not the stored
ones. -/
def needsReport (item : Session) : Except String (Option ChainSession) → Bool
  | .ok (some session) =>
      session.status == .active &&
      !(item.upload.toInt == session.uploadBytes && item.download.toInt == session.downloadBytes)
  | _ => false

/-- The rows the loop finds to report. -/
def toReport (asked : List (Session × Except String (Option ChainSession))) : List Session :=
  (asked.filter fun p => needsReport p.1 p.2).map Prod.fst

theorem sessionNeedsReport_eq (item : Session) (session : ChainSession) :
    sessionNeedsReport item session =
      if session.status ≠ .active then some false else (sameTotals item session).map (! ·) := by
  unfold sessionNeedsReport sameTotals
  split
  · rfl
  · cases int64 session.uploadBytes with
    | none => rfl
    | some upload =>
        dsimp only
        by_cases heq : item.upload = upload
        · rw [if_neg (not_not.2 heq), if_pos heq]
          cases int64 session.downloadBytes with
          | none => rfl
          | some download =>
              rw [Option.map_some, Option.some.injEq, Bool.eq_iff_iff]
              simp
        · rw [if_pos heq, if_neg heq]
          rfl

/-- When it does not panic, the check is the comparison of the amounts. -/
theorem needsReport_of_some {item : Session} {session : ChainSession} {needs : Bool}
    (h : sessionNeedsReport item session = some needs) :
    needsReport item (.ok (some session)) = needs := by
  rw [sessionNeedsReport_eq] at h
  split at h
  · rename_i hs
    cases h
    simp [needsReport, hs]
  · rename_i hs
    obtain ⟨same, hsame, rfl⟩ := Option.map_eq_some_iff.1 h
    simp [needsReport, not_not.1 hs, (sameTotals_spec item session).2 same hsame]

variable {S : Service} (env : Env S) (i : Actor)

/-- **The loop of `ReconcileSessions`** asks about each row once and, when no check
panics, finds the rows that need a report. -/
theorem unreported_spec (items : List Session) : ∀ s : Node S, ∀ report,
    ((unreported items).run (machine env) i s).1 = some report →
    ∃ asked : List (Session × Except String (Option ChainSession)),
      asked.map Prod.fst = items ∧
      ((unreported items).run (machine env) i s).2.log = s.log ++ questions asked ∧
      report = toReport asked := by
  induction items with
  | nil =>
      rintro s report ⟨⟩
      exact ⟨[], rfl, (List.append_nil _).symm, rfl⟩
  | cons item rest ih =>
      intro s report h
      rw [unreported, call, Prog.perform_bind, Prog.run_op] at h ⊢
      have hlog : ((machine env).exec (.querySession item.id) s).2.log =
          s.log ++ [.asked item.id ((machine env).exec (.querySession item.id) s).1] := rfl
      generalize ((machine env).exec (.querySession item.id) s).2 = s₁ at hlog h ⊢
      generalize ((machine env).exec (.querySession item.id) s).1 = a at hlog h ⊢
      -- in every branch the rows before stay as they were found, and the new one is added or not
      have hcons : ∀ {report' : List Session} {s₂ : Node S},
          ((unreported rest).run (machine env) i s₁).1 = some report' →
          s₂ = ((unreported rest).run (machine env) i s₁).2 →
          report = (if needsReport item a then item :: report' else report') →
          ∃ asked : List (Session × Except String (Option ChainSession)),
            asked.map Prod.fst = item :: rest ∧ s₂.log = s.log ++ questions asked ∧
            report = toReport asked := by
        rintro report' s₂ hrest rfl rfl
        obtain ⟨asked, hfst, hlog', rfl⟩ := ih s₁ report' hrest
        refine ⟨(item, a) :: asked, by simp [hfst], ?_, ?_⟩
        · rw [hlog', hlog, List.append_assoc]
          rfl
        · cases hneeds : needsReport item a with
          | true => simp [toReport, hneeds]
          | false => simp [toReport, hneeds]
      rcases a with e | (_ | session)
      · exact hcons h rfl rfl
      · exact hcons h rfl rfl
      · dsimp only at h ⊢
        cases hneeds : sessionNeedsReport item session with
        | none =>
            rw [hneeds] at h
            cases h
        | some needs =>
            rw [hneeds] at h
            dsimp only at h ⊢
            rw [Prog.run_bind] at h ⊢
            cases hrest : ((unreported rest).run (machine env) i s₁).1 with
            | none =>
                rw [hrest] at h
                cases h
            | some report' =>
                rw [hrest] at h
                refine hcons hrest rfl ?_
                rw [needsReport_of_some hneeds]
                exact (Option.some.inj h).symm

theorem unreported_plain (items : List Session) : Prog.Plain Op.IsRead (unreported items) := by
  induction items with
  | nil => exact .ret _
  | cons item rest ih =>
      refine .perform_bind trivial fun a => ?_
      rcases a with e | (_ | session)
      · exact ih
      · exact ih
      · dsimp only
        split
        · exact .ret _
        · refine ih.bind fun r => ?_
          cases r with
          | none => exact .ret _
          | some report => exact .ret _

/-! ## The report -/

/-- Clearing the table puts nothing on record. -/
theorem clearAndCompact_log (s : Node S) :
    (clearAndCompact.run (machine env) i s).2.log = s.log := by
  have hkeeps : ∀ (o : Op) (t : Node S), o.IsStatement → (exec env o t).2.log = t.log := by
    intro o t ho
    obtain ⟨T, U, he, -⟩ := ho.frame env t
    rw [he]
    rfl
  unfold clearAndCompact call
  rw [Prog.perform_bind, Prog.run_op]
  have hdel : ((machine env).exec .deleteAll s).2.log = s.log := hkeeps .deleteAll s trivial
  cases ((machine env).exec .deleteAll s).1 with
  | some e => exact hdel
  | none => exact (hkeeps .vacuum _ trivial).trans hdel

/-- A chain that refuses the reports of some sessions: a transaction is accepted
when it names none of them. -/
def Env.Refuses (env : Env S) (refused : Session → Bool) : Prop :=
  ∀ t items, env.updateSessions t items = none ↔ ∀ x ∈ items, refused x = false

/-- The record shows that the session was active with totals to report. -/
def NeedsIn (L : List Event) (r : Session) : Prop := ∃ a, .asked r.id a ∈ L ∧ needsReport r a = true

/-- What `ReconcileSessions` puts on record. -/
def reconcileRecord (s : Node S) : List Event :=
  (reconcileSessions.run (machine env) i s).2.log.drop s.log.length

/-- A run that clears a table with rows in it has asked about each of them and sent
those to report in one transaction. -/
theorem reconcile_record {s : Node S} (hrows : s.table.rows ≠ [])
    (hclear : (reconcileSessions.run (machine env) i s).2.table.rows = []) :
    ∃ asked : List (Session × Except String (Option ChainSession)),
      asked.map Prod.fst = s.table.rows ∧
      ∃ t, reconcileRecord env i s = questions asked ++
        if 0 < (toReport asked).length then
          [.reported (toReport asked) (env.updateSessions t (toReport asked)).isNone]
        else [] := by
  unfold reconcileRecord
  unfold reconcileSessions call at hclear ⊢
  rw [Prog.perform_bind, Prog.run_op] at hclear ⊢
  -- a run that does not reach the end leaves the rows where they are
  have hstay : ∀ {α : Type} {p : NodeM α}, Prog.Plain Op.IsRead p →
      (p.run (machine env) i s.tick).2.table.rows ≠ [] := fun hp => by
    rw [(reads_run env i hp s.tick).1.table]
    exact hrows
  cases hfind : ((machine env).exec (.find {} none) s).1 with
  | error e =>
      rw [hfind] at hclear
      have hvacuum : Prog.Plain Op.IsRead (call .vacuum) :=
        ⟨⟨trivial, fun _ => trivial⟩, fun _ => trivial⟩
      have hsame := hstay hvacuum
      exact absurd hclear hsame
  | ok items =>
      rw [hfind] at hclear
      obtain rfl := find_all hfind
      dsimp only at hclear ⊢
      have hlen : ¬ s.table.rows.length = 0 := fun h0 => hrows (List.length_eq_zero_iff.1 h0)
      rw [if_neg hlen, Prog.run_bind] at hclear ⊢
      cases hrun : ((unreported s.table.rows).run (machine env) i s.tick).1 with
      | none =>
          rw [show ((machine env).exec (.find {} none) s).2 = s.tick from rfl, hrun] at hclear
          exact absurd hclear (hstay (unreported_plain s.table.rows))
      | some report =>
          obtain ⟨asked, hfst, hlog, rfl⟩ := unreported_spec env i s.table.rows s.tick report hrun
          rw [show ((machine env).exec (.find {} none) s).2 = s.tick from rfl, hrun]
          generalize ((unreported s.table.rows).run (machine env) i s.tick).2 = s₁ at hlog ⊢
          refine ⟨asked, hfst, s₁.clock, ?_⟩
          have hdrop : ∀ {t : Node S} {L : List Event}, t.log = s₁.log ++ L →
              t.log.drop s.log.length = questions asked ++ L := by
            intro t L ht
            rw [ht, hlog, List.append_assoc]
            exact List.drop_left
          dsimp only
          split
          · rw [Prog.perform_bind, Prog.run_op, Prog.run_bind]
            exact hdrop (clearAndCompact_log env i _)
          · rw [Prog.run_bind]
            exact hdrop ((clearAndCompact_log env i s₁).trans (List.append_nil _).symm)

/-- Among the rows, the ones to report are those the record shows as such: a row is
asked about once. -/
theorem needsIn_iff {asked : List (Session × Except String (Option ChainSession))} {T : Table}
    (hfst : asked.map Prod.fst = T.rows) {L : List Event}
    (hL : ∀ id a, .asked id a ∉ L) {r : Session} (hr : r ∈ T.rows) :
    NeedsIn (questions asked ++ L) r ↔ r ∈ toReport asked := by
  constructor
  · rintro ⟨a, ha, hneeds⟩
    rcases List.mem_append.1 ha with ha | ha
    · obtain ⟨p, hp, heq⟩ := List.mem_map.1 ha
      have hp' : p.1 ∈ T.rows := hfst ▸ List.mem_map_of_mem hp
      obtain ⟨hid, rfl⟩ := Event.asked.inj heq
      obtain rfl := Table.eq_of_id hp' hr hid
      exact List.mem_map.2 ⟨p, List.mem_filter.2 ⟨hp, hneeds⟩, rfl⟩
    · exact absurd ha (hL _ _)
  · intro hmem
    obtain ⟨p, hp, rfl⟩ := List.mem_map.1 hmem
    obtain ⟨hp, hneeds⟩ := List.mem_filter.1 hp
    exact ⟨p.2, List.mem_append_left _ (List.mem_map.2 ⟨p, hp, rfl⟩), hneeds⟩

/-- **No report is lost to another exactly when the sessions to report are all
accepted or all refused.** -/
theorem reconcile_reports_iff {refused : Session → Bool} (hchain : env.Refuses refused)
    (s : Node S) (hclear : (reconcileSessions.run (machine env) i s).2.table.rows = []) :
    (∀ r ∈ s.table.rows, NeedsIn (reconcileRecord env i s) r → refused r = false →
      r ∈ delivered (reconcileRecord env i s)) ↔
    ((∀ r ∈ s.table.rows, NeedsIn (reconcileRecord env i s) r → refused r = false) ∨
      ∀ r ∈ s.table.rows, NeedsIn (reconcileRecord env i s) r → refused r = true) := by
  by_cases hrows : s.table.rows = []
  · simp [hrows]
  obtain ⟨asked, hfst, t, hrec⟩ := reconcile_record env i hrows hclear
  have hsub : ∀ {r}, r ∈ toReport asked → r ∈ s.table.rows := fun hr =>
    hfst ▸ (List.filter_sublist.map _).subset hr
  have hneeds : ∀ {r}, r ∈ s.table.rows →
      (NeedsIn (reconcileRecord env i s) r ↔ r ∈ toReport asked) := by
    intro r hr
    rw [hrec]
    refine needsIn_iff hfst (fun id a hmem => ?_) hr
    split at hmem
    · cases List.mem_singleton.1 hmem
    · cases hmem
  have hdel : delivered (reconcileRecord env i s) =
      if (∀ x ∈ toReport asked, refused x = false) then toReport asked else [] := by
    have hok : (env.updateSessions t (toReport asked)).isNone = true ↔
        ∀ x ∈ toReport asked, refused x = false :=
      Option.isNone_iff_eq_none.trans (hchain t _)
    rw [hrec, delivered_append, delivered_questions, List.nil_append]
    by_cases hlen : 0 < (toReport asked).length
    · rw [if_pos hlen]
      by_cases hall : ∀ x ∈ toReport asked, refused x = false
      · rw [if_pos hall, hok.2 hall, delivered_accepted]
        exact List.append_nil _
      · rw [if_neg hall, Bool.eq_false_iff.2 fun hn => hall (hok.1 hn)]
        rfl
    · have hnil : toReport asked = [] := List.length_eq_zero_iff.1 (by omega)
      simp [hnil, delivered]
  constructor
  · intro h
    by_cases hall : ∀ x ∈ toReport asked, refused x = false
    · exact Or.inl fun r hr hn => hall r ((hneeds hr).1 hn)
    · refine Or.inr fun r hr hn => ?_
      rw [hdel, if_neg hall] at h
      cases hrf : refused r with
      | true => rfl
      | false => exact absurd (h r hr hn hrf) (by simp)
  · rintro (hall | hall) r hr hn hok
    · rw [hdel, if_pos fun x hx => hall x (hsub hx) ((hneeds (hsub hx)).2 hx)]
      exact (hneeds hr).1 hn
    · rw [hall r hr hn] at hok
      cases hok

/-! ## Two restarts -/

/-- A row with five bytes sent that the chain has not seen. -/
def fiveSent (id : Nat) : Session :=
  { id := id, key := Key.of [UInt8.ofNat id], address := "client", upload := 5 }

/-- A node that has just started, with the rows of a previous run. -/
def restarted (rows : List Session) (hid : (rows.map Session.id).Nodup)
    (hkey : (rows.map Session.key).Nodup) : Node peerSet :=
  { Node.fresh (S := peerSet) (∅ : Finset Key) with table := ⟨rows, hid, hkey⟩ }

theorem refusesTwo_refuses : refusesTwo.Refuses fun x => x.id == 2 := by
  intro t items
  simp only [refusesTwo]
  split
  · rename_i hmem
    obtain ⟨x, hx, hid⟩ := List.mem_map.1 hmem
    exact ⟨fun h => absurd h (by simp), fun h => absurd (h x hx) (by simp [hid])⟩
  · rename_i hmem
    refine ⟨fun _ x hx => ?_, fun _ => rfl⟩
    exact beq_eq_false_iff_ne.2 fun hid => hmem (List.mem_map.2 ⟨x, hx, hid⟩)

/-- With no refused session among the rows, both reports go out before the table
is cleared. -/
theorem accepted_sessions_reported :
    let s := restarted [fiveSent 1, fiveSent 3] (by decide) (by decide)
    (reconcileSessions.run (machine refusesTwo) .updateSessions s).2.table.rows = [] ∧
      delivered (reconcileRecord refusesTwo .updateSessions s) = [fiveSent 1, fiveSent 3] ∧
      ∀ r ∈ s.table.rows, NeedsIn (reconcileRecord refusesTwo .updateSessions s) r →
        (r.id == 2) = false → r ∈ delivered (reconcileRecord refusesTwo .updateSessions s) := by
  intro s
  have hclear : (reconcileSessions.run (machine refusesTwo) .updateSessions s).2.table.rows = [] :=
    by decide
  have hids : ∀ r ∈ s.table.rows, (r.id == 2) = false := by decide
  exact ⟨hclear, by decide, (reconcile_reports_iff refusesTwo .updateSessions refusesTwo_refuses s
    hclear).2 (Or.inl fun r hr _ => hids r hr)⟩

/-- **A refused session costs another its report**: the chain would accept session 1
on its own, but it goes out with session 2, and both rows are cleared. -/
theorem refused_session_costs_reports :
    let s := restarted [fiveSent 1, fiveSent 2] (by decide) (by decide)
    (reconcileSessions.run (machine refusesTwo) .updateSessions s).2.table.rows = [] ∧
      NeedsIn (reconcileRecord refusesTwo .updateSessions s) (fiveSent 1) ∧
      (∀ t, refusesTwo.updateSessions t [fiveSent 1] = none) ∧
      fiveSent 1 ∉ delivered (reconcileRecord refusesTwo .updateSessions s) :=
  ⟨by decide, ⟨_, List.Mem.head _, rfl⟩, fun _ => rfl, by decide⟩

end Dvpnd
