import Dvpnd.Node.Interleaving

/-!
# What one `update_sessions` pass does

The pass asks the chain about every row, from the last to the first, retires the
sessions that have ended, and hands the rest to `reportSessions`.  What it does
with a row is settled by the answers it gets about that row, so the results are
stated over the record of the pass: the questions it put and the answers.

* `Answers`, `answersIn` — what the chain said about a row, read off a record.
* `checkSession_spec`, `retire_spec` — one spec for each of the two helpers.
* `sweep_spec` — the loop, by induction over the rows still to be checked.
* `updateSessions_reconciles_iff` — **exactly when a pass does what it is for**:
  the rows handed on are the ones to report, rows go only when they have ended
  and their peer is gone, and a row the chain could not be asked about stays.  It
  does unless an answer holds a total that `Int64()` panics on
  (`oversized_total_stops_pass`).
-/

namespace Dvpnd

open Effect

/-! ## What the chain said about a row -/

/-- The answers of one check: about the session, and about its subscription if
that was asked for. -/
structure Answers where
  session : Except String (Option ChainSession)
  subscription : Option (Except String (Option Subscription)) := none

namespace Answers

/-- The session was returned and is not inactive, its subscription, if it has one,
was found and is not inactive, and the chain's totals are not the stored ones. -/
def reportable (item : Session) (a : Answers) : Bool :=
  match a.session with
  | .ok (some session) =>
      session.status != .inactive &&
      (match session.subscription, a.subscription with
        | none, _ => true
        | some _, some (.ok (some subscription)) => subscription.status != .inactive
        | some _, _ => false) &&
      !(item.upload.toInt == session.uploadBytes && item.download.toInt == session.downloadBytes)
  | _ => false

/-- The session or its subscription is gone or inactive. -/
def dropped (a : Answers) : Bool :=
  (match a.session with
    | .ok none => true
    | .ok (some session) => session.status == .inactive
    | .error _ => false) ||
  (match a.subscription with
    | some (.ok none) => true
    | some (.ok (some subscription)) => subscription.status == .inactive
    | _ => false)

/-- The question about the session failed. -/
def failed (a : Answers) : Bool :=
  match a.session with
  | .error _ => true
  | .ok _ => false

/-- The totals `checkSession` looks at fit an `int64`. -/
def fits (item : Session) (a : Answers) : Bool :=
  match a.session with
  | .ok (some session) =>
      decide (IsInt64 session.uploadBytes ∧
        (item.upload.toInt = session.uploadBytes → IsInt64 session.downloadBytes))
  | _ => true

/-- What such a check leaves on record, asked about the session `id` and the
subscription `sub`. -/
def events (a : Answers) (id sub : Nat) : List Event :=
  .asked id a.session :: (a.subscription.map (Event.askedSubscription sub)).toList

end Answers

/-- The answer about a subscription that a record begins with. -/
def subscriptionAnswer : List Event → Option (Except String (Option Subscription))
  | .askedSubscription _ b :: _ => some b
  | _ => none

/-- The first answers about a session on a record; the question about the
subscription directly follows the one about its session. -/
def answersIn : List Event → Nat → Option Answers
  | [], _ => none
  | .asked n a :: rest, id =>
      if n = id then some ⟨a, subscriptionAnswer rest⟩ else answersIn rest id
  | .askedSubscription _ _ :: rest, id => answersIn rest id
  | .reported _ _ :: rest, id => answersIn rest id

/-- The sessions handed to `reportSessions`, which sends them all at first. -/
def handed : List Event → List Session
  | [] => []
  | .reported items _ :: _ => items
  | .asked _ _ :: rest | .askedSubscription _ _ :: rest => handed rest

theorem answersIn_events_self {a : Answers} {id sub : Nat} {L : List Event}
    (hL : subscriptionAnswer L = none) : answersIn (a.events id sub ++ L) id = some a := by
  obtain ⟨x, y⟩ := a
  cases y with
  | none => simp [Answers.events, answersIn, hL]
  | some b => simp [Answers.events, answersIn, subscriptionAnswer]

theorem answersIn_events_ne {a : Answers} {n id sub : Nat} (L : List Event) (h : n ≠ id) :
    answersIn (a.events n sub ++ L) id = answersIn L id := by
  obtain ⟨x, y⟩ := a
  cases y with
  | none => simp [Answers.events, answersIn, h]
  | some b => simp [Answers.events, answersIn, h]

theorem handed_events (a : Answers) (id sub : Nat) (L : List Event) :
    handed (a.events id sub ++ L) = handed L := by
  obtain ⟨x, y⟩ := a
  cases y with
  | none => rfl
  | some b => rfl

/-- What is put on record later does not change an answer. -/
theorem answersIn_append {L : List Event} {id : Nat} {a : Answers} (h : answersIn L id = some a)
    {L' : List Event} (hL' : subscriptionAnswer L' = none) : answersIn (L ++ L') id = some a := by
  induction L with
  | nil => cases h
  | cons e rest ih =>
      cases e with
      | asked n b =>
          simp only [List.cons_append, answersIn] at h ⊢
          split at h
          · rename_i hn
            rw [if_pos hn, ← h]
            cases rest with
            | nil => rw [List.nil_append, hL']; rfl
            | cons e' rest' => cases e' <;> rfl
          · rename_i hn
            rw [if_neg hn]
            exact ih h
      | askedSubscription n b => exact ih h
      | reported items ok => exact ih h

/-! ## `checkSession` -/

/-- What a check of a row says, given the answers about it. -/
structure Checked (item : Session) (a : Answers) (c : Option Check) : Prop where
  panics : c = none ↔ a.fits item = false
  kept : ∀ {v}, c = some v → (v.skipUpdate || v.err.isSome) = !a.reportable item
  removed : ∀ {v}, c = some v → v.removeSession = true → a.dropped = true
  spared : ∀ {v}, c = some v → a.failed = true → v.removePeer = false ∧ v.removeSession = false

variable {S : Service}

/-- The verdict on a session that was returned and whose totals can be compared,
with the answer about its subscription. -/
theorem Checked.of_session {item : Session} {session : ChainSession} {same : Bool}
    (hsame : sameTotals item session = some same)
    {sub : Option (Except String (Option Subscription))} {v : Check}
    (hkept : (v.skipUpdate || v.err.isSome) = !Answers.reportable item ⟨.ok (some session), sub⟩)
    (hremoved : v.removeSession = true → Answers.dropped ⟨.ok (some session), sub⟩ = true) :
    Checked item ⟨.ok (some session), sub⟩ (some v) := by
  refine ⟨⟨fun h => absurd h (by simp), fun h => ?_⟩, ?_, ?_, fun _ h => absurd h Bool.false_ne_true⟩
  · have hnone := (sameTotals_spec item session).1.2 (by simpa [Answers.fits] using h)
    rw [hsame] at hnone
    cases hnone
  · rintro _ ⟨⟩; exact hkept
  · rintro _ ⟨⟩; exact hremoved

theorem subscriptionVerdict_kept {item : Session} {session : ChainSession} {same : Bool} {id : Nat}
    (hsub : session.subscription = some id)
    (hs : same = (item.upload.toInt == session.uploadBytes &&
      item.download.toInt == session.downloadBytes)) (o : Option Subscription) :
    ((subscriptionVerdict (sessionVerdict item session same) o).skipUpdate ||
      (subscriptionVerdict (sessionVerdict item session same) o).err.isSome) =
      !Answers.reportable item ⟨.ok (some session), some (.ok o)⟩ := by
  cases o with
  | none => simp [Answers.reportable, hsub, subscriptionVerdict]
  | some subscription =>
      simp only [Answers.reportable, hsub, ← hs, subscriptionVerdict, sessionVerdict]
      cases subscription.status <;> cases session.status <;> cases same <;> rfl

theorem subscriptionVerdict_removed (item : Session) (session : ChainSession) (same : Bool)
    (o : Option Subscription)
    (h : (subscriptionVerdict (sessionVerdict item session same) o).removeSession = true) :
    Answers.dropped ⟨.ok (some session), some (.ok o)⟩ = true := by
  cases o with
  | none => simp [Answers.dropped]
  | some subscription =>
      simp only [subscriptionVerdict, sessionVerdict] at h
      simp only [Answers.dropped, Bool.or_eq_true]
      revert h
      cases subscription.status <;> cases session.status <;> simp

/-! ### The verdict on each way the questions can go -/

theorem Checked.query_failed (item : Session) (e : String) :
    Checked item ⟨.error e, none⟩ (some ⟨false, false, true, some (.external e)⟩) := by
  refine ⟨⟨fun h => absurd h (by simp), fun h => absurd h (by simp [Answers.fits])⟩, ?_, ?_, ?_⟩
  · rintro _ ⟨⟩; rfl
  · rintro _ ⟨⟩ h; cases h
  · rintro _ ⟨⟩ _; exact ⟨rfl, rfl⟩

theorem Checked.gone (item : Session) :
    Checked item ⟨.ok none, none⟩ (some ⟨true, true, true, none⟩) := by
  refine ⟨⟨fun h => absurd h (by simp), fun h => absurd h (by simp [Answers.fits])⟩, ?_, ?_, ?_⟩
  · rintro _ ⟨⟩; rfl
  · rintro _ ⟨⟩ _; rfl
  · rintro _ _ h; cases h

theorem Checked.panicked {item : Session} {session : ChainSession}
    (hsame : sameTotals item session = none) : Checked item ⟨.ok (some session), none⟩ none := by
  refine ⟨⟨fun _ => ?_, fun _ => rfl⟩, nofun, nofun, nofun⟩
  have hfits := (sameTotals_spec item session).1.1 hsame
  simpa [Answers.fits] using hfits

theorem Checked.unsubscribed {item : Session} {session : ChainSession} {same : Bool}
    (hsame : sameTotals item session = some same) (hsub : session.subscription = none) :
    Checked item ⟨.ok (some session), none⟩ (some (sessionVerdict item session same)) := by
  have hs := (sameTotals_spec item session).2 same hsame
  refine .of_session hsame ?_ fun h => ?_
  · simp [Answers.reportable, hsub, sessionVerdict, ← hs, bne, Bool.or_comm]
  · simpa [Answers.dropped, sessionVerdict] using h

theorem Checked.subscription_failed {item : Session} {session : ChainSession} {same : Bool} {id : Nat}
    (hsame : sameTotals item session = some same) (hsub : session.subscription = some id)
    (e : String) : Checked item ⟨.ok (some session), some (.error e)⟩
      (some { sessionVerdict item session same with
        skipUpdate := true, err := some (.external e) }) := by
  refine .of_session hsame ?_ fun h => ?_
  · simp [Answers.reportable, hsub]
  · simp only [sessionVerdict] at h
    simp [Answers.dropped, h]

theorem Checked.subscribed {item : Session} {session : ChainSession} {same : Bool} {id : Nat}
    (hsame : sameTotals item session = some same) (hsub : session.subscription = some id)
    (o : Option Subscription) : Checked item ⟨.ok (some session), some (.ok o)⟩
      (some (subscriptionVerdict (sessionVerdict item session same) o)) :=
  .of_session hsame (subscriptionVerdict_kept hsub ((sameTotals_spec item session).2 same hsame) o)
    (subscriptionVerdict_removed item session same o)

/-- What a run of a check on `item` leaves: the verdict that goes with some answers,
those answers on record, and nothing else changed. -/
structure CheckRun (item : Session) (s : Node S) (out : Option Check × Node S) (a : Answers)
    (sub : Nat) : Prop where
  checked : Checked item a out.1
  quiet : Quiet s out.2
  log : out.2.log = s.log ++ a.events item.id sub

/-- **`checkSession`**: what it asks, and what it makes of the answers. -/
theorem checkSession_spec (env : Env S) (i : Actor) (item : Session) (s : Node S) :
    ∃ a sub, CheckRun item s ((checkSession item).run (machine env) i s) a sub := by
  unfold checkSession call
  rw [Prog.perform_bind, Prog.run_op]
  have hlog : ((machine env).exec (.querySession item.id) s).2.log =
      s.log ++ [.asked item.id ((machine env).exec (.querySession item.id) s).1] := rfl
  have hquiet : Quiet s ((machine env).exec (.querySession item.id) s).2 := ⟨rfl, rfl, rfl⟩
  generalize ((machine env).exec (.querySession item.id) s).2 = s₁ at hlog hquiet ⊢
  cases hq : ((machine env).exec (.querySession item.id) s).1 with
  | error e =>
      rw [hq] at hlog
      exact ⟨⟨.error e, none⟩, 0, .query_failed item e, hquiet, hlog⟩
  | ok o =>
      cases o with
      | none =>
          rw [hq] at hlog
          exact ⟨⟨.ok none, none⟩, 0, .gone item, hquiet, hlog⟩
      | some session =>
          rw [hq] at hlog
          dsimp only
          cases hsame : sameTotals item session with
          | none => exact ⟨⟨.ok (some session), none⟩, 0, .panicked hsame, hquiet, hlog⟩
          | some same =>
              cases hsub : session.subscription with
              | none => exact ⟨⟨.ok (some session), none⟩, 0, .unsubscribed hsame hsub, hquiet, hlog⟩
              | some id =>
                  dsimp only
                  rw [Prog.perform_bind, Prog.run_op]
                  have hlog₂ : ((machine env).exec (.querySubscription id) s₁).2.log =
                      s₁.log ++ [.askedSubscription id
                        ((machine env).exec (.querySubscription id) s₁).1] := rfl
                  have hquiet₂ : Quiet s ((machine env).exec (.querySubscription id) s₁).2 :=
                    hquiet.trans ⟨rfl, rfl, rfl⟩
                  rw [hlog, List.append_assoc] at hlog₂
                  refine ⟨⟨.ok (some session),
                    some ((machine env).exec (.querySubscription id) s₁).1⟩, id, ?_⟩
                  generalize ((machine env).exec (.querySubscription id) s₁).2 = s₂ at hlog₂ hquiet₂ ⊢
                  cases hb : ((machine env).exec (.querySubscription id) s₁).1 with
                  | error e =>
                      rw [hb] at hlog₂
                      exact ⟨.subscription_failed hsame hsub e, hquiet₂, hlog₂⟩
                  | ok o =>
                      rw [hb] at hlog₂
                      exact ⟨.subscribed hsame hsub o, hquiet₂, hlog₂⟩

/-! ## `retire` -/

/-- A call takes a row out of the table. -/
def TakesOut (env : Env S) (o : Op) (t : Node S) (x : Session) : Prop :=
  x ∈ t.table.rows ∧ x ∉ (exec env o t).2.table.rows

theorem Op.KeepsTable.not_takesOut (env : Env S) {o : Op} (ho : o.KeepsTable) (t : Node S)
    (x : Session) : ¬ TakesOut env o t x := by
  rintro ⟨hx, hnot⟩
  rw [ho.table env t] at hnot
  exact hnot hx

/-- The first half of `retire`. -/
theorem retire_peer_spec (hS : S.Sound) (env : Env S) (i : Actor) (item : Session) (rp : Bool)
    {s : Node S} (hwf : S.wf s.svc) {p : NodeM (Option Err)}
    (hp : p = if rp then removePeerIfExists .retirement item.key else return none) :
    PeerOut item.key s (p.run (machine env) i s).2 ∧
      ((p.run (machine env) i s).1 = none → rp = true →
        item.key ∉ (p.run (machine env) i s).2.registered) ∧ Prog.Uses Op.KeepsTable p := by
  subst hp
  cases rp with
  | false => exact ⟨⟨rfl, rfl, Or.inl rfl, hwf⟩, fun _ h => absurd h (by simp), trivial⟩
  | true =>
      obtain ⟨hout, hgone⟩ := removePeerIfExists_spec hS env i .retirement item.key hwf
      exact ⟨hout, fun h _ => hgone h,
        (removePeerIfExists_plain (fun _ => trivial) (by exact fun _ => trivial) _).uses⟩

/-- What `retire` leaves of the state it starts from. -/
structure Retirement (item : Session) (s s' : Node S) : Prop where
  log : s'.log = s.log
  peers : s'.registered = s.registered ∨ s'.registered = s.registered.erase item.key
  rows : ∀ r ∈ s.table.rows, r.id ≠ item.id → r ∈ s'.table.rows
  wf : S.wf s'.svc

theorem PeerOut.retirement {item : Session} {s s' : Node S} (h : PeerOut item.key s s') :
    Retirement item s s' :=
  ⟨h.log, h.peers, fun x hx _ => by rw [h.table]; exact hx, h.wf⟩

/-- **`retire`**: it touches one peer and one row, and takes out the row only when
that was asked for and the peer is gone. -/
theorem retire_spec (hS : S.Sound) (env : Env S) {item : Session} {rp rs : Bool}
    (hfirst : rs = true → rp = true) {s : Node S} (hwf : S.wf s.svc) (hrow : item ∈ s.table.rows) :
    Retirement item s ((retire item rp rs).run (machine env) .updateSessions s).2 ∧
      Prog.Always (machine env) .updateSessions (fun o t => ∀ x, TakesOut env o t x →
        x = item ∧ rs = true ∧ item.key ∉ t.registered ∧ t.log = s.log) (retire item rp rs) s := by
  obtain ⟨hout, hgone, huses⟩ :=
    retire_peer_spec hS env .updateSessions item rp hwf (p := if rp then _ else _) rfl
  unfold retire
  rw [Prog.run_withLock]
  show Retirement item s (Prog.run (machine env) .updateSessions _ s).2 ∧ _
  have hkeeps : Prog.Always (machine env) .updateSessions (fun o t => ∀ x, TakesOut env o t x →
      x = item ∧ rs = true ∧ item.key ∉ t.registered ∧ t.log = s.log) _ s :=
    Prog.Always.of_uses (fun o t ho x hx => absurd hx (ho.not_takesOut env t x)) huses s
  suffices h : Retirement item s _ ∧ Prog.Always _ _ _ _ _ from
    ⟨by rw [Prog.run_bind]; exact h.1, .withLock (hkeeps.bind h.2)⟩
  generalize Prog.run (machine env) .updateSessions
    (if rp then removePeerIfExists .retirement item.key else return none) s = out at hout hgone ⊢
  obtain ⟨r, t⟩ := out
  cases r with
  | some e => exact ⟨hout.retirement, trivial⟩
  | none =>
      cases rs with
      | false => exact ⟨hout.retirement, trivial⟩
      | true =>
          obtain ⟨hlog, hsvc, -, hrows⟩ := execDelete_spec env item.id t
          have hreg : (execDelete env { id := item.id } t).2.registered = t.registered :=
            congrArg S.registered hsvc
          refine ⟨⟨hlog.trans hout.log, hout.peers.imp hreg.trans hreg.trans, fun x hx hid => ?_,
            hsvc.symm ▸ hout.wf⟩, ⟨fun x hx => ?_, trivial⟩⟩
          · exact hrows x (hout.retirement.rows x hx hid) hid
          · have hid : x.id = item.id := by
              by_contra hne
              exact hx.2 (hrows x hx.1 hne)
            refine ⟨?_, rfl, hgone rfl (hfirst rfl), hout.log⟩
            exact Table.eq_of_id (hout.table ▸ hx.1) hrow hid

/-! ## The loop -/

/-- What a record says about a row. -/
def reportableIn (L : List Event) (r : Session) : Bool :=
  (answersIn L r.id).any (Answers.reportable r)

def droppedIn (L : List Event) (r : Session) : Bool := (answersIn L r.id).any Answers.dropped

def failedIn (L : List Event) (r : Session) : Bool := (answersIn L r.id).any Answers.failed

def fitsIn (L : List Event) (r : Session) : Bool := (answersIn L r.id).all (Answers.fits r)

/-- What the loop leaves once it has gone through the rows `pre`, with `post` the
rows it has kept before, and `L` put on record. -/
structure Swept (pre post : List Session) (s : Node S)
    (out : Option (List Session × List Err) × Node S) (L : List Event) : Prop where
  log : out.2.log = s.log ++ L
  begins : subscriptionAnswer L = none
  unreported : ∀ L', handed (L ++ L') = handed L'
  asks : ∀ id ∉ pre.map Session.id, answersIn L id = none
  panics : out.1 = none ↔ ∃ r ∈ pre, fitsIn L r = false
  answered : out.1 ≠ none → ∀ r ∈ pre, ∃ a, answersIn L r.id = some a
  kept : ∀ {items errs}, out.1 = some (items, errs) →
    items = pre.filter (reportableIn L) ++ post
  rows : ∀ r ∈ s.table.rows, (r ∈ pre → failedIn L r = true) → r ∈ out.2.table.rows
  peers : ∀ k, (∀ r ∈ pre, r.key = k → failedIn L r = true) →
    (k ∈ out.2.registered ↔ k ∈ s.registered)

theorem Swept.nil (post : List Session) (errs : List Err) (s : Node S) :
    Swept [] post s (some (post, errs), s) [] where
  log := (List.append_nil _).symm
  begins := rfl
  unreported _ := rfl
  asks _ _ := rfl
  panics := ⟨fun h => absurd h (by simp), fun ⟨_, h, _⟩ => absurd h (by simp)⟩
  answered _ _ h := absurd h (by simp)
  kept h := by cases h; rfl
  rows _ h _ := h
  peers _ _ := Iff.rfl

theorem Swept.of_tick {pre post : List Session} {s : Node S}
    {out : Option (List Session × List Err) × Node S} {L : List Event}
    (h : Swept pre post s.tick out L) : Swept pre post s out L :=
  ⟨h.log, h.begins, h.unreported, h.asks, h.panics, h.answered, h.kept, h.rows, h.peers⟩

/-- The check of the last row panics, and the loop ends there. -/
theorem Swept.panic {pre post : List Session} {r : Session} {s s₁ : Node S} {a : Answers}
    {sub : Nat} (h : CheckRun r s (none, s₁) a sub) :
    Swept (pre ++ [r]) post s (none, s₁) (a.events r.id sub) := by
  have hnil : a.events r.id sub = a.events r.id sub ++ [] := (List.append_nil _).symm
  have hself : answersIn (a.events r.id sub) r.id = some a := by
    rw [hnil]
    exact answersIn_events_self rfl
  refine ⟨h.log, rfl, handed_events a r.id sub, ?_, ⟨fun _ => ⟨r, by simp, ?_⟩, fun _ => rfl⟩,
    fun hn => absurd rfl hn, fun hn => absurd hn (by simp), ?_, ?_⟩
  · intro id hid
    rw [hnil]
    exact answersIn_events_ne [] fun heq => hid (by simp [← heq])
  · simpa [fitsIn, hself] using h.checked.panics.1 rfl
  · intro x hx _
    show x ∈ s₁.table.rows
    rw [h.quiet.table]
    exact hx
  · intro k _
    show k ∈ s₁.registered ↔ k ∈ s.registered
    rw [h.quiet.registered]

/-- **One turn of the loop**: the last row is checked and perhaps retired, then the
rows before it are gone through. -/
theorem Swept.snoc {pre post : List Session} {r : Session} {s s₁ s₂ : Node S} {a : Answers}
    {sub : Nat} {c : Check} {out : Option (List Session × List Err) × Node S} {L : List Event}
    (hid : r.id ∉ pre.map Session.id) (hrow : r ∈ s.table.rows)
    (hcheck : CheckRun r s (some c, s₁) a sub) (hret : Retirement r s₁ s₂)
    (hspare : a.failed = true → s₂ = s₁)
    (h : Swept pre (if c.skipUpdate || c.err.isSome then post else r :: post) s₂ out L) :
    Swept (pre ++ [r]) post s out (a.events r.id sub ++ L) := by
  have hself : answersIn (a.events r.id sub ++ L) r.id = some a := answersIn_events_self h.begins
  have hother : ∀ {id}, r.id ≠ id → answersIn (a.events r.id sub ++ L) id = answersIn L id :=
    fun hne => answersIn_events_ne L hne
  have hne : ∀ {x}, x ∈ pre → r.id ≠ x.id := fun hx heq => hid (heq ▸ List.mem_map_of_mem hx)
  have hfail : failedIn (a.events r.id sub ++ L) r = a.failed := by simp [failedIn, hself]
  have hfail' : ∀ {x}, x ∈ pre → failedIn (a.events r.id sub ++ L) x = failedIn L x :=
    fun hx => by simp only [failedIn, hother (hne hx)]
  refine ⟨?_, rfl, fun L' => ?_, fun id hn => ?_, ?_, fun hn x hx => ?_, fun {items errs} ho => ?_,
    fun x hx hx' => ?_, fun k hk => ?_⟩
  · rw [h.log, hret.log, hcheck.log, List.append_assoc]
  · rw [List.append_assoc, handed_events, h.unreported]
  · rw [List.map_append, List.mem_append, not_or] at hn
    rw [hother (fun heq => hn.2 (by simp [heq])), h.asks id hn.1]
  · rw [h.panics]
    have hfit : fitsIn (a.events r.id sub ++ L) r = true := by
      cases hf : a.fits r with
      | true => simp [fitsIn, hself, hf]
      | false => exact absurd (hcheck.checked.panics.2 hf) (by simp)
    constructor
    · rintro ⟨x, hx, hxf⟩
      exact ⟨x, List.mem_append_left _ hx, by simpa only [fitsIn, hother (hne hx)] using hxf⟩
    · rintro ⟨x, hx, hxf⟩
      rcases List.mem_append.1 hx with hx | hx
      · exact ⟨x, hx, by simpa only [fitsIn, hother (hne hx)] using hxf⟩
      · rw [List.mem_singleton.1 hx, hfit] at hxf
        cases hxf
  · rcases List.mem_append.1 hx with hx | hx
    · obtain ⟨b, hb⟩ := h.answered hn x hx
      exact ⟨b, (hother (hne hx)).trans hb⟩
    · rw [List.mem_singleton.1 hx]
      exact ⟨a, hself⟩
  · have hpre : pre.filter (reportableIn (a.events r.id sub ++ L)) = pre.filter (reportableIn L) :=
      List.filter_congr fun x hx => by simp only [reportableIn, hother (hne hx)]
    have hlast : reportableIn (a.events r.id sub ++ L) r = a.reportable r := by
      simp [reportableIn, hself]
    rw [h.kept ho, hcheck.checked.kept rfl, List.filter_append, hpre]
    cases hrep : a.reportable r with
    | true => simp [hlast, hrep]
    | false => simp [hlast, hrep]
  · refine h.rows x ?_ fun hp => (hfail' hp) ▸ hx' (List.mem_append_left _ hp)
    by_cases hxr : x.id = r.id
    · obtain rfl := Table.eq_of_id hx hrow hxr
      rw [hspare (hfail ▸ hx' (by simp)), hcheck.quiet.table]
      exact hx
    · exact hret.rows x (by rw [hcheck.quiet.table]; exact hx) hxr
  · rw [h.peers k fun x hx hxk => (hfail' hx) ▸ hk x (List.mem_append_left _ hx) hxk,
      ← hcheck.quiet.registered]
    by_cases hrk : r.key = k
    · rw [hspare (hfail ▸ hk r (by simp) hrk)]
    · rcases hret.peers with heq | heq
      · rw [heq]
      · rw [heq, Finset.mem_erase]
        exact ⟨fun hm => hm.2, fun hm => ⟨Ne.symm hrk, hm⟩⟩

/-- The turn at index `pre.length`, in terms of the rows before it and after. -/
theorem sweep_snoc (pre post : List Session) (r : Session) (errs : List Err) :
    sweep (pre ++ [r]).length (pre ++ [r] ++ post) errs = (do
      match ← checkSession r with
      | none => return none
      | some c => do
          let errs := errs ++ (c.err.map (Err.session r.id)).toList
          let err ← (if c.removePeer || c.removeSession then
              retire r c.removePeer c.removeSession
            else return none)
          sweep pre.length (pre ++ if c.skipUpdate || c.err.isSome then post else r :: post)
            (errs ++ err.toList)) := by
  have hlen : (pre ++ [r]).length = pre.length + 1 := by simp
  have hget : (pre ++ [r] ++ post)[pre.length]? = some r := by simp
  have hrest : ∀ b : Bool, (if b then (pre ++ [r] ++ post).eraseIdx pre.length
      else pre ++ [r] ++ post) = pre ++ if b then post else r :: post := by
    intro b
    cases b with
    | false => simp
    | true => simp [List.eraseIdx_append_of_length_le]
  rw [hlen, sweep, hget]
  refine congrArg (checkSession r >>= ·) (funext fun o => ?_)
  cases o with
  | none => rfl
  | some c =>
      dsimp only
      rw [hrest]

/-- Rows go only after the chain has said so and their peer has gone. -/
def DropsEnded (env : Env S) (items : List Session) (s : Node S) (o : Op) (t : Node S) : Prop :=
  ∀ x, TakesOut env o t x → x ∈ items ∧ x.key ∉ t.registered ∧
    ∃ L, t.log = s.log ++ L ∧ droppedIn L x = true

/-- What is done with a row once it is checked: it may be retired, unless the
question about it failed. -/
theorem turn_retire_spec (hS : S.Sound) (env : Env S) {r : Session} {c : Check} {a : Answers}
    (hc : Checked r a (some c)) (hfirst : c.PeerFirst) {s : Node S} (hwf : S.wf s.svc)
    (hrow : r ∈ s.table.rows) {p : NodeM (Option Err)} (hp : p = if c.removePeer || c.removeSession then
      retire r c.removePeer c.removeSession else return none) :
    Retirement r s (p.run (machine env) .updateSessions s).2 ∧
      (a.failed = true → (p.run (machine env) .updateSessions s).2 = s) ∧
      Prog.Always (machine env) .updateSessions (fun o t => ∀ x, TakesOut env o t x →
        x = r ∧ a.dropped = true ∧ r.key ∉ t.registered ∧ t.log = s.log) p s := by
  subst hp
  by_cases hcond : (c.removePeer || c.removeSession) = true
  · rw [if_pos hcond]
    obtain ⟨hret, halways⟩ := retire_spec hS env hfirst hwf hrow
    refine ⟨hret, fun hfail => ?_, halways.mono fun o t h x hx => ?_⟩
    · obtain ⟨h₁, h₂⟩ := hc.spared rfl hfail
      rw [h₁, h₂] at hcond
      cases hcond
    · obtain ⟨rfl, hrs, hgone, hlog⟩ := h x hx
      exact ⟨rfl, hc.removed rfl hrs, hgone, hlog⟩
  · rw [if_neg hcond]
    exact ⟨⟨rfl, Or.inl rfl, fun _ h _ => h, hwf⟩, fun _ => rfl, trivial⟩

/-- **The loop of `updateSessions`**, by induction on the rows still to be checked,
of which the last comes first. -/
theorem sweep_spec (hS : S.Sound) (env : Env S) (pre : List Session) :
    ∀ (post : List Session) (errs : List Err) (s : Node S), S.wf s.svc →
      (pre.map Session.id).Nodup → (∀ r ∈ pre, r ∈ s.table.rows) →
      ∃ L, Swept pre post s
          ((sweep pre.length (pre ++ post) errs).run (machine env) .updateSessions s) L ∧
        Prog.Always (machine env) .updateSessions (DropsEnded env pre s)
          (sweep pre.length (pre ++ post) errs) s := by
  induction pre using List.reverseRecOn with
  | nil => exact fun post errs s _ _ _ => ⟨[], Swept.nil post errs s, trivial⟩
  | append_singleton pre r ih =>
      intro post errs s hwf hnodup hrows
      have hrow := hrows r (by simp)
      rw [List.map_append, List.nodup_append] at hnodup
      have hid : r.id ∉ pre.map Session.id := fun hm => hnodup.2.2 _ hm r.id (by simp) rfl
      obtain ⟨a, sub, hcheck⟩ := checkSession_spec env .updateSessions r s
      have hpeer := (checkSession_peerFirst r).run (machine env) .updateSessions s
      have hreads : Prog.Always (machine env) .updateSessions (DropsEnded env (pre ++ [r]) s)
          (checkSession r) s :=
        Prog.Always.of_uses (fun o t ho x hx => absurd hx (ho.keepsTable.not_takesOut env t x))
          (checkSession_plain r).uses s
      rw [sweep_snoc, Prog.run_bind]
      suffices h : ∃ L, Swept (pre ++ [r]) post s _ L ∧ Prog.Always _ _ _ _ _ from
        h.imp fun L hL => ⟨hL.1, hreads.bind hL.2⟩
      generalize (checkSession r).run (machine env) .updateSessions s = out at hcheck hpeer ⊢
      obtain ⟨v, s₁⟩ := out
      cases v with
      | none => exact ⟨a.events r.id sub, Swept.panic hcheck, trivial⟩
      | some c =>
          have hrow₁ : r ∈ s₁.table.rows := by rw [hcheck.quiet.table]; exact hrow
          obtain ⟨hret, hspare, hdrop⟩ := turn_retire_spec hS env hcheck.checked (hpeer c rfl)
            (hcheck.quiet.svc.symm ▸ hwf) hrow₁
            (p := if c.removePeer || c.removeSession then _ else _) rfl
          have hdrop' : Prog.Always (machine env) .updateSessions (DropsEnded env (pre ++ [r]) s)
              _ s₁ := hdrop.mono fun o t h x hx => by
            obtain ⟨rfl, hdropped, hgone, hlog⟩ := h x hx
            refine ⟨by simp, hgone, a.events x.id sub, hlog.trans hcheck.log, ?_⟩
            have hself : answersIn (a.events x.id sub ++ []) x.id = some a :=
              answersIn_events_self rfl
            rw [List.append_nil] at hself
            simpa [droppedIn, hself] using hdropped
          dsimp only
          rw [Prog.run_bind]
          suffices h : ∃ L, Swept (pre ++ [r]) post s _ L ∧ Prog.Always _ _ _ _ _ from
            h.imp fun L hL => ⟨hL.1, hdrop'.bind hL.2⟩
          generalize Prog.run (machine env) .updateSessions (if c.removePeer || c.removeSession then
            retire r c.removePeer c.removeSession else return none) s₁ = out₂ at hret hspare ⊢
          have hrows₂ : ∀ x ∈ pre, x ∈ out₂.2.table.rows := by
            intro x hx
            refine hret.rows x ?_ fun heq => hid (heq ▸ List.mem_map_of_mem hx)
            rw [hcheck.quiet.table]
            exact hrows x (List.mem_append_left _ hx)
          obtain ⟨L, hswept, halways⟩ := ih (if c.skipUpdate || c.err.isSome then post else r :: post)
            (errs ++ (c.err.map (Err.session r.id)).toList ++ out₂.1.toList) out₂.2 hret.wf hnodup.1 hrows₂
          refine ⟨_, Swept.snoc hid hrow hcheck hret hspare hswept, halways.mono fun o t h x hx => ?_⟩
          obtain ⟨hmem, hgone, L', hlog, hdropped⟩ := h x hx
          refine ⟨List.mem_append_left _ hmem, hgone, a.events r.id sub ++ L', ?_, ?_⟩
          · rw [hlog, hret.log, hcheck.log, List.append_assoc]
          · have hne : r.id ≠ x.id := fun heq => hid (heq ▸ List.mem_map_of_mem hmem)
            simpa only [droppedIn, answersIn_events_ne L' hne] using hdropped

/-! ## The pass -/

/-- `reportSessions` first sends all the sessions it is handed. -/
theorem reportSessions_run (env : Env S) (i : Actor) (items : List Session) (s : Node S) :
    Quiet s ((reportSessions items).run (machine env) i s).2 ∧
      ∃ ok rest, ((reportSessions items).run (machine env) i s).2.log =
        s.log ++ .reported items ok :: rest := by
  refine ⟨(reads_run env i (reportSessions_plain items) s).1, ?_⟩
  obtain ⟨k, hk, hrest⟩ : ∃ k : Option String → NodeM (List Err),
      reportSessions items = Prog.op (.updateSessions items) k ∧
        ∀ r, Prog.Plain Op.IsRead (k r) :=
    ⟨_, rfl, fun r => ⟨(reportSessions_plain items).uses.2 r, (reportSessions_plain items).lockFree r⟩⟩
  rw [hk, Prog.run_op]
  obtain ⟨rest, hlog⟩ := (reads_run env i (hrest _)
    ((machine env).exec (.updateSessions items) s).2).2
  refine ⟨(env.updateSessions s.clock items).isNone, rest, hlog.symm.trans ?_⟩
  exact List.append_assoc _ _ _

/-- A pass run alone. -/
def passRun (env : Env S) (s : Node S) : Option (List Err) × Node S :=
  updateSessions.run (machine env) .updateSessions s

/-- What the pass puts on record. -/
def passRecord (env : Env S) (s : Node S) : List Event := (passRun env s).2.log.drop s.log.length

/-- What a pass is for. -/
structure Reconciles (env : Env S) (s : Node S) : Prop where
  /-- It comes to an end, with or without errors. -/
  returns : (passRun env s).1 ≠ none
  /-- It hands on the rows to report, each once and in the order of the table. -/
  handed : handed (passRecord env s) = s.table.rows.filter (reportableIn (passRecord env s))
  /-- Whenever a row goes, the chain has said that it has ended, and its peer is
  not registered. -/
  deletes : Prog.Always (machine env) .updateSessions (DropsEnded env s.table.rows s)
    updateSessions s
  /-- A row the chain could not be asked about keeps its place and its peer. -/
  spared : ∀ r ∈ s.table.rows, failedIn (passRecord env s) r = true →
    r ∈ (passRun env s).2.table.rows ∧
      (r.key ∈ (passRun env s).2.registered ↔ r.key ∈ s.registered)

/-- What the pass does once its loop has ended with `swept`, with `L` put on
record. -/
structure Reported (swept : Option (List Session × List Err)) (s : Node S)
    (out : Option (List Err) × Node S) (L : List Event) : Prop where
  log : out.2.log = s.log ++ L
  quiet : Quiet s out.2
  begins : subscriptionAnswer L = none
  returns : out.1 = none ↔ swept = none
  panicked : swept = none → L = []
  sent : ∀ {items errs}, swept = some (items, errs) → handed L = items

/-- The end of `updateSessions`: what is left is reported, if anything is. -/
theorem reportLeft_spec (env : Env S) (swept : Option (List Session × List Err)) (s : Node S)
    {p : NodeM (Option (List Err))} (hp : p = match swept with
      | none => return none
      | some (items, errs) =>
          if 0 < items.length then do
            let more ← reportSessions items
            return some (errs ++ more)
          else return some errs) :
    Prog.Uses Op.IsRead p ∧ ∃ L, Reported swept s (p.run (machine env) .updateSessions s) L := by
  subst hp
  rcases swept with _ | ⟨items, errs⟩
  · exact ⟨trivial, [], (List.append_nil _).symm, Quiet.refl s, rfl, ⟨fun _ => rfl, fun _ => rfl⟩,
      fun _ => rfl, fun h => absurd h (by simp)⟩
  · dsimp only
    split
    · obtain ⟨hquiet, ok, rest, hlog⟩ := reportSessions_run env .updateSessions items s
      refine ⟨(reportSessions_plain items).uses.bind fun _ => trivial, .reported items ok :: rest, ?_⟩
      rw [Prog.run_bind]
      refine ⟨hlog, hquiet, rfl, ?_, fun h => absurd h (by simp), fun h => ?_⟩
      · exact ⟨fun h => absurd h (by simp), fun h => absurd h (by simp)⟩
      · cases h; rfl
    · rename_i hlen
      refine ⟨trivial, [], (List.append_nil _).symm, Quiet.refl s, rfl, ?_, fun _ => rfl, fun h => ?_⟩
      · exact ⟨fun h => absurd h (by simp), fun h => absurd h (by simp)⟩
      · cases h
        exact (List.length_eq_zero_iff.1 (by omega)).symm

/-- A pass fails to read the table, or goes through its rows and reports. -/
theorem passRun_cases (hS : S.Sound) (env : Env S) {s : Node S} (hwf : S.wf s.svc) :
    (((passRun env s).1 ≠ none ∧ (passRun env s).2 = s.tick) ∨
      ∃ swept L L', Swept s.table.rows [] s swept L ∧
        Reported swept.1 swept.2 (passRun env s) L') ∧
    Prog.Always (machine env) .updateSessions (DropsEnded env s.table.rows s) updateSessions s := by
  unfold passRun updateSessions call
  rw [Prog.perform_bind, Prog.run_op]
  have hfirst : DropsEnded env s.table.rows s (.find {} none) s := fun x hx =>
    absurd hx (Op.KeepsTable.not_takesOut env (by exact trivial) s x)
  cases hfind : ((machine env).exec (.find {} none) s).1 with
  | error e =>
      refine ⟨Or.inl ⟨by simp, rfl⟩, hfirst, ?_⟩
      rw [hfind]
      trivial
  | ok items =>
      obtain rfl := find_all hfind
      obtain ⟨L, hswept, halways⟩ := sweep_spec hS env s.table.rows [] [] s.tick hwf
        s.table.ids_nodup fun r hr => hr
      rw [List.append_nil] at hswept halways
      have hsweep : Prog.Always (machine env) .updateSessions (DropsEnded env s.table.rows s)
          (sweep s.table.rows.length s.table.rows []) s.tick := halways
      obtain ⟨huses, L', hrep⟩ := reportLeft_spec env
        ((sweep s.table.rows.length s.table.rows []).run (machine env) .updateSessions s.tick).1
        ((sweep s.table.rows.length s.table.rows []).run (machine env) .updateSessions s.tick).2 rfl
      refine ⟨Or.inr ⟨_, L, L', hswept.of_tick, ?_⟩, hfirst, ?_⟩
      · dsimp only
        rw [Prog.run_bind]
        exact hrep
      · rw [hfind]
        exact hsweep.bind (Prog.Always.of_uses
          (fun o t ho x hx => absurd hx (ho.keepsTable.not_takesOut env t x)) huses _)

/-- **A pass does what it is for exactly when no answer it gets holds a total that
`Int64()` panics on.**  The totals that matter are the upload, and the download of
a session whose upload is the stored one. -/
theorem updateSessions_reconciles_iff (hS : S.Sound) (env : Env S) {s : Node S}
    (hwf : S.wf s.svc) :
    Reconciles env s ↔ ∀ r ∈ s.table.rows, fitsIn (passRecord env s) r = true := by
  obtain ⟨hcases, hdrops⟩ := passRun_cases hS env hwf
  rcases hcases with ⟨hret, hend⟩ | ⟨swept, L, L', hswept, hrep⟩
  · -- the table could not be read: nothing is asked and nothing changes
    have hrec : passRecord env s = [] := by
      rw [passRecord, hend]
      exact List.drop_length
    refine ⟨fun _ r _ => by rw [hrec]; rfl, fun _ => ⟨hret, ?_, hdrops, fun r _ hf => ?_⟩⟩
    · rw [hrec]
      exact (List.filter_eq_nil_iff.2 fun r _ => by simp [reportableIn, answersIn]).symm
    · rw [hrec] at hf
      cases hf
  · have hrec : passRecord env s = L ++ L' := by
      rw [passRecord, hrep.log, hswept.log, List.append_assoc, List.drop_left]
    by_cases hpanic : swept.1 = none
    · -- the loop ends in the panic of one check, which the record shows
      rw [hrep.panicked hpanic, List.append_nil] at hrec
      refine ⟨fun h => absurd (hrep.returns.2 hpanic) h.returns, fun h => ?_⟩
      obtain ⟨r, hr, hfit⟩ := hswept.panics.1 hpanic
      rw [← hrec, h r hr] at hfit
      cases hfit
    · obtain ⟨⟨items, errs⟩, hsome⟩ := Option.ne_none_iff_exists'.1 hpanic
      have hsame : ∀ r ∈ s.table.rows, answersIn (passRecord env s) r.id = answersIn L r.id := by
        intro r hr
        obtain ⟨a, ha⟩ := hswept.answered hpanic r hr
        rw [hrec, ha]
        exact answersIn_append ha hrep.begins
      have hfail : ∀ {r}, r ∈ s.table.rows → failedIn (passRecord env s) r = failedIn L r :=
        fun hr => by simp only [failedIn, hsame _ hr]
      constructor
      · intro _ r hr
        by_contra hfit
        refine hpanic (hswept.panics.2 ⟨r, hr, ?_⟩)
        simpa only [fitsIn, hsame r hr, Bool.not_eq_true] using hfit
      · intro _
        refine ⟨fun hn => hpanic (hrep.returns.1 hn), ?_, hdrops, fun r hr hf => ⟨?_, ?_⟩⟩
        · rw [hrec, hswept.unreported, hrep.sent hsome, hswept.kept hsome, List.append_nil, ← hrec]
          exact List.filter_congr fun r hr => by simp only [reportableIn, hsame r hr]
        · rw [hrep.quiet.table]
          exact hswept.rows r hr fun _ => (hfail hr) ▸ hf
        · rw [hrep.quiet.registered]
          refine hswept.peers r.key fun x hx hkey => ?_
          rw [Table.eq_of_key hx hr hkey, ← hfail hr]
          exact hf

/-! ## Two passes -/

/-- A row with ten bytes each way. -/
def tenEachWay (id : Nat) : Session :=
  { id := id, key := Key.of [UInt8.ofNat id], address := "client", upload := 10, download := 10 }

/-- A node with three sessions, each with its peer. -/
def threeSessions : Node peerSet :=
  { Node.fresh (S := peerSet) ({Key.of [1], Key.of [2], Key.of [3]} : Finset Key) with
    table := ⟨[tenEachWay 1, tenEachWay 2, tenEachWay 3], by decide, by decide⟩ }

/-- A chain on which session 1 is active with the given upload, session 2 is gone,
and session 3 cannot be asked about; nothing else fails. -/
def mixedChain (upload : Int) : Env peerSet where
  now t := t
  database _ := none
  peers _ := .ok []
  control _ _ := Outcome.ok
  querySession _ id :=
    match id with
    | 1 => .ok (some { id := 1, status := .active, uploadBytes := upload })
    | 2 => .ok none
    | _ => .error "timeout"
  querySubscription _ _ := .ok none
  queryAllocation _ _ _ := .ok none
  updateSessions _ _ := none

/-- Session 1 is reported, session 2 loses its peer and its row, and session 3
waits for the next pass. -/
theorem mixed_pass_reconciles :
    Reconciles (mixedChain 4) threeSessions ∧
      handed (passRecord (mixedChain 4) threeSessions) = [tenEachWay 1] ∧
      (passRun (mixedChain 4) threeSessions).2.table.rows = [tenEachWay 1, tenEachWay 3] ∧
      (passRun (mixedChain 4) threeSessions).2.registered = {Key.of [1], Key.of [3]} :=
  ⟨(updateSessions_reconciles_iff peerSet_sound _ trivial).2 (by decide), by decide, by decide, by decide⟩

/-- **A total that does not fit stops the pass**: session 1 is still active and has
moved data, the chain answers with an upload of `2 ^ 63`, and the pass panics with
nothing handed on. -/
theorem oversized_total_stops_pass :
    (passRun (mixedChain (2 ^ 63)) threeSessions).1 = none ∧
      reportableIn (passRecord (mixedChain (2 ^ 63)) threeSessions) (tenEachWay 1) = true ∧
      handed (passRecord (mixedChain (2 ^ 63)) threeSessions) = [] ∧
      ¬ Reconciles (mixedChain (2 ^ 63)) threeSessions := by
  have hpanic : (passRun (mixedChain (2 ^ 63)) threeSessions).1 = none := by decide
  exact ⟨hpanic, by decide, by decide, fun h => h.returns hpanic⟩

end Dvpnd
