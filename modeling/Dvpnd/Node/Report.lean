import Dvpnd.Context

/-!
# Reporting usage to the chain

`reportSessions` (`node/jobs.go`) sends the usage of a list of sessions in one
transaction, which the chain accepts or refuses as a whole.  When it is refused,
each session is asked about again, the ended ones are dropped and the rest sent
again; when that fails too, each goes on its own.

* `delivered` — the sessions of the transactions that were accepted, read off the
  record of a call.
* `requery_spec`, `reportEach_spec` — the two loops, by induction on the list.
* `reportSessions_delivers` — **no session is lost, sent twice or held back**: at
  most one accepted transaction per session, success only when every session was
  delivered or has ended, and one refused session does not stop the others.
-/

namespace Dvpnd

open Effect

/-- The chain's answer says the session is gone or inactive. -/
def ended : Except String (Option ChainSession) → Bool
  | .error _ => false
  | .ok none => true
  | .ok (some session) => session.status == .inactive

/-- The chain answered the question at all. -/
def answered : Except String (Option ChainSession) → Bool
  | .error _ => false
  | .ok _ => true

/-- Ask about each session again: the ones still to be reported, and how many
questions were answered. -/
def requery : List Session → NodeM (List Session × Nat)
  | [] => return ([], 0)
  | item :: rest => do
      let answer ← call (.querySession item.id)
      let (still, queried) ← requery rest
      match answer with
      | .error _ => return (item :: still, queried)
      | .ok none => return (still, queried + 1)
      | .ok (some session) =>
          if session.status = .inactive then return (still, queried + 1)
          else return (item :: still, queried + 1)

/-- Report each session on its own: the errors. -/
def reportEach : List Session → NodeM (List Err)
  | [] => return []
  | item :: rest => do
      let err ← call (.updateSessions [item])
      let errs ← reportEach rest
      match err with
      | some e => return .session item.id (.external e) :: errs
      | none => return errs

/-- `reportSessions`: the errors it joins, none of them being success. -/
def reportSessions (items : List Session) : NodeM (List Err) := do
  match ← call (.updateSessions items) with
  | none => return []
  | some err => do
      let (still, queried) ← requery items
      if still.length = 0 then return []
      else if queried = 0 then return [.external err]
      else if still.length < items.length then
        match ← call (.updateSessions still) with
        | none => return []
        | some _ => reportEach still
      else reportEach still

/-! ## What a record of reports says -/

/-- The sessions of the accepted transactions, in the order they were sent. -/
def delivered (L : List Event) : List Session :=
  L.flatMap fun
    | .reported items true => items
    | _ => []

@[simp] theorem delivered_append (L L' : List Event) :
    delivered (L ++ L') = delivered L ++ delivered L' := List.flatMap_append

@[simp] theorem delivered_accepted (items : List Session) (L : List Event) :
    delivered (.reported items true :: L) = items ++ delivered L := rfl

@[simp] theorem delivered_refused (items : List Session) (L : List Event) :
    delivered (.reported items false :: L) = delivered L := rfl

/-- The chain answered that the session is gone or inactive. -/
def EndedIn (L : List Event) (x : Session) : Prop := ∃ a, .asked x.id a ∈ L ∧ ended a = true

/-- Some question on the record was answered. -/
def AnsweredIn (L : List Event) : Prop := ∃ id a, .asked id a ∈ L ∧ answered a = true

/-! ## The two loops -/

/-- The questions of a re-query, as they go on record. -/
def questions (asked : List (Session × Except String (Option ChainSession))) : List Event :=
  asked.map fun p => .asked p.1.id p.2

@[simp] theorem delivered_questions (asked : List (Session × Except String (Option ChainSession))) :
    delivered (questions asked) = [] := by
  induction asked with
  | nil => rfl
  | cons p rest ih => exact ih

/-- The sessions a re-query leaves to be reported. -/
def stillOpen (asked : List (Session × Except String (Option ChainSession))) : List Session :=
  (asked.filter fun p => !ended p.2).map Prod.fst

/-- The reports of single sessions, as they go on record. -/
def singles (sent : List (Session × Bool)) : List Event :=
  sent.map fun p => .reported [p.1] p.2

theorem delivered_singles (sent : List (Session × Bool)) :
    delivered (singles sent) = (sent.filter Prod.snd).map Prod.fst := by
  induction sent with
  | nil => rfl
  | cons p rest ih =>
      obtain ⟨x, ok⟩ := p
      cases ok with
      | true => exact congrArg (x :: ·) ih
      | false => exact ih

variable {S : Service} (env : Env S) (i : Actor)

/-- One turn of the re-query. -/
theorem run_requery_cons (item : Session) (rest : List Session) (s : Node S) :
    (requery (item :: rest)).run (machine env) i s =
      let a := env.querySession s.clock item.id
      let r := (requery rest).run (machine env) i (exec env (.querySession item.id) s).2
      (((if ended a then r.1.1 else item :: r.1.1), r.1.2 + (if answered a then 1 else 0)), r.2) := by
  rw [requery, call, Prog.perform_bind, Prog.run_op, Prog.run_bind]
  cases ha : ((machine env).exec (.querySession item.id) s).1 with
  | error e =>
      rw [show env.querySession s.clock item.id = .error e from ha]
      rfl
  | ok o =>
      rw [show env.querySession s.clock item.id = .ok o from ha]
      cases o with
      | none => rfl
      | some session =>
          dsimp only
          by_cases hs : session.status = .inactive
          · have hend : ended (.ok (some session)) = true := by simp [ended, hs]
            rw [if_pos hs, hend]
            rfl
          · have hend : ended (.ok (some session)) = false := by simp [ended, hs]
            rw [if_neg hs, hend]
            rfl

/-- **The re-query** asks about each session once, keeps those that have not ended
and counts the answers. -/
theorem requery_spec (items : List Session) : ∀ s : Node S,
    ∃ asked : List (Session × Except String (Option ChainSession)),
      asked.map Prod.fst = items ∧
      ((requery items).run (machine env) i s).2.log = s.log ++ questions asked ∧
      ((requery items).run (machine env) i s).1 =
        (stillOpen asked, asked.countP fun p => answered p.2) := by
  induction items with
  | nil => exact fun s => ⟨[], rfl, (List.append_nil _).symm, rfl⟩
  | cons item rest ih =>
      intro s
      obtain ⟨asked, hfst, hlog, hres⟩ := ih (exec env (.querySession item.id) s).2
      refine ⟨(item, env.querySession s.clock item.id) :: asked, by simp [hfst], ?_, ?_⟩
      · rw [run_requery_cons]
        exact hlog.trans (List.append_assoc _ _ _)
      · rw [run_requery_cons]
        dsimp only
        rw [hres, List.countP_cons]
        cases hend : ended (env.querySession s.clock item.id) with
        | true => simp [stillOpen, hend]
        | false => simp [stillOpen, hend]

/-- **Reporting one at a time** sends each session once, and returns no error only
when all were accepted. -/
theorem reportEach_spec (items : List Session) : ∀ s : Node S,
    ∃ sent : List (Session × Bool), sent.map Prod.fst = items ∧
      ((reportEach items).run (machine env) i s).2.log = s.log ++ singles sent ∧
      (((reportEach items).run (machine env) i s).1 = [] → ∀ p ∈ sent, p.2 = true) := by
  induction items with
  | nil => exact fun s => ⟨[], rfl, (List.append_nil _).symm, fun _ _ h => absurd h (by simp)⟩
  | cons item rest ih =>
      intro s
      obtain ⟨sent, hfst, hlog, hres⟩ := ih (exec env (.updateSessions [item]) s).2
      refine ⟨(item, (env.updateSessions s.clock [item]).isNone) :: sent, by simp [hfst], ?_⟩
      have hlog' : ((reportEach rest).run (machine env) i
          ((machine env).exec (.updateSessions [item]) s).2).2.log =
          s.log ++ singles ((item, (env.updateSessions s.clock [item]).isNone) :: sent) :=
        hlog.trans (List.append_assoc _ _ _)
      rw [reportEach, call, Prog.perform_bind, Prog.run_op, Prog.run_bind]
      cases hr : ((machine env).exec (.updateSessions [item]) s).1 with
      | none =>
          refine ⟨hlog', fun h p hp => ?_⟩
          rcases List.mem_cons.1 hp with rfl | hp
          · exact Option.isNone_iff_eq_none.2 hr
          · exact hres h p hp
      | some e => exact ⟨hlog', fun h => absurd h (by simp)⟩

/-! ## The whole report -/

/-- The guarantees of a report of `items` that returned `errs` and left `L` on
record. -/
structure Delivers (items : List Session) (errs : List Err) (L : List Event) : Prop where
  /-- No session is in two accepted transactions, or twice in one, unless the list
  has it twice. -/
  once : (delivered L).Sublist items
  /-- Success means that every session was delivered or has ended. -/
  done : errs = [] → ∀ x ∈ items, x ∈ delivered L ∨ EndedIn L x
  /-- Once the chain answers, a session it has not ended and does not refuse on its
  own is delivered, whatever it makes of the others. -/
  alone : AnsweredIn L → ∀ x ∈ items, ¬ EndedIn L x → .reported [x] false ∉ L.tail →
    x ∈ delivered L

theorem stillOpen_sublist (asked : List (Session × Except String (Option ChainSession))) :
    (stillOpen asked).Sublist (asked.map Prod.fst) :=
  List.filter_sublist.map _

/-- A session is left to be reported, or the re-query was told that it has ended. -/
theorem mem_stillOpen_or_ended {asked : List (Session × Except String (Option ChainSession))}
    {x : Session} (hx : x ∈ asked.map Prod.fst) :
    x ∈ stillOpen asked ∨ EndedIn (questions asked) x := by
  obtain ⟨p, hp, rfl⟩ := List.mem_map.1 hx
  cases hend : ended p.2 with
  | true => exact Or.inr ⟨p.2, List.mem_map.2 ⟨p, hp, rfl⟩, hend⟩
  | false => exact Or.inl (List.mem_map.2 ⟨p, List.mem_filter.2 ⟨hp, by simp [hend]⟩, rfl⟩)

/-- When the first transaction is refused, the guarantees are about what is done
with the sessions still open, which is `L`. -/
theorem Delivers.of_requery {asked : List (Session × Except String (Option ChainSession))}
    {errs : List Err} {L : List Event} (honce : (delivered L).Sublist (stillOpen asked))
    (hdone : errs = [] → ∀ x ∈ stillOpen asked, x ∈ delivered L)
    (halone : AnsweredIn (questions asked ++ L) → ∀ x ∈ stillOpen asked,
      .reported [x] false ∉ L → x ∈ delivered L) :
    Delivers (asked.map Prod.fst) errs
      (.reported (asked.map Prod.fst) false :: (questions asked ++ L)) := by
  have hdel : delivered (.reported (asked.map Prod.fst) false :: (questions asked ++ L)) =
      delivered L := by simp
  have hmono : ∀ {x}, EndedIn (questions asked) x →
      EndedIn (.reported (asked.map Prod.fst) false :: (questions asked ++ L)) x :=
    fun ⟨a, ha, hend⟩ => ⟨a, List.mem_cons_of_mem _ (List.mem_append_left _ ha), hend⟩
  refine ⟨?_, fun herrs x hx => ?_, fun hans x hx hopen hok => ?_⟩
  · rw [hdel]
    exact honce.trans (stillOpen_sublist asked)
  · rw [hdel]
    exact (mem_stillOpen_or_ended hx).imp (hdone herrs x) hmono
  · rw [hdel]
    have hans' : AnsweredIn (questions asked ++ L) := by
      obtain ⟨id, a, ha, hans⟩ := hans
      rcases List.mem_cons.1 ha with ha | ha
      · cases ha
      · exact ⟨id, a, ha, hans⟩
    rcases mem_stillOpen_or_ended hx with hx' | hend
    · exact halone hans' x hx' fun hmem => hok (List.mem_append_right _ hmem)
    · exact absurd (hmono hend) hopen

/-- The last stage: the open sessions go one at a time, after `L`, in which nothing
was accepted. -/
theorem Delivers.one_at_a_time {asked : List (Session × Except String (Option ChainSession))}
    {sent : List (Session × Bool)} (hsent : sent.map Prod.fst = stillOpen asked) {errs : List Err}
    (herrs : errs = [] → ∀ p ∈ sent, p.2 = true) {L : List Event} (hL : delivered L = []) :
    Delivers (asked.map Prod.fst) errs
      (.reported (asked.map Prod.fst) false :: (questions asked ++ (L ++ singles sent))) := by
  have hdel : delivered (L ++ singles sent) = (sent.filter Prod.snd).map Prod.fst := by
    rw [delivered_append, hL, delivered_singles, List.nil_append]
  have hmem : ∀ {x}, x ∈ stillOpen asked → ∃ ok, (x, ok) ∈ sent := by
    intro x hx
    rw [← hsent] at hx
    obtain ⟨p, hp, rfl⟩ := List.mem_map.1 hx
    exact ⟨p.2, hp⟩
  have hok : ∀ {x}, (x, true) ∈ sent → x ∈ delivered (L ++ singles sent) := by
    intro x hx
    rw [hdel]
    exact List.mem_map.2 ⟨(x, true), List.mem_filter.2 ⟨hx, rfl⟩, rfl⟩
  refine Delivers.of_requery ?_ (fun h x hx => ?_) (fun _ x hx href => ?_)
  · rw [hdel, ← hsent]
    exact List.filter_sublist.map _
  · obtain ⟨ok, hp⟩ := hmem hx
    obtain rfl : ok = true := herrs h _ hp
    exact hok hp
  · obtain ⟨ok, hp⟩ := hmem hx
    cases ok with
    | true => exact hok hp
    | false => exact absurd (List.mem_append_right _ (List.mem_map.2 ⟨_, hp, rfl⟩)) href

/-- What `reportSessions` does after its first transaction was refused. -/
theorem report_refused (asked : List (Session × Except String (Option ChainSession))) (err : String)
    (s : Node S) {still : List Session} (hstill : still = stillOpen asked) {p : NodeM (List Err)}
    (hp : p =
      if still.length = 0 then return []
      else if asked.countP (fun p => answered p.2) = 0 then return [.external err]
      else if still.length < (asked.map Prod.fst).length then do
        match ← call (.updateSessions still) with
        | none => return []
        | some _ => reportEach still
      else reportEach still) :
    ∃ L, (p.run (machine env) i s).2.log = s.log ++ L ∧
      Delivers (asked.map Prod.fst) (p.run (machine env) i s).1
        (.reported (asked.map Prod.fst) false :: (questions asked ++ L)) := by
  subst hp hstill
  split
  · rename_i hlen
    have hnil : stillOpen asked = [] := List.length_eq_zero_iff.1 hlen
    refine ⟨[], (List.append_nil _).symm, .of_requery ?_ ?_ ?_⟩
    · simp [delivered]
    · simp [hnil]
    · simp [hnil]
  · split
    · rename_i hcount
      refine ⟨[], (List.append_nil _).symm, .of_requery (by simp [delivered]) (by simp) ?_⟩
      rintro ⟨id, a, ha, hans⟩
      rw [List.append_nil] at ha
      obtain ⟨p, hp, heq⟩ := List.mem_map.1 ha
      cases heq
      exact absurd hans (by simpa using List.countP_eq_zero.1 hcount p hp)
    · split
      · rw [call, Prog.perform_bind, Prog.run_op]
        have hlog : ((machine env).exec (.updateSessions (stillOpen asked)) s).2.log = s.log ++
            [.reported (stillOpen asked)
              ((machine env).exec (.updateSessions (stillOpen asked)) s).1.isNone] := rfl
        generalize ((machine env).exec (.updateSessions (stillOpen asked)) s).2 = s₁ at hlog ⊢
        cases hr : ((machine env).exec (.updateSessions (stillOpen asked)) s).1 with
        | none =>
            rw [hr] at hlog
            refine ⟨_, hlog, .of_requery ?_ ?_ ?_⟩
            · simp [delivered]
            · simp [delivered]
            · simp [delivered]
        | some e =>
            rw [hr] at hlog
            obtain ⟨sent, hfst, hlog', hres⟩ := reportEach_spec env i (stillOpen asked) s₁
            refine ⟨_, hlog'.trans ?_,
              .one_at_a_time hfst hres (L := [.reported (stillOpen asked) false]) rfl⟩
            rw [hlog, List.append_assoc]
            rfl
      · obtain ⟨sent, hfst, hlog, hres⟩ := reportEach_spec env i (stillOpen asked) s
        exact ⟨_, hlog, .one_at_a_time hfst hres (L := []) rfl⟩

/-- **`reportSessions` delivers**, for every list of sessions and every behaviour of
the chain. -/
theorem reportSessions_delivers (items : List Session) (s : Node S) :
    Delivers items ((reportSessions items).run (machine env) i s).1
      (((reportSessions items).run (machine env) i s).2.log.drop s.log.length) := by
  suffices h : ∃ L, ((reportSessions items).run (machine env) i s).2.log = s.log ++ L ∧
      Delivers items ((reportSessions items).run (machine env) i s).1 L by
    obtain ⟨L, hlog, hdel⟩ := h
    rwa [hlog, List.drop_left]
  unfold reportSessions
  rw [call, Prog.perform_bind, Prog.run_op]
  have hlog : ((machine env).exec (.updateSessions items) s).2.log = s.log ++
      [.reported items ((machine env).exec (.updateSessions items) s).1.isNone] := rfl
  generalize ((machine env).exec (.updateSessions items) s).2 = s₁ at hlog ⊢
  cases hr : ((machine env).exec (.updateSessions items) s).1 with
  | none =>
      rw [hr] at hlog
      have hall : delivered [.reported items true] = items := by simp [delivered]
      refine ⟨_, hlog, ⟨?_, fun _ x hx => Or.inl ?_, fun _ x hx _ _ => ?_⟩⟩
      · exact hall.symm ▸ List.Sublist.refl items
      · exact hall.symm ▸ hx
      · exact hall.symm ▸ hx
  | some err =>
      rw [hr] at hlog
      obtain ⟨asked, rfl, hlog', hres⟩ := requery_spec env i items s₁
      dsimp only
      rw [Prog.run_bind, hres]
      generalize ((requery (asked.map Prod.fst)).run (machine env) i s₁).2 = s₂ at hlog' ⊢
      obtain ⟨L, hL, hdel⟩ := report_refused env i asked err s₂ rfl rfl
      refine ⟨.reported (asked.map Prod.fst) false :: (questions asked ++ L), ?_, hdel⟩
      refine hL.trans ?_
      rw [hlog', hlog, List.append_assoc, List.append_assoc]
      rfl

/-- A chain on which every session is active and which refuses the reports of
session 2. -/
def refusesTwo : Env peerSet where
  now t := t
  database _ := none
  peers _ := .ok []
  control _ _ := Outcome.ok
  querySession _ id := .ok (some { id := id, status := .active })
  querySubscription _ _ := .ok none
  queryAllocation _ _ _ := .ok none
  updateSessions _ items := if 2 ∈ items.map Session.id then some "refused" else none

/-- One refused session of three: the other two are delivered, and the error says
which it was. -/
theorem one_refused_others_delivered :
    let items : List Session := [{ id := 1 }, { id := 2 }, { id := 3 }]
    let out := (reportSessions items).run (machine refusesTwo) .updateSessions
      (Node.fresh (S := peerSet) (∅ : Finset Key))
    Delivers items out.1 (out.2.log.drop 0) ∧ delivered out.2.log = [{ id := 1 }, { id := 3 }] ∧
      out.1 = [.session 2 (.external "refused")] :=
  ⟨reportSessions_delivers refusesTwo .updateSessions _ _, by decide, by decide⟩

end Dvpnd
