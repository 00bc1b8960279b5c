import Dvpnd.Session.Eviction

/-!
# The byte caps of an admission

A session may carry `max_bytes` of its own, and a session of a plan subscription is
also bounded by the account's allocation.  `queryAdmission` computes the first cap
before the lock is taken and `admit` the second under it; both are chain integers
brought down to an `int64`, and **0 stands for no cap**, so a cap that came down to 0
would grant unlimited traffic.

* `remainders` — what is left under each cap that applies.
* `Granted` — the value recorded is 0 exactly when no cap applies, and otherwise the
  least of the remainders, saturated; `granted_of_session`, `granted_of_plan`.
* `Capped` — the ways an admission can end as far as the caps are concerned, and
  `admitSession_capped`: there are no others.
* `available_recorded` — **what an admission records, and exactly when a cap refuses
  it**.
* `CapsKept` — the same with the rows the allocation is about, and `caps_kept_iff`: **that
  holds unless the subscription's id is 0 and the account's other rows change the outcome**;
  `zero_subscription_counts_all`: where they do.
-/

namespace Dvpnd

open Effect

variable {S : Service}

/-! ## Saturation -/

/-- A positive remainder never comes down to 0, which would stand for no cap. -/
theorem clampInt64_pos {v : Int} (h : 0 < v) : 0 < (clampInt64 v).toInt := by
  rw [toInt_clampInt64 h.le]
  omega

theorem clampInt64_ne_zero {v : Int} (h : 0 < v) : clampInt64 v ≠ 0 := fun h0 => by
  have hpos := clampInt64_pos h
  rw [h0] at hpos
  exact absurd hpos (by decide)

/-- The smaller of two saturated remainders is the smaller one, saturated. -/
theorem clampInt64_min {a b : Int} (ha : 0 < a) (hb : 0 < b) :
    (if clampInt64 a = 0 ∨ clampInt64 b < clampInt64 a then clampInt64 b else clampInt64 a) =
      clampInt64 (min a b) := by
  have hlt : clampInt64 b < clampInt64 a ↔ min b (2 ^ 63 - 1) < min a (2 ^ 63 - 1) := by
    rw [Int64.lt_iff_toInt_lt, toInt_clampInt64 ha.le, toInt_clampInt64 hb.le]
  rw [← Int64.toInt_inj, toInt_clampInt64 (by omega)]
  split
  · rename_i h
    have hb_lt := hlt.1 (h.resolve_left (clampInt64_ne_zero ha))
    rw [toInt_clampInt64 hb.le]
    omega
  · rename_i h
    have ha_le := mt hlt.2 (not_or.1 h).2
    rw [toInt_clampInt64 ha.le]
    omega

/-! ## The caps -/

/-- The error says that a byte cap is used up. -/
def ApiError.IsCap (e : ApiError) : Prop :=
  match e.reason with
  | .bytesUsed _ _ | .allocationUsed _ _ => True
  | _ => False

instance (e : ApiError) : Decidable e.IsCap := by
  unfold ApiError.IsCap
  split <;> infer_instance

/-- The bytes served on some rows. -/
def served (rows : List Session) : Int := (rows.map fun r => r.servedBytes.toInt).sum

/-- The rows whose bytes count against the account's allocation on a subscription: its
rows on it, and all of its rows when the id is 0. -/
def countedRows (accAddress : String) (subscriptionID : Nat) (rows : List Session) : List Session :=
  rows.filter fun r => (subscriptionID = 0 ∨ r.subscription = subscriptionID) ∧ r.address = accAddress

/-- The account's rows on a subscription. -/
def rowsOn (accAddress : String) (subscriptionID : Nat) (rows : List Session) : List Session :=
  rows.filter fun r => r.subscription = subscriptionID ∧ r.address = accAddress

theorem countedRows_of_ne_zero {subscriptionID : Nat} (h : subscriptionID ≠ 0) (accAddress : String)
    (rows : List Session) :
    countedRows accAddress subscriptionID rows = rowsOn accAddress subscriptionID rows := by
  simp only [countedRows, rowsOn, h, false_or]

/-- What is left under each cap that applies: under `max_bytes`, when it is positive,
and under the allocation, when there is one. -/
def remainders (session : ChainSession) (alloc : Option Allocation) (served : Int) : List Int :=
  (if 0 < session.maxBytes then [session.maxBytes - session.totalBytes] else []) ++
    alloc.toList.map fun al => al.grantedBytes - (al.utilisedBytes + served)

/-- The value stands for the caps that apply: it is 0 exactly when there is none, and
otherwise the least remainder, saturated at the largest `int64`. -/
structure Granted (session : ChainSession) (alloc : Option Allocation) (served : Int) (v : Int64) :
    Prop where
  zero_iff : v = 0 ↔ ¬ 0 < session.maxBytes ∧ session.subscription = none
  least : 0 < session.maxBytes ∨ session.subscription ≠ none →
    0 < v.toInt ∧ ∃ m, (remainders session alloc served).min? = some m ∧ v.toInt = min m (2 ^ 63 - 1)

section Granted

variable {session : ChainSession} {cap : Int64}

/-- The session's own cap: there is none, or something is left under it. -/
theorem sessionCap_ok (h : sessionCap session = .ok cap) :
    (¬ 0 < session.maxBytes ∧ cap = 0) ∨
      (0 < session.maxBytes ∧ 0 < session.maxBytes - session.totalBytes ∧
        cap = clampInt64 (session.maxBytes - session.totalBytes)) := by
  unfold sessionCap at h
  split at h
  · rename_i hmax
    dsimp only at h
    split at h
    · cases h
    · rename_i hdiff
      exact .inr ⟨hmax, not_not.1 hdiff, (Except.ok.inj h).symm⟩
  · rename_i hmax
    exact .inl ⟨hmax, (Except.ok.inj h).symm⟩

theorem sessionCap_error {e : ApiError} (h : sessionCap session = .error e) :
    e.IsCap ∧ 0 < session.maxBytes ∧ session.maxBytes - session.totalBytes ≤ 0 := by
  unfold sessionCap at h
  split at h
  · rename_i hmax
    dsimp only at h
    split at h
    · rename_i hdiff
      cases h
      exact ⟨trivial, hmax, not_lt.1 hdiff⟩
    · cases h
  · cases h

/-- A session of no subscription records its own cap. -/
theorem granted_of_session (hcap : sessionCap session = .ok cap) (hsub : session.subscription = none)
    (n : Int) : Granted session none n cap ∧ ∀ r ∈ remainders session none n, 0 < r := by
  rcases sessionCap_ok hcap with ⟨hmax, rfl⟩ | ⟨hmax, hdiff, rfl⟩
  · refine ⟨⟨by simp [hmax, hsub], fun h => ?_⟩, by simp [remainders, hmax]⟩
    exact absurd hsub (h.resolve_left hmax)
  · refine ⟨⟨?_, fun _ => ⟨clampInt64_pos hdiff, _, ?_, toInt_clampInt64 hdiff.le⟩⟩, ?_⟩
    · exact iff_of_false (clampInt64_ne_zero hdiff) fun h => h.1 hmax
    · simp [remainders, hmax]
    · simpa [remainders, hmax] using hdiff

/-- A session of a subscription records the smaller of what the allocation and its own
cap have left. -/
theorem granted_of_plan (hcap : sessionCap session = .ok cap) (hsub : session.subscription ≠ none)
    {al : Allocation} {n : Int} (hleft : 0 < al.grantedBytes - (al.utilisedBytes + n)) :
    Granted session (some al) n
      (if cap = 0 ∨ clampInt64 (al.grantedBytes - (al.utilisedBytes + n)) < cap
        then clampInt64 (al.grantedBytes - (al.utilisedBytes + n)) else cap) ∧
      ∀ r ∈ remainders session (some al) n, 0 < r := by
  generalize hl : al.grantedBytes - (al.utilisedBytes + n) = left at hleft
  rcases sessionCap_ok hcap with ⟨hmax, rfl⟩ | ⟨hmax, hdiff, rfl⟩
  · rw [if_pos (.inl rfl)]
    refine ⟨⟨?_, fun _ => ⟨clampInt64_pos hleft, left, ?_, toInt_clampInt64 hleft.le⟩⟩, ?_⟩
    · exact iff_of_false (clampInt64_ne_zero hleft) fun h => hsub h.2
    · simp [remainders, hmax, hl]
    · simpa [remainders, hmax, hl] using hleft
  · generalize hd : session.maxBytes - session.totalBytes = diff at hdiff
    rw [clampInt64_min hdiff hleft]
    have hmin : 0 < min diff left := lt_min hdiff hleft
    refine ⟨⟨?_, fun _ => ⟨clampInt64_pos hmin, _, ?_, toInt_clampInt64 hmin.le⟩⟩, ?_⟩
    · exact iff_of_false (clampInt64_ne_zero hmin) fun h => hsub h.2
    · simp [remainders, hmax, hl, hd, List.min?]
    · simp [remainders, hmax, hl, hd, hdiff, hleft]

end Granted

/-! ## What the steps answer -/

theorem checkCapacity_uncapped (cfg : Config) (req : AdmitRequest) :
    Prog.Yields (fun r => ∀ e, r = some e → ¬ e.IsCap) (checkCapacity cfg req) := by
  refine .perform_bind fun n => ?_
  split
  · rintro e ⟨⟩; exact id
  · refine Prog.Yields.bind (.of_forall (fun _ => trivial) _) fun r _ => ?_
    rcases r with e | (_ | _)
    · rintro e ⟨⟩; exact id
    · refine Prog.Yields.bind (.of_forall (fun _ => trivial) _) fun r _ => ?_
      rcases r with e | (_ | _)
      · rintro e ⟨⟩; exact id
      · rintro e ⟨⟩
      · rintro e ⟨⟩; exact id
    · rintro e ⟨⟩; exact id

/-- What the chain answers when it is asked from the time `t` on: the session, and for
one of a plan subscription the allocation its subscription gives the account. -/
def Tells (env : Env S) (req : AdmitRequest) (t : Nat) (session : ChainSession)
    (alloc : Option Allocation) : Prop :=
  env.querySession t req.id = .ok (some session) ∧
    match session.subscription, alloc with
    | none, none => True
    | some id, some al => ∃ subscription, env.querySubscription (t + 1) id = .ok (some subscription) ∧
        env.queryAllocation (t + 2) subscription.id req.accAddress = .ok (some al)
    | _, _ => False

/-- The ways a query for the admission can end: in an error that is no cap's, in the
refusal of a session that has used its own bytes, or with both caps. -/
inductive Queried (session : ChainSession) (alloc : Option Allocation) :
    Except ApiError Admission → Prop where
  | stopped {e : ApiError} (other : ¬ e.IsCap) : Queried session alloc (.error e)
  | used {e : ApiError} (cap : e.IsCap) (max : 0 < session.maxBytes)
      (left : session.maxBytes - session.totalBytes ≤ 0) : Queried session alloc (.error e)
  | passed {a : Admission} (eq : a.session = session)
      (subscription : a.subscriptionID = session.subscription.getD 0) (plan : a.alloc = alloc)
      (cap : sessionCap session = .ok a.remainingBytes) : Queried session alloc (.ok a)

theorem queryPlan_queried (env : Env S) (i : Actor) (req : AdmitRequest) {session : ChainSession}
    {cap : Int64} {id : Nat} {subscription : Subscription} {al : Allocation} {t : Node S}
    (hcap : sessionCap session = .ok cap) (hsub : session.subscription = some id)
    (hasked : env.querySubscription t.clock id = .ok (some subscription))
    (hal : env.queryAllocation (t.clock + 1) subscription.id req.accAddress = .ok (some al)) :
    Queried session (some al) ((queryPlan req { session := session, remainingBytes := cap } id).run
      (machine env) i t).1 := by
  unfold queryPlan
  rw [call, Prog.perform_bind, Prog.run_op,
    show ((machine env).exec (.querySubscription id) t).1 = _ from hasked]
  dsimp only
  split
  · exact .stopped fun h => h
  · rw [call, Prog.perform_bind, Prog.run_op,
      show ((machine env).exec (.queryAllocation subscription.id req.accAddress)
        ((machine env).exec (.querySubscription id) t).2).1 = _ from hal]
    exact .passed rfl (by rw [hsub]; rfl) rfl hcap

theorem queryAdmission_queried (cfg : Config) (env : Env S) (i : Actor) (req : AdmitRequest)
    {session : ChainSession} {alloc : Option Allocation} {t : Node S}
    (h : Tells env req t.clock session alloc) :
    Queried session alloc ((queryAdmission cfg req).run (machine env) i t).1 := by
  obtain ⟨hsession, hplan⟩ := h
  unfold queryAdmission
  rw [call, Prog.perform_bind, Prog.run_op,
    show ((machine env).exec (.querySession req.id) t).1 = _ from hsession]
  dsimp only
  split
  · exact .stopped id
  · split
    · exact .stopped id
    · split
      · exact .stopped id
      · cases hcap : sessionCap session with
        | error e =>
            obtain ⟨hc, hmax, hleft⟩ := sessionCap_error hcap
            exact .used hc hmax hleft
        | ok cap =>
            dsimp only
            cases hsub : session.subscription with
            | none =>
                cases alloc with
                | none => exact .passed rfl (by rw [hsub]; rfl) rfl hcap
                | some al => rw [hsub] at hplan; exact hplan.elim
            | some id =>
                cases alloc with
                | none => rw [hsub] at hplan; exact hplan.elim
                | some al =>
                    rw [hsub] at hplan
                    obtain ⟨subscription, hasked, hal⟩ := hplan
                    exact queryPlan_queried env i req hcap hsub hasked hal

/-- The ways the query for the rows of the account can end: in an error, in a refusal
because the allocation is used up, or with the value to record. -/
inductive Left (session : ChainSession) (alloc : Option Allocation) (served : Int) :
    Except ApiError Int64 → Prop where
  | stopped {e : ApiError} (other : ¬ e.IsCap) : Left session alloc served (.error e)
  | used {e : ApiError} (cap : e.IsCap) (left : ∃ r ∈ remainders session alloc served, r ≤ 0) :
      Left session alloc served (.error e)
  | passed {v : Int64} (granted : Granted session alloc served v)
      (left : ∀ r ∈ remainders session alloc served, 0 < r) : Left session alloc served (.ok v)

theorem foldl_served (items : List Session) (u : Int) :
    items.foldl (fun u item => u + item.servedBytes.toInt) u = u + served items := by
  induction items generalizing u with
  | nil => simp [served]
  | cons item items ih =>
      rw [List.foldl_cons, ih]
      simp only [served, List.map_cons, List.sum_cons]
      omega

theorem find_accountRows (req : AdmitRequest) (a : Admission) (T : Table) :
    T.find (accountRows req a) = countedRows req.accAddress a.subscriptionID T.rows := by
  refine List.filter_congr fun r _ => ?_
  rw [Bool.eq_iff_iff, accountRows_satisfies, decide_eq_true_iff]

theorem remainingBytes_left (env : Env S) (i : Actor) (req : AdmitRequest) {a : Admission}
    {session : ChainSession} {alloc : Option Allocation} {t : Node S}
    (hplan : a.alloc = alloc) (hcap : sessionCap session = .ok a.remainingBytes)
    (hsub : session.subscription = none ↔ alloc = none) :
    Left session alloc (served (countedRows req.accAddress a.subscriptionID t.table.rows))
      ((remainingBytes req a).run (machine env) i t).1 := by
  unfold remainingBytes
  rw [hplan]
  cases alloc with
  | none =>
      obtain ⟨hgranted, hpos⟩ := granted_of_session hcap (hsub.2 rfl)
        (served (countedRows req.accAddress a.subscriptionID t.table.rows))
      exact .passed hgranted hpos
  | some al =>
      dsimp only
      rw [call, Prog.perform_bind, Prog.run_op]
      cases hfind : ((machine env).exec (.find (accountRows req a) none) t).1 with
      | error e => exact .stopped id
      | ok items =>
          obtain rfl := find_ok hfind
          dsimp only
          rw [find_accountRows, foldl_served]
          generalize served (countedRows req.accAddress a.subscriptionID t.table.rows) = n
          split
          · rename_i hused
            refine .used trivial ⟨al.grantedBytes - (al.utilisedBytes + n), ?_, by omega⟩
            simp [remainders]
          · rename_i hunused
            have hleft : 0 < al.grantedBytes - (al.utilisedBytes + n) := by omega
            obtain ⟨hgranted, hpos⟩ := granted_of_plan hcap (by simp [hsub]) hleft
            split
            · rename_i hsmaller
              rw [if_pos hsmaller] at hgranted
              exact .passed hgranted hpos
            · rename_i hlarger
              rw [if_neg hlarger] at hgranted
              exact .passed hgranted hpos

/-! ## What an admission records -/

theorem evict_keepsTable (items : List Session) : Prog.Plain Op.KeepsTable (evict items) := by
  induction items with
  | nil => exact .ret _
  | cons item rest ih =>
      unfold evict
      refine (removePeerIfExists_plain (fun _ => trivial) (fun _ => trivial) item.key).bind fun r => ?_
      cases r with
      | some e => exact .ret _
      | none => exact ih

theorem evict_table (env : Env S) (i : Actor) (items : List Session) (s : Node S) :
    ((evict items).run (machine env) i s).2.table = s.table :=
  (evict_keepsTable items).uses.run_rel (machine env) i (R := fun s t => t.table = s.table)
    (fun _ => rfl) (fun h h' => h'.trans h) (fun s => (acquire_quiet env i s).table)
    (fun _ s ho => ho.table env s) s

/-- The last part of an admission ends in an error that is no cap's, or records the row
and leaves the others. -/
inductive Recorded (req : AdmitRequest) (a : Admission) (available : Int64) (T : Table) :
    Except ApiError AdmitResult × Node S → Prop where
  | stopped {e : ApiError} {s : Node S} (other : ¬ e.IsCap) :
      Recorded req a available T (.error e, s)
  | recorded {res : AdmitResult} {s : Node S} (now : Int) (session : res.session = a.session)
      (rows : s.table.rows = T.rows ++
        [{ admittedRow req a available with createdAt := now, updatedAt := now }]) :
      Recorded req a available T (.ok res, s)

theorem addAndRecord_recorded (env : Env S) (i : Actor) (req : AdmitRequest) (a : Admission)
    (available : Int64) (s : Node S) :
    Recorded req a available s.table ((addAndRecord req a available).run (machine env) i s) := by
  unfold addAndRecord
  rw [call, Prog.perform_bind, Prog.run_op]
  have htable : ((machine env).exec (.addPeer req.peerData) s).2.table = s.table :=
    Op.KeepsTable.table (o := .addPeer req.peerData) env trivial s
  generalize (machine env).exec (.addPeer req.peerData) s = out at htable
  obtain ⟨r, t⟩ := out
  cases r with
  | error e => exact .stopped id
  | ok peer =>
      dsimp only at htable ⊢
      rw [call, Prog.perform_bind, Prog.run_op]
      obtain ⟨-, hcreate⟩ := execCreate_spec env (admittedRow req a available) t
      rcases hcreate with ⟨e, he, -⟩ | ⟨hnone, hrows⟩
      · rw [show ((machine env).exec (.create (admittedRow req a available)) t).1 = _ from he]
        exact .stopped id
      · rw [show ((machine env).exec (.create (admittedRow req a available)) t).1 = _ from hnone]
        exact .recorded _ rfl (htable ▸ hrows)

theorem evictAndAdd_recorded (env : Env S) (i : Actor) (req : AdmitRequest) (a : Admission)
    (available : Int64) (s : Node S) :
    Recorded req a available s.table ((evictAndAdd req a available).run (machine env) i s) := by
  unfold evictAndAdd
  rw [call, Prog.perform_bind, Prog.run_op]
  cases ((machine env).exec (.find (accountRows req a) none) s).1 with
  | error e => exact .stopped id
  | ok items =>
      dsimp only
      rw [Prog.run_bind]
      have htable : ((evict items).run (machine env) i
          ((machine env).exec (.find (accountRows req a) none) s).2).2.table = s.table :=
        evict_table env i items _
      generalize (evict items).run (machine env) i
        ((machine env).exec (.find (accountRows req a) none) s).2 = out at htable
      obtain ⟨r, t⟩ := out
      cases r with
      | some e => exact .stopped id
      | none =>
          rw [← show t.table = s.table from htable]
          exact addAndRecord_recorded env i req a available t

/-- The ways an admission can end as far as the caps are concerned, on a table `T`. -/
inductive Capped (req : AdmitRequest) (session : ChainSession) (alloc : Option Allocation) (T : Table) :
    Except ApiError AdmitResult × Node S → Prop where
  | stopped {e : ApiError} {s : Node S} (other : ¬ e.IsCap) :
      Capped req session alloc T (.error e, s)
  | used {e : ApiError} {s : Node S} (cap : e.IsCap) (left : ∃ r ∈ remainders session alloc
        (served (countedRows req.accAddress (session.subscription.getD 0) T.rows)), r ≤ 0) :
      Capped req session alloc T (.error e, s)
  | granted {res : AdmitResult} {s : Node S} {a : Admission} {available : Int64} (now : Int)
      (eq : res.session = session) (asked : a.session = session)
      (rows : s.table.rows = T.rows ++
        [{ admittedRow req a available with createdAt := now, updatedAt := now }])
      (granted : Granted session alloc
        (served (countedRows req.accAddress (session.subscription.getD 0) T.rows)) available)
      (left : ∀ r ∈ remainders session alloc
        (served (countedRows req.accAddress (session.subscription.getD 0) T.rows)), 0 < r) :
      Capped req session alloc T (.ok res, s)

theorem admitLocked_capped (cfg : Config) (env : Env S) (i : Actor) (req : AdmitRequest)
    {a : Admission} {session : ChainSession} {alloc : Option Allocation} {s : Node S}
    (heq : a.session = session) (hsubscription : a.subscriptionID = session.subscription.getD 0)
    (hplan : a.alloc = alloc) (hcap : sessionCap session = .ok a.remainingBytes)
    (hsub : session.subscription = none ↔ alloc = none) :
    Capped req session alloc s.table ((admitLocked cfg req a).run (machine env) i s) := by
  unfold admitLocked
  rw [Prog.run_bind]
  have hq := (reads_run env i (checkCapacity_plain cfg req) s).1
  have hother := (checkCapacity_uncapped cfg req).run (machine env) i s
  generalize (checkCapacity cfg req).run (machine env) i s = c at hq hother ⊢
  obtain ⟨r, t⟩ := c
  cases r with
  | some e => exact .stopped (hother e rfl)
  | none =>
      dsimp only
      rw [Prog.run_bind]
      have hq' := hq.trans (reads_run env i (remainingBytes_plain req a) t).1
      have hleft := remainingBytes_left env i req (t := t) hplan hcap hsub
      rw [hsubscription, show t.table = s.table from hq.table] at hleft
      generalize (remainingBytes req a).run (machine env) i t = b at hq' hleft ⊢
      obtain ⟨r, u⟩ := b
      cases hleft with
      | stopped hother => exact .stopped hother
      | used hcap hleft => exact .used hcap hleft
      | passed hgranted hpos =>
          rename_i v
          have hrec := evictAndAdd_recorded env i req a v u
          rw [show u.table = s.table from hq'.table] at hrec
          dsimp only
          generalize (evictAndAdd req a v).run (machine env) i u = out at hrec ⊢
          cases hrec with
          | stopped hother => exact .stopped hother
          | recorded now hsession hrows =>
              exact .granted now (hsession.trans heq) heq hrows hgranted hpos

/-- When a handshake that runs alone asks the chain. -/
def askedAt (cfg : Config) (env : Env S) (i : Actor) (req : AdmitRequest) (s : Node S) : Nat :=
  ((checkCapacity cfg req).run (machine env) i s).2.clock

theorem Tells.plan {env : Env S} {req : AdmitRequest} {t : Nat} {session : ChainSession}
    {alloc : Option Allocation} (h : Tells env req t session alloc) :
    session.subscription = none ↔ alloc = none := by
  have hplan := h.2
  cases hsub : session.subscription <;> cases halloc : alloc <;> simp_all

theorem admitSession_capped (cfg : Config) (env : Env S) (i : Actor) (req : AdmitRequest)
    {session : ChainSession} {alloc : Option Allocation} {s : Node S}
    (h : Tells env req (askedAt cfg env i req s) session alloc) :
    Capped req session alloc s.table ((admitSession cfg req).run (machine env) i s) := by
  unfold askedAt at h
  unfold admitSession
  rw [Prog.run_bind]
  have hq := (reads_run env i (checkCapacity_plain cfg req) s).1
  have hother := (checkCapacity_uncapped cfg req).run (machine env) i s
  generalize (checkCapacity cfg req).run (machine env) i s = c at h hq hother ⊢
  obtain ⟨r, t⟩ := c
  cases r with
  | some e => exact .stopped (hother e rfl)
  | none =>
      dsimp only
      rw [Prog.run_bind]
      have hq' := hq.trans (reads_run env i (queryAdmission_plain cfg req) t).1
      have hqueried := queryAdmission_queried cfg env i req h
      generalize (queryAdmission cfg req).run (machine env) i t = b at hq' hqueried ⊢
      obtain ⟨r, u⟩ := b
      cases hqueried with
      | stopped hother => exact .stopped hother
      | used hcap hmax hleft =>
          refine .used hcap ⟨_, ?_, hleft⟩
          simp [remainders, hmax]
      | passed heq hsub hplan hcap =>
          rename_i a
          have hq'' := hq'.trans (acquire_quiet env i u)
          dsimp only
          rw [Prog.run_withLock, ← show ((machine env).acquire i u).table = s.table from hq''.table]
          exact admitLocked_capped cfg env i req heq hsub hplan hcap h.plan

theorem queryPlan_tells (env : Env S) (i : Actor) (req : AdmitRequest) {a b : Admission} {id : Nat}
    {t : Node S} (h : ((queryPlan req a id).run (machine env) i t).1 = .ok b) :
    b.session = a.session ∧ ∃ al subscription, b.alloc = some al ∧
      env.querySubscription t.clock id = .ok (some subscription) ∧
      env.queryAllocation (t.clock + 1) subscription.id req.accAddress = .ok (some al) := by
  unfold queryPlan at h
  rw [call, Prog.perform_bind, Prog.run_op] at h
  rcases hs : ((machine env).exec (.querySubscription id) t).1 with e | (_ | subscription)
  · rw [hs] at h; cases h
  · rw [hs] at h; cases h
  · rw [hs] at h
    dsimp only at h
    split at h
    · cases h
    · rw [call, Prog.perform_bind, Prog.run_op] at h
      rcases ha : ((machine env).exec (.queryAllocation subscription.id req.accAddress)
        ((machine env).exec (.querySubscription id) t).2).1 with e | (_ | al)
      · rw [ha] at h; cases h
      · rw [ha] at h; cases h
      · rw [ha] at h
        cases h
        exact ⟨rfl, al, subscription, rfl, hs, ha⟩

/-- What an admission is let through with is what the chain answered. -/
theorem queryAdmission_tells (cfg : Config) (env : Env S) (i : Actor) (req : AdmitRequest)
    {a : Admission} {t : Node S} (h : ((queryAdmission cfg req).run (machine env) i t).1 = .ok a) :
    Tells env req t.clock a.session a.alloc := by
  unfold queryAdmission at h
  rw [call, Prog.perform_bind, Prog.run_op] at h
  rcases hs : ((machine env).exec (.querySession req.id) t).1 with e | (_ | session)
  · rw [hs] at h; cases h
  · rw [hs] at h; cases h
  · rw [hs] at h
    dsimp only at h
    split at h
    · cases h
    · split at h
      · cases h
      · split at h
        · cases h
        · cases hcap : sessionCap session with
          | error e => rw [hcap] at h; cases h
          | ok cap =>
              rw [hcap] at h
              dsimp only at h
              cases hsub : session.subscription with
              | none =>
                  rw [hsub] at h
                  cases h
                  exact ⟨hs, by rw [hsub]; trivial⟩
              | some id =>
                  rw [hsub] at h
                  obtain ⟨heq, al, subscription, halloc, hasked, hal⟩ := queryPlan_tells env i req h
                  rw [heq, halloc]
                  exact ⟨hs, by rw [hsub]; exact ⟨subscription, hasked, hal⟩⟩

/-- An admission that succeeds was told of a session. -/
theorem admitSession_tells (cfg : Config) (env : Env S) (i : Actor) (req : AdmitRequest)
    {res : AdmitResult} {s : Node S} (h : ((admitSession cfg req).run (machine env) i s).1 = .ok res) :
    ∃ session alloc, Tells env req (askedAt cfg env i req s) session alloc := by
  unfold askedAt
  unfold admitSession at h
  rw [Prog.run_bind] at h
  generalize (checkCapacity cfg req).run (machine env) i s = c at h ⊢
  obtain ⟨r, t⟩ := c
  cases r with
  | some e => cases h
  | none =>
      dsimp only at h
      rw [Prog.run_bind] at h
      cases hquery : ((queryAdmission cfg req).run (machine env) i t).1 with
      | error e => rw [hquery] at h; cases h
      | ok a => exact ⟨a.session, a.alloc, queryAdmission_tells cfg env i req hquery⟩

/-- The row an admission that succeeds records. -/
theorem admitSession_records (cfg : Config) (env : Env S) (i : Actor) (req : AdmitRequest)
    {s s' : Node S} {res : AdmitResult}
    (hok : (admitSession cfg req).run (machine env) i s = (.ok res, s')) :
    ∃ a available now, a.session = res.session ∧ s'.table.rows = s.table.rows ++
      [{ admittedRow req a available with createdAt := now, updatedAt := now }] := by
  obtain ⟨session, alloc, htells⟩ := admitSession_tells cfg env i req (congrArg Prod.fst hok)
  have hcapped := admitSession_capped cfg env i req htells
  rw [hok] at hcapped
  cases hcapped with
  | granted now heq hasked hrows _ _ => exact ⟨_, _, now, hasked.trans heq.symm, hrows⟩

/-- **What an admission records, and exactly when a cap refuses it.**  One that succeeds
adds one row, whose `Available` stands for the caps of the session the chain answered
with: 0 when there is none, the least remainder otherwise.  One that no other check
stops is refused exactly when something is left under not every cap. -/
theorem available_recorded (cfg : Config) (env : Env S) (i : Actor) (req : AdmitRequest)
    (s : Node S) :
    (∀ res s', (admitSession cfg req).run (machine env) i s = (.ok res, s') →
      ∃ alloc row, Tells env req (askedAt cfg env i req s) res.session alloc ∧
        s'.table.rows = s.table.rows ++ [row] ∧ row.id = req.id ∧ row.key = req.peerKey ∧
        Granted res.session alloc (served (countedRows req.accAddress
          (res.session.subscription.getD 0) s.table.rows)) row.available) ∧
    ∀ session alloc, Tells env req (askedAt cfg env i req s) session alloc →
      (∀ e, ((admitSession cfg req).run (machine env) i s).1 = .error e → e.IsCap) →
        ((∃ e, ((admitSession cfg req).run (machine env) i s).1 = .error e) ↔
          ∃ r ∈ remainders session alloc (served (countedRows req.accAddress
            (session.subscription.getD 0) s.table.rows)), r ≤ 0) := by
  constructor
  · intro res s' hok
    obtain ⟨session, alloc, htells⟩ := admitSession_tells cfg env i req (congrArg Prod.fst hok)
    have hcapped := admitSession_capped cfg env i req htells
    rw [hok] at hcapped
    cases hcapped with
    | granted now heq _ hrows hgranted _ =>
        exact ⟨alloc, _, heq ▸ htells, hrows, rfl, rfl, heq ▸ hgranted⟩
  · intro session alloc htells honly
    have hcapped := admitSession_capped cfg env i req htells
    generalize (admitSession cfg req).run (machine env) i s = out at honly hcapped ⊢
    cases hcapped with
    | stopped hother => exact absurd (honly _ rfl) hother
    | used _ hleft => exact iff_of_true ⟨_, rfl⟩ hleft
    | granted _ _ _ _ _ hpos =>
        refine iff_of_false (fun ⟨e, he⟩ => by cases he) fun ⟨r, hr, hle⟩ => ?_
        exact absurd (hpos r hr) (not_lt.2 hle)

/-! ## The rows the allocation is about -/

/-- What the caps come to: nothing when one of them is used up, 0 when there is none, and the
least remainder otherwise, saturated. -/
def outcomeOf (left : List Int) : Option Int :=
  if ∀ r ∈ left, 0 < r then some (min (left.min?.getD 0) (2 ^ 63 - 1)) else none

theorem outcomeOf_eq_none {left : List Int} : outcomeOf left = none ↔ ∃ r ∈ left, r ≤ 0 := by
  unfold outcomeOf
  split
  · rename_i hpos
    refine iff_of_false (Option.some_ne_none _) ?_
    rintro ⟨r, hr, hle⟩
    exact absurd (hpos r hr) (not_lt.2 hle)
  · rename_i hnot
    refine iff_of_true rfl ?_
    simpa using hnot

/-- Nothing is left to count exactly when no cap applies. -/
theorem remainders_eq_nil {session : ChainSession} {alloc : Option Allocation} {n : Int}
    (hsub : session.subscription = none ↔ alloc = none) :
    remainders session alloc n = [] ↔ ¬ 0 < session.maxBytes ∧ session.subscription = none := by
  rw [hsub, remainders, List.append_eq_nil_iff]
  refine and_congr ?_ (by cases alloc <;> simp)
  split <;> simp_all

/-- A value stands for the caps exactly when it is what they come to. -/
theorem granted_iff {session : ChainSession} {alloc : Option Allocation} {n : Int} {v : Int64}
    (hsub : session.subscription = none ↔ alloc = none) :
    (Granted session alloc n v ∧ ∀ r ∈ remainders session alloc n, 0 < r) ↔
      outcomeOf (remainders session alloc n) = some v.toInt := by
  have hzero : v = 0 ↔ v.toInt = 0 := Int64.toInt_inj.symm
  unfold outcomeOf
  by_cases hpos : ∀ r ∈ remainders session alloc n, 0 < r
  · rw [if_pos hpos, Option.some.injEq, and_iff_left hpos]
    cases hmin : (remainders session alloc n).min? with
    | none =>
        -- no cap applies
        have hcaps := (remainders_eq_nil hsub).1 (List.min?_eq_none_iff.1 hmin)
        rw [Option.getD_none]
        constructor
        · intro hgranted
          rw [hzero.1 (hgranted.zero_iff.2 hcaps)]
          decide
        · intro hv
          refine ⟨iff_of_true (hzero.2 (by omega)) hcaps, fun hsome => ?_⟩
          exact (hsome.elim hcaps.1 fun hne => hne hcaps.2).elim
    | some m =>
        have hm : 0 < m := hpos m (List.min?_mem hmin)
        have hcaps : ¬ (¬ 0 < session.maxBytes ∧ session.subscription = none) := fun hcaps => by
          rw [(remainders_eq_nil hsub).2 hcaps] at hmin
          cases hmin
        rw [Option.getD_some]
        constructor
        · intro hgranted
          obtain ⟨-, m', hm', hv⟩ := hgranted.least (by
            rcases not_and_or.1 hcaps with h | h
            · exact .inl (not_not.1 h)
            · exact .inr h)
          rw [hmin] at hm'
          cases hm'
          exact hv.symm
        · intro hv
          exact ⟨iff_of_false (fun h0 => by rw [hzero.1 h0] at hv; omega) hcaps,
            fun _ => ⟨by omega, m, hmin, hv.symm⟩⟩
  · rw [if_neg hpos]
    exact iff_of_false (fun h => hpos h.2) (by rintro ⟨⟩)

/-- What is left under the caps when the rows of the subscription count. -/
def leftOn (req : AdmitRequest) (session : ChainSession) (alloc : Option Allocation) (T : Table) :
    List Int :=
  remainders session alloc (served (rowsOn req.accAddress (session.subscription.getD 0) T.rows))

/-- What is left under the caps with the rows the query finds. -/
def leftCounted (req : AdmitRequest) (session : ChainSession) (alloc : Option Allocation)
    (T : Table) : List Int :=
  remainders session alloc
    (served (countedRows req.accAddress (session.subscription.getD 0) T.rows))

/-- The caps are kept by an admission of a session with these caps, on a table `T`: what it
records stands for them, and if no other check stops it, it is refused exactly when one of
them is used up. -/
structure CapsKept (req : AdmitRequest) (session : ChainSession) (alloc : Option Allocation)
    (T : Table) (out : Except ApiError AdmitResult × Node S) : Prop where
  recorded : ∀ res, out.1 = .ok res → ∃ row, out.2.table.rows = T.rows ++ [row] ∧
    row.id = req.id ∧ row.key = req.peerKey ∧ Granted session alloc
      (served (rowsOn req.accAddress (session.subscription.getD 0) T.rows)) row.available
  refused : (∀ e, out.1 = .error e → e.IsCap) →
    ((∃ e, out.1 = .error e) ↔ ∃ r ∈ leftOn req session alloc T, r ≤ 0)

/-- The rows the query finds are those of the subscription, but for the id 0. -/
theorem leftCounted_eq_leftOn {req : AdmitRequest} {session : ChainSession}
    {alloc : Option Allocation} {T : Table} (hsub : session.subscription = none ↔ alloc = none)
    (h : session.subscription ≠ some 0) :
    leftCounted req session alloc T = leftOn req session alloc T := by
  unfold leftCounted leftOn
  cases hid : session.subscription with
  | none =>
      rw [hsub.1 hid]
      rfl
  | some id =>
      have hne : id ≠ 0 := fun h0 => h (h0 ▸ hid)
      rw [Option.getD_some, countedRows_of_ne_zero hne]

section CapsKept

variable {req : AdmitRequest} {session : ChainSession} {alloc : Option Allocation} {T : Table}
  {t : Node S}

/-- A refusal by a cap keeps them exactly when one of them is used up. -/
theorem capsKept_error_iff {e : ApiError} (hcap : e.IsCap) :
    CapsKept req session alloc T (.error e, t) ↔ outcomeOf (leftOn req session alloc T) = none := by
  have honly : ∀ e', (Except.error e : Except ApiError AdmitResult) = .error e' → e'.IsCap := by
    rintro e' ⟨⟩
    exact hcap
  rw [outcomeOf_eq_none]
  constructor
  · intro hkept
    exact (hkept.refused honly).1 ⟨e, rfl⟩
  · intro hleft
    refine ⟨?_, fun _ => iff_of_true ⟨e, rfl⟩ hleft⟩
    rintro res ⟨⟩

/-- A row that is recorded keeps them exactly when it has what they come to. -/
theorem capsKept_ok_iff {res : AdmitResult} {row : Session}
    (hsub : session.subscription = none ↔ alloc = none) (hrows : t.table.rows = T.rows ++ [row])
    (hid : row.id = req.id) (hkey : row.key = req.peerKey) :
    CapsKept req session alloc T (.ok res, t) ↔
      outcomeOf (leftOn req session alloc T) = some row.available.toInt := by
  rw [leftOn, ← granted_iff hsub]
  constructor
  · intro hkept
    obtain ⟨row', hrow', -, -, hgranted⟩ := hkept.recorded res rfl
    cases List.append_cancel_left (hrow'.symm.trans hrows)
    have hunused := mt (hkept.refused (by rintro e ⟨⟩)).2 (by rintro ⟨e, ⟨⟩⟩)
    refine ⟨hgranted, fun r hr => ?_⟩
    exact not_le.1 fun hle => hunused ⟨r, hr, hle⟩
  · rintro ⟨hgranted, hpos⟩
    refine ⟨fun _ _ => ⟨row, hrows, hid, hkey, hgranted⟩, fun _ => iff_of_false ?_ ?_⟩
    · rintro ⟨e, ⟨⟩⟩
    · rintro ⟨r, hr, hle⟩
      exact absurd (hpos r hr) (not_lt.2 hle)

end CapsKept

/-- **The caps are kept except on the subscription with id 0.**  Where a check other than the
caps' stops an admission they say nothing; otherwise they are kept exactly when the session
is of no plan, its subscription's id is not 0, or the rows the account has elsewhere do not
change what they come to. -/
theorem caps_kept_iff (cfg : Config) (env : Env S) (i : Actor) (req : AdmitRequest) (s : Node S)
    (session : ChainSession) (alloc : Option Allocation)
    (h : Tells env req (askedAt cfg env i req s) session alloc) :
    CapsKept req session alloc s.table ((admitSession cfg req).run (machine env) i s) ↔
      (∃ e, ((admitSession cfg req).run (machine env) i s).1 = .error e ∧ ¬ e.IsCap) ∨
        session.subscription ≠ some 0 ∨
        outcomeOf (leftOn req session alloc s.table) =
          outcomeOf (leftCounted req session alloc s.table) := by
  have hsame : session.subscription ≠ some 0 ∨ outcomeOf (leftOn req session alloc s.table) =
        outcomeOf (leftCounted req session alloc s.table) ↔
      outcomeOf (leftOn req session alloc s.table) =
        outcomeOf (leftCounted req session alloc s.table) :=
    or_iff_right_of_imp fun hne => by rw [leftCounted_eq_leftOn h.plan hne]
  have hcapped := admitSession_capped cfg env i req h
  rw [hsame]
  generalize (admitSession cfg req).run (machine env) i s = out at hcapped ⊢
  cases hcapped with
  | stopped hother =>
      refine iff_of_true ⟨fun res hres => ?_, fun honly => absurd (honly _ rfl) hother⟩
        (.inl ⟨_, rfl, hother⟩)
      cases hres
  | used hcap hleft =>
      have hcounted : outcomeOf (leftCounted req session alloc s.table) = none :=
        outcomeOf_eq_none.2 hleft
      rw [hcounted, capsKept_error_iff hcap, or_iff_right]
      rintro ⟨e', ⟨⟩, hother⟩
      exact hother hcap
  | granted now heq hasked hrows hgranted hpos =>
      have hcounted : outcomeOf (leftCounted req session alloc s.table) = some _ :=
        (granted_iff h.plan).1 ⟨hgranted, hpos⟩
      rw [hcounted, or_iff_right (by rintro ⟨e, ⟨⟩, -⟩)]
      exact capsKept_ok_iff h.plan hrows rfl rfl

/-! ### Two sessions of a plan -/

/-- An account whose session 1, of subscription 5, has been served 45 bytes that the
chain does not know of. -/
def servedSession : Node peerSet :=
  { Node.fresh (S := peerSet) ({Key.of [1]} : Finset Key) with
    table := ⟨[{ id := 1, subscription := 5, key := Key.of [1], address := "client"
                 download := 50, baseDownload := 10, upload := 5 }], by decide, by decide⟩ }

/-- The account's session 3 belongs to the given subscription, whose allocation has 100
of 200 bytes left, and 70 of its own 100 bytes are left. -/
def planEnv (sub : Nat) : Env peerSet :=
  { openEnv (some sub) with
    querySession := fun _ _ => .ok (some
      { id := 3, accAddress := "client", nodeAddress := "node", status := .active
        downloadBytes := 10, uploadBytes := 20, maxBytes := 100, subscription := some sub })
    querySubscription := fun _ id => .ok (some { id := id, status := .active })
    queryAllocation := fun _ _ _ => .ok (some { grantedBytes := 200, utilisedBytes := 100 }) }

def planAdmission (sub : Nat) : Except ApiError AdmitResult × Node peerSet :=
  (admitSession ⟨10, "node"⟩ thirdRequest).run (machine (planEnv sub)) (.handshake 0) servedSession

/-- Session 3 of subscription 5 is granted what the allocation has left once the 45
bytes are counted. -/
theorem caps_kept_plan :
    (planAdmission 5).1.isOk ∧ ∃ row, (planAdmission 5).2.table.rows =
      servedSession.table.rows ++ [row] ∧ row.available.toInt = 55 := by
  have hkept := (caps_kept_iff ⟨10, "node"⟩ (planEnv 5) (.handshake 0) thirdRequest servedSession
    ⟨3, "client", "node", 10, 20, 100, 0, .active, 0, some 5⟩ (some ⟨200, 100⟩)
    ⟨rfl, ⟨5, .active⟩, rfl, rfl⟩).2 (.inr (.inl (by decide)))
  have hok : (planAdmission 5).1 = .ok
      ⟨⟨3, "client", "node", 10, 20, 100, 0, .active, 0, some 5⟩, []⟩ := by decide
  obtain ⟨row, hrows, -, -, hgranted⟩ := hkept.recorded _ hok
  refine ⟨by rw [hok]; rfl, row, hrows, ?_⟩
  obtain ⟨-, m, hm, hv⟩ := hgranted.least (.inr (by decide))
  have hmin : m = 55 := Option.some.inj (hm.symm.trans (by decide))
  rw [hv, hmin]
  decide

/-- **On a subscription with id 0 every row of the account counts**: session 3 is
granted 55 bytes, though the account has no row on that subscription and the
allocation has 100 bytes left. -/
theorem zero_subscription_counts_all :
    (planAdmission 0).1.isOk ∧
      rowsOn "client" 0 servedSession.table.rows = [] ∧
      outcomeOf (leftOn thirdRequest ⟨3, "client", "node", 10, 20, 100, 0, .active, 0, some 0⟩
        (some { grantedBytes := 200, utilisedBytes := 100 }) servedSession.table) = some 70 ∧
      (planAdmission 0).2.table.rows.map (fun r => r.available.toInt) = [0, 55] := by
  decide

end Dvpnd
