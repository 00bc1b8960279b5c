import Dvpnd.Node.Report

/-!
# The `update_sessions` pass

`updateSessions` (`node/jobs.go`) reconciles the table with the chain: sessions
the chain has dropped or deactivated lose their peer and their row, and the
sessions that have moved data are reported.
-/

namespace Dvpnd

open Effect

/-- What `checkSession` says to do with a stored session. -/
structure Check where
  removePeer : Bool
  removeSession : Bool
  skipUpdate : Bool
  err : Option Err
  deriving DecidableEq

/-- The stored totals are the chain's.  `Int64()` panics on a total that does
not fit, and the download is only looked at when the uploads agree. -/
def sameTotals (item : Session) (session : ChainSession) : Option Bool :=
  match int64 session.uploadBytes with
  | none => none
  | some upload =>
      if item.upload = upload then
        match int64 session.downloadBytes with
        | none => none
        | some download => some (item.download == download)
      else some false

/-- The comparison panics on a total it looks at that does not fit, and is the
comparison of the amounts otherwise. -/
theorem sameTotals_spec (item : Session) (session : ChainSession) :
    (sameTotals item session = none ↔ ¬ (IsInt64 session.uploadBytes ∧
      (item.upload.toInt = session.uploadBytes → IsInt64 session.downloadBytes))) ∧
    ∀ same, sameTotals item session = some same → same =
      (item.upload.toInt == session.uploadBytes && item.download.toInt == session.downloadBytes) := by
  have hread : ∀ {v : Int} {w x : Int64}, int64 v = some w → (x = w ↔ x.toInt = v) := by
    intro v w x h
    rw [← toInt_of_int64 h, Int64.toInt_inj]
  have hfits : ∀ {v : Int} {w : Int64}, int64 v = some w → IsInt64 v := by
    intro v w h
    by_contra hv
    rw [int64_eq_none_iff.2 hv] at h
    cases h
  unfold sameTotals
  cases hup : int64 session.uploadBytes with
  | none =>
      refine ⟨⟨fun _ h => int64_eq_none_iff.1 hup h.1, fun _ => rfl⟩, fun _ h => ?_⟩
      cases h
  | some upload =>
      dsimp only
      by_cases heq : item.upload = upload
      · have heq' := (hread hup).1 heq
        rw [if_pos heq]
        cases hdown : int64 session.downloadBytes with
        | none =>
            refine ⟨⟨fun _ h => int64_eq_none_iff.1 hdown (h.2 heq'), fun _ => rfl⟩, fun _ h => ?_⟩
            cases h
        | some download =>
            refine ⟨⟨fun h => ?_, fun h => absurd ⟨hfits hup, fun _ => hfits hdown⟩ h⟩, ?_⟩
            · cases h
            · rintro same ⟨⟩
              rw [Bool.eq_iff_iff]
              simp [heq', hread hdown]
      · have hne : item.upload.toInt ≠ session.uploadBytes := fun h => heq ((hread hup).2 h)
        rw [if_neg heq]
        refine ⟨⟨fun h => ?_, fun h => absurd ⟨hfits hup, fun h' => absurd h' hne⟩ h⟩, ?_⟩
        · cases h
        · rintro same ⟨⟩
          simp [hne]

/-- What the session's own record asks for, given whether the totals agree. -/
def sessionVerdict (item : Session) (session : ChainSession) (same : Bool) : Check where
  removePeer := (same && decide (item.createdAt < session.statusAt)) ||
    session.status != .active ||
    (decide (0 < session.maxBytes) &&
      decide (session.maxBytes ≤ (item.upload + item.download).toInt))
  removeSession := session.status == .inactive
  skipUpdate := same || session.status == .inactive
  err := none

/-- What the subscription's record adds to that. -/
def subscriptionVerdict (c : Check) : Option Subscription → Check
  | none => { c with removePeer := true, removeSession := true, skipUpdate := true }
  | some subscription =>
      if subscription.status = .active then c
      else if subscription.status = .inactive then
        { c with removePeer := true, removeSession := true, skipUpdate := true }
      else { c with removePeer := true }

/-- `checkSession`: what to do with a stored session given what the chain holds
for it; `none` when it panics. -/
def checkSession (item : Session) : NodeM (Option Check) := do
  match ← call (.querySession item.id) with
  | .error e => return some ⟨false, false, true, some (.external e)⟩
  | .ok none => return some ⟨true, true, true, none⟩
  | .ok (some session) =>
      match sameTotals item session with
      | none => return none
      | some same =>
          match session.subscription with
          | none => return some (sessionVerdict item session same)
          | some id =>
              match ← call (.querySubscription id) with
              | .error e =>
                  return some { sessionVerdict item session same with
                    skipUpdate := true, err := some (.external e) }
              | .ok subscription =>
                  return some (subscriptionVerdict (sessionVerdict item session same) subscription)

/-- `retire`: remove a session's peer, its row, or both, under the admission
lock. -/
def retire (item : Session) (removePeer removeSession : Bool) : NodeM (Option Err) :=
  Prog.withLock do
    match ← (if removePeer then removePeerIfExists .retirement item.key else return none) with
    | some e => return some e
    | none =>
        if removeSession then call (.delete { id := item.id })
        else return none

/-- The loop of `updateSessions`, from index `i - 1` down: the sessions left to
report, and the errors.  An index outside the list would panic. -/
def sweep : Nat → List Session → List Err → NodeM (Option (List Session × List Err))
  | 0, items, errs => return some (items, errs)
  | i + 1, items, errs =>
      match items[i]? with
      | none => return none
      | some item => do
          match ← checkSession item with
          | none => return none
          | some c => do
              let errs := errs ++ (c.err.map (Err.session item.id)).toList
              let err ← (if c.removePeer || c.removeSession then
                  retire item c.removePeer c.removeSession
                else return none)
              let errs := errs ++ err.toList
              sweep i (if c.skipUpdate || c.err.isSome then items.eraseIdx i else items) errs

/-- `updateSessions`: the errors it joins, or `none` when it panics. -/
def updateSessions : NodeM (Option (List Err)) := do
  match ← call (.find {} none) with
  | .error e => return some [e]
  | .ok items =>
      match ← sweep items.length items [] with
      | none => return none
      | some (items, errs) =>
          if 0 < items.length then do
            let more ← reportSessions items
            return some (errs ++ more)
          else return some errs

end Dvpnd
