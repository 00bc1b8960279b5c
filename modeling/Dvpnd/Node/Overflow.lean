import Dvpnd.Node.Reconcile
import Dvpnd.Session.Caps

/-!
# A session's totals from its admission to its reports

Admission brings the chain's totals down to `int64`s with `clampInt64`, which
saturates.  The later steps do not: `reportedUsage` adds the peer's counters to the
bases, `enforceCap` and `checkSession` add two totals to each other, and
`checkSession` and `sessionNeedsReport` read the chain's totals with `Int64()`, which
panics on one that does not fit.

* `checkSession_panics_iff` — the comparison of the totals is the one place where a
  check can panic.
* `afterPasses` — the row after any number of `set_sessions` passes; `afterPasses_cases`: it has
  the totals of the admission, or of one reading of the counters on top of the bases.
* `Counted`, `Unwrapped` — no sum that is made of a reading, and none of a row, leaves
  the range, and no check of the row panics.
* `InRange` — which sums must fit an `int64`: the two totals are only added to each other
  for a session with `max_bytes`, and nothing is stored for an upload of 0.
* `totals_unwrapped_iff` — **a session is in order exactly as long as it is in range**;
  `saturated_session_wraps`: one byte more.
-/

namespace Dvpnd

open Effect

/-! ## The check -/

/-- `checkSession` panics exactly when it cannot compare the totals. -/
theorem checkSession_panics_iff {S : Service} (env : Env S) (i : Actor) (item : Session)
    {session : ChainSession} (s : Node S) (h : env.querySession s.clock item.id = .ok (some session)) :
    ((checkSession item).run (machine env) i s).1 = none ↔ sameTotals item session = none := by
  unfold checkSession
  rw [call, Prog.perform_bind, Prog.run_op,
    show ((machine env).exec (.querySession item.id) s).1 = _ from h]
  dsimp only
  cases sameTotals item session with
  | none => exact iff_of_true rfl rfl
  | some same =>
      refine iff_of_false ?_ (Option.some_ne_none _)
      cases session.subscription with
      | none => exact Option.some_ne_none _
      | some id =>
          dsimp only
          rw [call, Prog.perform_bind, Prog.run_op]
          cases ((machine env).exec (.querySubscription id)
            ((machine env).exec (.querySession item.id) s).2).1 with
          | error e => exact Option.some_ne_none _
          | ok subscription => exact Option.some_ne_none _

/-! ## The passes -/

/-- The row after some `set_sessions` passes, each with what it read of the peer's
counters and the time it stored them. -/
def afterPasses (row : Session) (readings : List (Peer × Int)) : Session :=
  readings.foldl (fun r reading => settledRow r reading.1 reading.2) row

/-- A later reading replaces an earlier one. -/
theorem withTotals_withTotals (row : Session) (p q : Peer) (now now' : Int) :
    withTotals (withTotals row p now) q now' = withTotals row q now' := rfl

/-- The row as it was admitted, or with the totals of one of the readings. -/
theorem afterPasses_cases (row : Session) (readings : List (Peer × Int)) :
    afterPasses row readings = row ∨
      ∃ reading ∈ readings, afterPasses row readings = withTotals row reading.1 reading.2 := by
  induction readings using List.reverseRecOn with
  | nil => exact .inl rfl
  | append_singleton earlier reading ih =>
      have hlast : afterPasses row (earlier ++ [reading]) =
          settledRow (afterPasses row earlier) reading.1 reading.2 := by
        simp [afterPasses, List.foldl_append]
      rw [hlast, settledRow]
      split
      · refine .inr ⟨reading, by simp, ?_⟩
        rcases ih with h | ⟨r, -, h⟩ <;> rw [h]
        exact withTotals_withTotals row r.1 reading.1 r.2 reading.2
      · rcases ih with h | ⟨r, hr, h⟩
        · exact .inl h
        · exact .inr ⟨r, List.mem_append_left _ hr, h⟩

/-! ## Sums and comparisons in range -/

/-- The peer's counters are not negative. -/
def Peer.Nonneg (peer : Peer) : Prop := 0 ≤ peer.upload.toInt ∧ 0 ≤ peer.download.toInt

/-- The sums a pass makes of a reading are those of the amounts; the last one is only made
when the upload has moved. -/
structure Counted (row : Session) (peer : Peer) : Prop where
  upload : (reportedUsage row peer).1.toInt = row.baseUpload.toInt + peer.upload.toInt
  download : (reportedUsage row peer).2.1.toInt = row.baseDownload.toInt + peer.download.toInt
  consumed : moved row peer →
    (peer.upload + peer.download).toInt = peer.upload.toInt + peer.download.toInt

/-- The totals of a row are not below its bases, the sum that is compared with a positive
`max_bytes` is that of the amounts, and no check of the row against the chain's session
panics. -/
structure Unwrapped (session : ChainSession) (row : Session) : Prop where
  upload : row.baseUpload.toInt ≤ row.upload.toInt
  download : row.baseDownload.toInt ≤ row.download.toInt
  used : 0 < session.maxBytes →
    (row.upload + row.download).toInt = row.upload.toInt + row.download.toInt
  used_nonneg : 0 < session.maxBytes → 0 ≤ (row.upload + row.download).toInt
  checked : ∀ {S : Service} (env : Env S) (i : Actor) (s : Node S),
    env.querySession s.clock row.id = .ok (some session) →
      ((checkSession row).run (machine env) i s).1 ≠ none
  reported : sessionNeedsReport row session ≠ none

/-- What must stay below `2 ^ 63` for one reading of an admitted session.  An upload of 0
stores nothing, so its download is not part of the sum of the totals; and a download total
that saturates is not looked at by a check once the upload has moved. -/
structure InRange (session : ChainSession) (peer : Peer) : Prop where
  upload : session.uploadBytes + peer.upload.toInt < 2 ^ 63
  download : session.downloadBytes + peer.download.toInt < 2 ^ 63 ∨
    0 < peer.upload.toInt ∧ peer.download.toInt = 0
  consumed : 0 < peer.upload.toInt → peer.upload.toInt + peer.download.toInt < 2 ^ 63
  used : 0 < session.maxBytes → session.uploadBytes + session.downloadBytes +
    (if peer.upload.toInt = 0 then 0 else peer.upload.toInt + peer.download.toInt) < 2 ^ 63

/-- The chain's totals with these counters are in range whatever was stored before. -/
structure Fits (session : ChainSession) (up down : Int) : Prop where
  upload : session.uploadBytes + up < 2 ^ 63
  download : session.downloadBytes + down < 2 ^ 63
  consumed : up + down < 2 ^ 63
  used : 0 < session.maxBytes → session.uploadBytes + session.downloadBytes + up + down < 2 ^ 63

section Follow

variable {session : ChainSession} {row : Session} {peer : Peer}

/-- A check that does not panic has read totals that fit. -/
theorem Unwrapped.fits (h : Unwrapped session row) : IsInt64 session.uploadBytes ∧
    (row.upload.toInt = session.uploadBytes → IsInt64 session.downloadBytes) := by
  by_contra hnot
  -- any chain that answers with the session will do
  have hnone := (checkSession_panics_iff
    { openEnv none with querySession := fun _ _ => .ok (some session) } .updateSessions
    row (Node.fresh (S := peerSet) (∅ : Finset Key)) rfl).2 ((sameTotals_spec row session).1.2 hnot)
  exact h.checked _ _ _ rfl hnone

theorem sessionNeedsReport_ne_none (h : sameTotals row session ≠ none) :
    sessionNeedsReport row session ≠ none := by
  rw [sessionNeedsReport_eq]
  split
  · exact Option.some_ne_none _
  · simpa using h

/-- A row whose totals are in range, and the chain's as far as a check looks at them. -/
theorem Unwrapped.of_fits (hbaseUp : 0 ≤ row.baseUpload.toInt)
    (hbaseDown : 0 ≤ row.baseDownload.toInt)
    (hupload : row.baseUpload.toInt ≤ row.upload.toInt)
    (hdownload : row.baseDownload.toInt ≤ row.download.toInt)
    (hused : 0 < session.maxBytes → row.upload.toInt + row.download.toInt < 2 ^ 63)
    (hfits : IsInt64 session.uploadBytes ∧
      (row.upload.toInt = session.uploadBytes → IsInt64 session.downloadBytes)) :
    Unwrapped session row := by
  have hsum : 0 < session.maxBytes →
      (row.upload + row.download).toInt = row.upload.toInt + row.download.toInt := fun hmax =>
    toInt_add_of_lt (by omega) (by omega) (hused hmax)
  have hsame : sameTotals row session ≠ none := fun hnone =>
    (sameTotals_spec row session).1.1 hnone hfits
  refine ⟨hupload, hdownload, hsum, fun hmax => ?_,
    fun env i s hasked hnone => hsame ((checkSession_panics_iff env i _ s hasked).1 hnone),
    sessionNeedsReport_ne_none hsame⟩
  rw [hsum hmax]
  omega

/-- A pass stores the upload it computes, or finds it stored. -/
theorem settledRow_upload (row : Session) (peer : Peer) (now : Int) :
    (settledRow row peer now).upload = row.baseUpload + peer.upload := by
  unfold settledRow
  split
  · rfl
  · rename_i hstill
    exact (not_not.1 hstill).symm

/-- The first reading of a row moves it exactly when it is not 0. -/
theorem moved_iff_pos (hupload : row.upload = row.baseUpload) (hpeer : peer.Nonneg) :
    moved row peer ↔ 0 < peer.upload.toInt := by
  have hzero : peer.upload = 0 ↔ peer.upload.toInt = 0 := Int64.toInt_inj.symm
  have hmoved : moved row peer ↔ peer.upload ≠ 0 := by
    unfold moved
    rw [hupload, Ne, Ne, Int64.add_eq_left]
  have := hpeer.1
  rw [hmoved, Ne, hzero]
  omega

theorem settledRow_bases (row : Session) (peer : Peer) (now : Int) :
    (settledRow row peer now).baseUpload = row.baseUpload ∧
      (settledRow row peer now).baseDownload = row.baseDownload := by
  unfold settledRow
  split <;> exact ⟨rfl, rfl⟩

/-- The download a first pass leaves. -/
theorem settledRow_download (hupload : row.upload = row.baseUpload)
    (hdownload : row.download = row.baseDownload) (hpeer : peer.Nonneg) (now : Int)
    (hcounted : Counted row peer) :
    (settledRow row peer now).download.toInt = row.baseDownload.toInt +
      (if peer.upload.toInt = 0 then 0 else peer.download.toInt) := by
  have hmoved := moved_iff_pos hupload hpeer
  have := hpeer.1
  unfold settledRow
  by_cases hzero : peer.upload.toInt = 0
  · rw [if_neg (fun hm => by have := hmoved.1 hm; omega), if_pos hzero, hdownload, add_zero]
  · rw [if_pos (hmoved.2 (by omega)), if_neg hzero]
    exact hcounted.download

variable (hup : 0 ≤ session.uploadBytes) (hdown : 0 ≤ session.downloadBytes)
  (hbaseUp : row.baseUpload = clampInt64 session.uploadBytes)
  (hbaseDown : row.baseDownload = clampInt64 session.downloadBytes)

include hup hdown hbaseUp hbaseDown

/-- The bases are the chain's totals, saturated. -/
theorem bases_eq_min : row.baseUpload.toInt = min session.uploadBytes (2 ^ 63 - 1) ∧
    row.baseDownload.toInt = min session.downloadBytes (2 ^ 63 - 1) := by
  rw [hbaseUp, hbaseDown, toInt_clampInt64 hup, toInt_clampInt64 hdown]
  exact ⟨rfl, rfl⟩

section Later

variable (hfits : Fits session peer.upload.toInt peer.download.toInt) (hpeer : peer.Nonneg)

include hfits hpeer

theorem Fits.counted : Counted row peer := by
  obtain ⟨hu, hd⟩ := hpeer
  obtain ⟨hU, hD⟩ := bases_eq_min hup hdown hbaseUp hbaseDown
  obtain ⟨hupload, hdownload, hconsumed, -⟩ := hfits
  exact ⟨toInt_add_of_lt (by omega) hu (by omega), toInt_add_of_lt (by omega) hd (by omega),
    fun _ => toInt_add_of_lt hu hd hconsumed⟩

/-- A reading that fits leaves a row that is in order, whatever was stored before it. -/
theorem Fits.unwrapped (now : Int) : Unwrapped session (withTotals row peer now) := by
  obtain ⟨hcountUp, hcountDown, -⟩ := Fits.counted hup hdown hbaseUp hbaseDown hfits hpeer
  obtain ⟨hu, hd⟩ := hpeer
  obtain ⟨hU, hD⟩ := bases_eq_min hup hdown hbaseUp hbaseDown
  have hupload : (withTotals row peer now).upload.toInt = _ := hcountUp
  have hdownload : (withTotals row peer now).download.toInt = _ := hcountDown
  obtain ⟨hfitsUp, hfitsDown, -, hused⟩ := hfits
  refine Unwrapped.of_fits ?_ ?_ ?_ ?_ (fun hmax => ?_)
    ⟨⟨by omega, by omega⟩, fun _ => ⟨by omega, by omega⟩⟩
  · show 0 ≤ row.baseUpload.toInt
    omega
  · show 0 ≤ row.baseDownload.toInt
    omega
  · show row.baseUpload.toInt ≤ _
    omega
  · show row.baseDownload.toInt ≤ _
    omega
  · have := hused hmax
    omega

end Later

section First

variable (hupload : row.upload = row.baseUpload)

include hupload

theorem InRange.counted (hpeer : peer.Nonneg) (h : InRange session peer) : Counted row peer := by
  have hmoved := moved_iff_pos hupload hpeer
  obtain ⟨hu, hd⟩ := hpeer
  obtain ⟨hU, hD⟩ := bases_eq_min hup hdown hbaseUp hbaseDown
  obtain ⟨hrangeUp, hrangeDown, hconsumed, -⟩ := h
  exact ⟨toInt_add_of_lt (by omega) hu (by omega), toInt_add_of_lt (by omega) hd (by omega),
    fun hm => toInt_add_of_lt hu hd (hconsumed (hmoved.1 hm))⟩

variable (hdownload : row.download = row.baseDownload)

include hdownload

/-- A row as it was admitted is in order if the chain's totals fit. -/
theorem Fits.unwrapped_admitted (hfits : Fits session 0 0) : Unwrapped session row := by
  obtain ⟨hU, hD⟩ := bases_eq_min hup hdown hbaseUp hbaseDown
  obtain ⟨hfitsUp, hfitsDown, -, hused⟩ := hfits
  refine Unwrapped.of_fits (by omega) (by omega) (by rw [hupload]) (by rw [hdownload])
    (fun hmax => ?_) ⟨⟨by omega, by omega⟩, fun _ => ⟨by omega, by omega⟩⟩
  have := hused hmax
  rw [hupload, hdownload]
  omega

variable (hpeer : peer.Nonneg) (now : Int)

include hpeer

/-- A reading in range leaves a row that is in order. -/
theorem InRange.unwrapped (h : InRange session peer) :
    Unwrapped session (settledRow row peer now) := by
  have hcounted := InRange.counted hup hdown hbaseUp hbaseDown hupload hpeer h
  obtain ⟨hU, hD⟩ := bases_eq_min hup hdown hbaseUp hbaseDown
  have hup' : (settledRow row peer now).upload.toInt = _ :=
    (congrArg Int64.toInt (settledRow_upload row peer now)).trans hcounted.upload
  have hdown' := settledRow_download hupload hdownload hpeer now hcounted
  obtain ⟨hkeptUp, hkeptDown⟩ := settledRow_bases row peer now
  obtain ⟨hu, hd⟩ := hpeer
  obtain ⟨hrangeUp, hrangeDown, -, hused⟩ := h
  refine Unwrapped.of_fits (by rw [hkeptUp]; omega) (by rw [hkeptDown]; omega)
    (by rw [hkeptUp]; omega) ?_ (fun hmax => ?_)
    ⟨⟨by omega, by omega⟩, fun hsame => ⟨by omega, ?_⟩⟩
  · rw [hkeptDown, hdown']
    split <;> omega
  · have hlt := hused hmax
    rw [hup', hdown']
    split at hlt <;> split <;> omega
  · -- the check looks at the download only if the upload has not moved
    have hzero : peer.upload.toInt = 0 := by omega
    omega

/-- A reading that leaves a row in order is in range. -/
theorem InRange.of_unwrapped (hcounted : Counted row peer)
    (h : Unwrapped session (settledRow row peer now)) : InRange session peer := by
  have hmoved := moved_iff_pos hupload hpeer
  obtain ⟨hU, hD⟩ := bases_eq_min hup hdown hbaseUp hbaseDown
  have hup' : (settledRow row peer now).upload.toInt = _ :=
    (congrArg Int64.toInt (settledRow_upload row peer now)).trans hcounted.upload
  have hdown' := settledRow_download hupload hdownload hpeer now hcounted
  obtain ⟨hu, hd⟩ := hpeer
  obtain ⟨hfitsUp, hfitsDown⟩ := h.fits
  have hltUp := (reportedUsage row peer).1.toInt_lt
  have hltDown := (reportedUsage row peer).2.1.toInt_lt
  rw [hcounted.upload] at hltUp
  rw [hcounted.download] at hltDown
  have := hfitsUp.2
  refine ⟨by omega, ?_, fun hpos => ?_, fun hmax => ?_⟩
  · by_cases hzero : peer.upload.toInt = 0
    · have := (hfitsDown (by omega)).2
      omega
    · omega
  · rw [← hcounted.consumed (hmoved.2 hpos)]
    exact (peer.upload + peer.download).toInt_lt
  · have hltUsed := ((settledRow row peer now).upload + (settledRow row peer now).download).toInt_lt
    rw [h.used hmax, hup', hdown'] at hltUsed
    split at hltUsed
    · rename_i hzero
      have := (hfitsDown (by omega)).2
      rw [if_pos hzero]
      omega
    · rename_i hpos
      rw [if_neg hpos]
      -- a download that saturates would leave no room for the upload
      omega

end First

end Follow

/-! ## A session from its admission on -/

/-- The bases stay what they were. -/
theorem afterPasses_bases (row : Session) (readings : List (Peer × Int)) :
    (afterPasses row readings).baseUpload = row.baseUpload ∧
      (afterPasses row readings).baseDownload = row.baseDownload := by
  rcases afterPasses_cases row readings with h | ⟨reading, -, h⟩ <;> rw [h]
  · exact ⟨rfl, rfl⟩
  · exact ⟨rfl, rfl⟩

/-- The row an admission records starts from the chain's totals, saturated. -/
theorem admitSession_bases {S : Service} (cfg : Config) (env : Env S) (i : Actor)
    (req : AdmitRequest) {s s' : Node S} {res : AdmitResult}
    (hok : (admitSession cfg req).run (machine env) i s = (.ok res, s')) :
    ∃ row, s'.table.rows = s.table.rows ++ [row] ∧ row.key = req.peerKey ∧
      row.baseUpload = clampInt64 res.session.uploadBytes ∧
      row.baseDownload = clampInt64 res.session.downloadBytes ∧
      row.upload = row.baseUpload ∧ row.download = row.baseDownload := by
  obtain ⟨a, available, now, hsession, hrows⟩ := admitSession_records cfg env i req hok
  rw [← hsession]
  exact ⟨_, hrows, rfl, rfl, rfl, rfl, rfl⟩

/-- Any number of passes leave a row in order, as long as the totals they read fit. -/
theorem unwrapped_afterPasses {session : ChainSession} {row : Session}
    (hup : 0 ≤ session.uploadBytes) (hdown : 0 ≤ session.downloadBytes)
    (hbaseUp : row.baseUpload = clampInt64 session.uploadBytes)
    (hbaseDown : row.baseDownload = clampInt64 session.downloadBytes)
    (hupload : row.upload = row.baseUpload) (hdownload : row.download = row.baseDownload)
    (hfits : Fits session 0 0) {readings : List (Peer × Int)}
    (hreadings : ∀ reading ∈ readings, reading.1.Nonneg ∧
      Fits session reading.1.upload.toInt reading.1.download.toInt) :
    Unwrapped session (afterPasses row readings) := by
  rcases afterPasses_cases row readings with h | ⟨reading, hmem, h⟩ <;> rw [h]
  · exact Fits.unwrapped_admitted hup hdown hbaseUp hbaseDown hupload hdownload hfits
  · obtain ⟨hpeer, hread⟩ := hreadings reading hmem
    exact Fits.unwrapped hup hdown hbaseUp hbaseDown hread hpeer reading.2

/-- **A session is followed without a wrap or a panic exactly as long as its sums fit.**
For the row an admission records, a pass that reads the peer's counters makes exact sums and
leaves a row that is in order exactly when the reading is in range; and as long as the
totals with every reading fit, so is the row any number of passes leave. -/
theorem totals_unwrapped_iff {S : Service} (cfg : Config) (env : Env S) (i : Actor)
    (req : AdmitRequest) {s s' : Node S} {res : AdmitResult}
    (hok : (admitSession cfg req).run (machine env) i s = (.ok res, s'))
    (hup : 0 ≤ res.session.uploadBytes) (hdown : 0 ≤ res.session.downloadBytes) :
    ∃ row, s'.table.rows = s.table.rows ++ [row] ∧ row.key = req.peerKey ∧
      (∀ peer now, peer.Nonneg →
        (Counted row peer ∧ Unwrapped res.session (settledRow row peer now) ↔
          InRange res.session peer)) ∧
      (Fits res.session 0 0 → ∀ readings,
        (∀ reading ∈ readings, reading.1.Nonneg ∧
          Fits res.session reading.1.upload.toInt reading.1.download.toInt) →
        Unwrapped res.session (afterPasses row readings) ∧
          ∀ peer, peer.Nonneg → Fits res.session peer.upload.toInt peer.download.toInt →
            Counted (afterPasses row readings) peer) := by
  obtain ⟨row, hrows, hkey, hbaseUp, hbaseDown, hupload, hdownload⟩ :=
    admitSession_bases cfg env i req hok
  refine ⟨row, hrows, hkey, fun peer now hpeer => ⟨fun h => ?_, fun hrange => ⟨?_, ?_⟩⟩,
    fun hfits readings hreadings => ⟨?_, fun peer hpeer hread => ?_⟩⟩
  · exact InRange.of_unwrapped hup hdown hbaseUp hbaseDown hupload hdownload hpeer now h.1 h.2
  · exact InRange.counted hup hdown hbaseUp hbaseDown hupload hpeer hrange
  · exact InRange.unwrapped hup hdown hbaseUp hbaseDown hupload hdownload hpeer now hrange
  · exact unwrapped_afterPasses hup hdown hbaseUp hbaseDown hupload hdownload hfits hreadings
  · obtain ⟨hpassUp, hpassDown⟩ := afterPasses_bases row readings
    exact Fits.counted hup hdown (hpassUp.trans hbaseUp) (hpassDown.trans hbaseDown) hread hpeer

/-- A client of the session `planAdmission` admits, and what it has moved. -/
def planPeer (upload download : Int64) : Peer := ⟨Key.of [3], upload, download, by decide⟩

/-- Two readings of a session that has moved 30 bytes before. -/
theorem totals_unwrapped_plan :
    ∃ row, (planAdmission 5).2.table.rows = servedSession.table.rows ++ [row] ∧
      Unwrapped ⟨3, "client", "node", 10, 20, 100, 0, .active, 0, some 5⟩
        (afterPasses row [(planPeer 5 7, 1), (planPeer 6 9, 2)]) := by
  have hok : (planAdmission 5).1 = .ok
      ⟨⟨3, "client", "node", 10, 20, 100, 0, .active, 0, some 5⟩, []⟩ := by decide
  obtain ⟨row, hrows, -, -, hpasses⟩ := totals_unwrapped_iff ⟨10, "node"⟩ (planEnv 5) (.handshake 0)
    thirdRequest (s := servedSession) (Prod.ext hok rfl) (by decide) (by decide)
  refine ⟨row, hrows,
    (hpasses ⟨by decide, by decide, by decide, by decide⟩ _ fun reading hmem => ?_).1⟩
  simp only [List.mem_cons, List.not_mem_nil, or_false] at hmem
  rcases hmem with rfl | rfl <;>
    exact ⟨⟨by decide, by decide⟩, by decide, by decide, by decide, by decide⟩

/-- The chain holds an upload total of `n` for session 3. -/
def heavyEnv (n : Int) : Env peerSet :=
  { openEnv none with
    querySession := fun _ _ => .ok (some
      { id := 3, accAddress := "client", nodeAddress := "node", status := .active, uploadBytes := n }) }

/-- The row session 3 is admitted with. -/
def heavyRow (n : Int) : Option Session :=
  (((admitSession ⟨10, "node"⟩ thirdRequest).run (machine (heavyEnv n)) (.handshake 0)
    (Node.fresh (S := peerSet) (∅ : Finset Key))).2.table.rows)[0]?

/-- **At the limit the bases saturate and nothing else does.**  With a total of `2 ^ 63`
the admission succeeds and the next check panics; with one of `2 ^ 63 - 1` the first
byte the client sends makes the stored upload and the sum of both totals negative. -/
theorem saturated_session_wraps :
    (heavyRow (2 ^ 63)).map (fun row => ((checkSession row).run (machine (heavyEnv (2 ^ 63)))
        .updateSessions (Node.fresh (S := peerSet) (∅ : Finset Key))).1.isNone) = some true ∧
      (heavyRow (2 ^ 63 - 1)).map (fun row => (row.baseUpload.toInt,
        (withTotals row (planPeer 1 0) 1).upload.toInt,
        ((withTotals row (planPeer 1 0) 1).upload + (withTotals row (planPeer 1 0) 1).download).toInt)) =
        some (2 ^ 63 - 1, -2 ^ 63, -2 ^ 63) := by
  decide

end Dvpnd
