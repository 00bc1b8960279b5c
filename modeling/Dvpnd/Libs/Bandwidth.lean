import Dvpnd.Lib.Prog

/-!
# Measuring the link

`measure` of `libs/bandwidth/bandwidth.go`: the figure a node advertises, from measurements
against public speed-test servers.  A server on the host's own network answers with the speed
of that network and not of the link, so the servers are chosen by their latency, and the lowest
figure counts.

* `measure` — the algorithm, a program over the calls of a prober (`Op`): the server list, the
  accurate pings in batches, the shortlist, the measurements.
* `Prober` — any prober, with a state of its own; `trace` has what it was asked and answered.
* `measure_understates` — **the figure is at most that of every sample, and the servers it comes
  from are off the host's network, independent, the nearest first and few**, for every prober.
* `two_paths_iff` — when the shortlist has **two independent servers**: exactly when two keys
  above the floor are reached before the loop stops; `one_path` — a market in which it has one
  although a second was in reach.
-/

namespace Dvpnd.Bandwidth

open Effect Prog

/-! ## Servers and samples -/

/-- `Candidate`: a server, with the durations in nanoseconds. -/
structure Candidate where
  id : String
  name : String
  sponsor : String
  latency : Int
  minLatency : Int
  deriving DecidableEq

/-- `Sample`, in bytes per second. -/
structure Sample where
  upload : ℚ
  download : ℚ

/-- The values of `Result.Source`. -/
inductive Source where
  | speedtest
  | config
  | none
  deriving DecidableEq

/-- `Result`. -/
structure Result where
  upload : Int64
  download : Int64
  source : Source

/-- The result without a measurement. -/
def Result.none : Result := ⟨0, 0, .none⟩

/-- What the language gives: `unicode.ToLower`, and the conversion of a floating-point number,
whose result is open when the number does not fit. -/
structure Platform where
  lower : Char → Char
  lower_bar : lower '|' = '|'
  int64 : ℚ → Int64
  int64_floor : ∀ q, 0 ≤ q → q < 2 ^ 63 → (int64 q).toInt = ⌊q⌋

/-- `sameFacilityFloor`, 2 ms. -/
def sameFacilityFloor : Int := 2000000

/-- `sameBuildingFloor`, 1 ms. -/
def sameBuildingFloor : Int := 1000000

/-- `refineBatch`. -/
def refineBatch : Nat := 10

/-- `refineLimit`. -/
def refineLimit : Nat := 30

/-- `wantQualifying`. -/
def wantQualifying : Nat := 3

/-- `maxQualifying`. -/
def maxQualifying : Nat := 5

/-- `maxSamples`. -/
def maxSamples : Nat := 3

/-- `agreementRatio`. -/
def agreementRatio : ℚ := 7 / 10

/-! ## The prober -/

/-- The calls: those of the interface `prober`, and `ctx.Err() != nil`. -/
inductive Op where
  | candidates
  | refine (cs : List Candidate)
  | err
  | measure (c : Candidate)

/-- Their answers. -/
abbrev Answer : Op → Type
  | .candidates => Except String (List Candidate)
  | .refine _ => List Candidate
  | .err => Bool
  | .measure _ => Except String Sample

/-- A prober, whose answers may depend on all that happened before. -/
abbrev Prober (σ : Type) := Machine Answer Unit σ

/-! ## The algorithm -/

/-- `sortByLatency`, a stable sort. -/
def sortByLatency (cs : List Candidate) : List Candidate :=
  cs.insertionSort fun c d => c.latency ≤ d.latency

/-- `countClearing`. -/
def countClearing (cs : List Candidate) (floor : Int) : Nat :=
  cs.countP (floor ≤ ·.minLatency)

/-- `strings.ToLower`. -/
def Platform.toLower (p : Platform) (s : String) : String := String.ofList (s.toList.map p.lower)

/-- The key `shortlist` knows a server by. -/
def Platform.key (p : Platform) (c : Candidate) : String :=
  p.toLower (c.sponsor ++ "|" ++ c.name)

/-- The loop of `shortlist`, with its variables. -/
def shortlistFrom (p : Platform) (floor : Int) (seen : List String)
    (list rejected : List Candidate) : List Candidate → List Candidate × List Candidate
  | [] => (list, rejected)
  | c :: rest =>
      if c.minLatency < floor then shortlistFrom p floor seen list (rejected ++ [c]) rest
      else if p.key c ∈ seen then shortlistFrom p floor seen list rejected rest
      else if (list ++ [c]).length = maxQualifying then (list ++ [c], rejected)
      else shortlistFrom p floor (p.key c :: seen) (list ++ [c]) rejected rest

/-- `shortlist`. -/
def shortlist (p : Platform) (cs : List Candidate) (floor : Int) :
    List Candidate × List Candidate :=
  shortlistFrom p floor [] [] [] cs

/-- The servers to measure: the shortlist, with the lower floor when that of the higher one is
empty. -/
def servers (p : Platform) (refined : List Candidate) : List Candidate :=
  let list := (shortlist p refined sameFacilityFloor).1
  if list.isEmpty then (shortlist p refined sameBuildingFloor).1 else list

/-- The servers that answered an accurate ping. -/
def answered (cs : List Candidate) : List Candidate :=
  cs.filter fun c => 0 < c.latency ∧ 0 < c.minLatency

/-- The starts of the batches. -/
def starts (limit : Nat) : List Nat :=
  (List.range' 0 (refineLimit / refineBatch) refineBatch).filter (· < limit)

/-- The loop over the batches. -/
def refineFrom (reachable : List Candidate) (limit : Nat) :
    List Nat → List Candidate → Prog Answer (List Candidate)
  | [], refined => return refined
  | start :: rest, refined => do
      let pinged : List Candidate ←
        perform (Op.refine ((reachable.take (min (start + refineBatch) limit)).drop start))
      let refined := refined ++ answered pinged
      if wantQualifying ≤ countClearing refined sameFacilityFloor then return refined
      let stopped : Bool ← perform Op.err
      if stopped then return refined
      refineFrom reachable limit rest refined

/-- The accurate pings of the nearest servers. -/
def refineNearest (near : List Candidate) : Prog Answer (List Candidate) :=
  refineFrom near (min near.length refineLimit) (starts (min near.length refineLimit)) []

/-- `minF`. -/
def minF (a b : ℚ) : ℚ := if a < b then a else b

/-- `maxF`. -/
def maxF (a b : ℚ) : ℚ := if a > b then a else b

/-- `agree`. -/
def agree : List Sample → Bool
  | [] => false
  | [_] => false
  | first :: rest =>
      let minUp := rest.foldl (fun m s => minF m s.upload) first.upload
      let maxUp := rest.foldl (fun m s => maxF m s.upload) first.upload
      let minDown := rest.foldl (fun m s => minF m s.download) first.download
      let maxDown := rest.foldl (fun m s => maxF m s.download) first.download
      minUp / maxUp ≥ agreementRatio && minDown / maxDown ≥ agreementRatio

/-- `minSample`, which is called with a sample at least. -/
def minSample (samples : List Sample) (pick : Sample → ℚ) : ℚ :=
  match samples with
  | [] => 0
  | first :: rest => rest.foldl (fun m s => if pick s < m then pick s else m) (pick first)

/-- The loop over the servers to measure. -/
def sampleFrom : List Candidate → List Sample → Prog Answer (List Sample)
  | [], samples => return samples
  | c :: rest, samples => do
      let stopped : Bool ← perform Op.err
      if stopped then return samples
      let result : Except String Sample ← perform (Op.measure c)
      match result with
      | .error _ => sampleFrom rest samples
      | .ok s =>
          if s.upload ≤ 0 ∨ s.download ≤ 0 then sampleFrom rest samples
          else if maxSamples ≤ (samples ++ [s]).length ∨ agree (samples ++ [s]) = true then
            return samples ++ [s]
          else sampleFrom rest (samples ++ [s])

/-- What is left to do once the servers to measure are known. -/
def report (p : Platform) (list : List Candidate) : Prog Answer Result := do
  if list.isEmpty then return .none
  let samples ← sampleFrom list []
  if samples.isEmpty then return .none
  return ⟨p.int64 (minSample samples (·.upload)), p.int64 (minSample samples (·.download)), .speedtest⟩

/-- The reachable servers, the nearest first. -/
def reachable (candidates : List Candidate) : List Candidate :=
  sortByLatency (candidates.filter (0 < ·.latency))

/-- `measure`. -/
def measure (p : Platform) : Prog Answer Result := do
  let listed : Except String (List Candidate) ← perform Op.candidates
  match listed with
  | .error _ => return .none
  | .ok candidates =>
      let near := reachable candidates
      if near.isEmpty then return .none
      let refined ← refineNearest near
      report p (servers p (sortByLatency refined))

/-! ## What a run shows -/

/-- A call with its answer. -/
abbrev Event := Σ o, Answer o

/-- A call that measures a server. -/
def measuredOf : Event → Option Candidate
  | ⟨.measure c, _⟩ => some c
  | _ => none

/-- The sample of a measurement that succeeds. -/
def successOf : Event → Option Sample
  | ⟨.measure _, .ok s⟩ => if s.upload ≤ 0 ∨ s.download ≤ 0 then none else some s
  | _ => none

/-- The servers an accurate ping reached. -/
def refinedOf : Event → List Candidate
  | ⟨.refine _, cs⟩ => answered cs
  | _ => []

/-- The servers measured, in their order. -/
def measured (t : List Event) : List Candidate := t.filterMap measuredOf

/-- The successful samples. -/
def successes (t : List Event) : List Sample := t.filterMap successOf

/-- The servers refined. -/
def refinedIn (t : List Event) : List Candidate := t.flatMap refinedOf

@[simp] theorem measured_nil : measured [] = [] := rfl

@[simp] theorem measured_cons (e : Event) (t : List Event) :
    measured (e :: t) = (measuredOf e).toList ++ measured t := by
  cases h : measuredOf e with
  | none => simp [measured, h]
  | some c => simp [measured, h]

@[simp] theorem measured_append (t t' : List Event) :
    measured (t ++ t') = measured t ++ measured t' :=
  List.filterMap_append

@[simp] theorem successes_nil : successes [] = [] := rfl

@[simp] theorem successes_cons (e : Event) (t : List Event) :
    successes (e :: t) = (successOf e).toList ++ successes t := by
  cases h : successOf e with
  | none => simp [successes, h]
  | some x => simp [successes, h]

@[simp] theorem successes_append (t t' : List Event) :
    successes (t ++ t') = successes t ++ successes t' :=
  List.filterMap_append

@[simp] theorem refinedIn_nil : refinedIn [] = [] := rfl

@[simp] theorem refinedIn_cons (e : Event) (t : List Event) :
    refinedIn (e :: t) = refinedOf e ++ refinedIn t := rfl

@[simp] theorem refinedIn_append (t t' : List Event) :
    refinedIn (t ++ t') = refinedIn t ++ refinedIn t' :=
  List.flatMap_append

attribute [simp] measuredOf successOf refinedOf

variable {σ : Type} (M : Prober σ)

/-- The refinement keeps what the pings reached, and measures nothing. -/
theorem refineFrom_spec (near : List Candidate) (limit : Nat) (ss : List Nat)
    (refined : List Candidate) (s : σ) :
    (run M () (refineFrom near limit ss refined) s).1 =
        refined ++ refinedIn (trace M () (refineFrom near limit ss refined) s) ∧
      measured (trace M () (refineFrom near limit ss refined) s) = [] ∧
      successes (trace M () (refineFrom near limit ss refined) s) = [] := by
  induction ss generalizing refined s with
  | nil => simp [refineFrom]
  | cons start rest ih =>
      simp only [refineFrom, perform_bind, run_op, trace_op]
      split
      · simp
      · simp only [run_op, trace_op]
        split
        · simp
        · obtain ⟨hrun, hmeasured, hsuccesses⟩ := ih _ _
          refine ⟨?_, by simpa using hmeasured, by simpa using hsuccesses⟩
          rw [hrun]
          simp

theorem refineNearest_spec (near : List Candidate) (s : σ) :
    (run M () (refineNearest near) s).1 = refinedIn (trace M () (refineNearest near) s) ∧
      measured (trace M () (refineNearest near) s) = [] ∧
      successes (trace M () (refineNearest near) s) = [] :=
  refineFrom_spec M near _ _ [] s

/-- The measurements go through the list from its front and add what succeeds. -/
theorem sampleFrom_spec (list : List Candidate) (samples : List Sample) (s : σ) :
    (run M () (sampleFrom list samples) s).1 =
        samples ++ successes (trace M () (sampleFrom list samples) s) ∧
      (measured (trace M () (sampleFrom list samples) s)).Sublist list ∧
      refinedIn (trace M () (sampleFrom list samples) s) = [] := by
  induction list generalizing samples s with
  | nil => simp [sampleFrom]
  | cons c rest ih =>
      simp only [sampleFrom, perform_bind, run_op, trace_op]
      split
      · simp
      · simp only [run_op, trace_op]
        have hnext := fun samples => ih samples (M.exec (Op.measure c) (M.exec Op.err s).2).2
        cases hanswer : (M.exec (Op.measure c) (M.exec Op.err s).2).1 with
        | error e =>
            obtain ⟨hrun, hmeasured, hrefined⟩ := hnext samples
            exact ⟨by simpa using hrun, by simpa using hmeasured, by simpa using hrefined⟩
        | ok x =>
            dsimp only
            split
            · rename_i hbad
              obtain ⟨hrun, hmeasured, hrefined⟩ := hnext samples
              exact ⟨by simpa [hbad] using hrun, by simpa using hmeasured, by simpa using hrefined⟩
            · rename_i hgood
              split
              · simp [hgood]
              · obtain ⟨hrun, hmeasured, hrefined⟩ := hnext (samples ++ [x])
                exact ⟨by simpa [hgood] using hrun, by simpa using hmeasured,
                  by simpa using hrefined⟩

/-- The samples are no more than wanted. -/
theorem sampleFrom_length (list : List Candidate) {samples : List Sample}
    (h : samples.length < maxSamples) :
    Yields (fun r => r.length ≤ maxSamples) (sampleFrom list samples) := by
  induction list generalizing samples with
  | nil => exact h.le
  | cons c rest ih =>
      refine Yields.perform_bind fun stopped => ?_
      split
      · exact h.le
      · refine Yields.perform_bind fun result => ?_
        split
        · exact ih h
        · rename_i x
          have hone : (samples ++ [x]).length = samples.length + 1 := List.length_append
          split
          · exact ih h
          · split
            · exact hone.trans_le h
            · rename_i hmore
              exact ih (Nat.lt_of_not_le fun hlong => hmore (.inl hlong))

theorem pos_of_mem_successes {t : List Event} {x : Sample} (h : x ∈ successes t) :
    0 < x.upload ∧ 0 < x.download := by
  obtain ⟨e, -, he⟩ := List.mem_filterMap.1 h
  unfold successOf at he
  split at he
  · split at he
    · cases he
    · rename_i hgood
      cases he
      simpa [not_or] using hgood
  · cases he

/-! ## The lowest sample -/

theorem foldl_lowest (pick : Sample → ℚ) (rest : List Sample) (m : ℚ) :
    rest.foldl (fun m s => if pick s < m then pick s else m) m ≤ m ∧
      ∀ x ∈ rest, rest.foldl (fun m s => if pick s < m then pick s else m) m ≤ pick x := by
  induction rest generalizing m with
  | nil => simp
  | cons x rest ih =>
      obtain ⟨hm, hrest⟩ := ih (if pick x < m then pick x else m)
      have hmin : (if pick x < m then pick x else m) = min (pick x) m := by
        rw [min_def]
        split_ifs <;> grind
      rw [hmin] at hm hrest
      rw [List.foldl_cons, hmin]
      refine ⟨hm.trans (min_le_right _ _), ?_⟩
      rw [List.forall_mem_cons]
      exact ⟨hm.trans (min_le_left _ _), hrest⟩

theorem minSample_le {samples : List Sample} {pick : Sample → ℚ} {x : Sample} (h : x ∈ samples) :
    minSample samples pick ≤ pick x := by
  cases samples with
  | nil => cases h
  | cons first rest =>
      obtain ⟨hfirst, hrest⟩ := foldl_lowest pick rest (pick first)
      rcases List.mem_cons.1 h with rfl | h
      · exact hfirst
      · exact hrest x h

theorem pos_foldl_lowest {pick : Sample → ℚ} {rest : List Sample} {m : ℚ} (hm : 0 < m)
    (h : ∀ x ∈ rest, 0 < pick x) :
    0 < rest.foldl (fun m s => if pick s < m then pick s else m) m := by
  induction rest generalizing m with
  | nil => exact hm
  | cons x rest ih =>
      rw [List.forall_mem_cons] at h
      rw [List.foldl_cons]
      split
      · exact ih h.1 h.2
      · exact ih hm h.2

theorem minSample_nonneg {samples : List Sample} {pick : Sample → ℚ}
    (h : ∀ x ∈ samples, 0 < pick x) : 0 ≤ minSample samples pick := by
  cases samples with
  | nil => exact le_rfl
  | cons first rest =>
      rw [List.forall_mem_cons] at h
      exact (pos_foldl_lowest h.1 h.2).le

/-- The conversion does not overstate, on numbers that do not fit either. -/
theorem Platform.int64_le (p : Platform) {q : ℚ} (h : 0 ≤ q) : ((p.int64 q).toInt : ℚ) ≤ q := by
  by_cases hfits : q < 2 ^ 63
  · rw [p.int64_floor q h hfits]
    exact Int.floor_le q
  · have hlt : (p.int64 q).toInt < 2 ^ 63 := Int64.toInt_lt _
    have hcast : ((p.int64 q).toInt : ℚ) < 2 ^ 63 := by exact_mod_cast hlt
    exact hcast.le.trans (not_lt.1 hfits)

/-! ## The shortlist -/

/-- What the shortlist of the servers gone through is: some of them in their order, above the
floor, of one key each, and no more than allowed; before it is full, every key above the floor
is in it. -/
structure Listed (p : Platform) (floor : Int) (done list : List Candidate) : Prop where
  sublist : list.Sublist done
  clear : ∀ c ∈ list, floor ≤ c.minLatency
  nodup : (list.map p.key).Nodup
  length : list.length ≤ maxQualifying
  covers : list.length = maxQualifying ∨
    ∀ c ∈ done, floor ≤ c.minLatency → p.key c ∈ list.map p.key

variable {p : Platform} {floor : Int} {done list : List Candidate}

/-- A server that adds no key above the floor. -/
theorem Listed.skip (h : Listed p floor done list) {c : Candidate}
    (hc : floor ≤ c.minLatency → p.key c ∈ list.map p.key) : Listed p floor (done ++ [c]) list where
  sublist := h.sublist.trans (List.sublist_append_left _ _)
  clear := h.clear
  nodup := h.nodup
  length := h.length
  covers := by
    refine h.covers.imp_right fun hall d hd => ?_
    rcases List.mem_append.1 hd with hd | hd
    · exact hall d hd
    · rw [List.mem_singleton.1 hd]
      exact hc

theorem Listed.add (h : Listed p floor done list) {c : Candidate} (hc : floor ≤ c.minLatency)
    (hnew : p.key c ∉ list.map p.key) (hroom : list.length < maxQualifying) :
    Listed p floor (done ++ [c]) (list ++ [c]) where
  sublist := h.sublist.append (List.Sublist.refl _)
  clear := by
    intro d hd
    rcases List.mem_append.1 hd with hd | hd
    · exact h.clear d hd
    · rwa [List.mem_singleton.1 hd]
  nodup := by
    rw [List.map_append, List.map_singleton, ← List.concat_eq_append]
    exact h.nodup.concat hnew
  length := by
    rw [List.length_append]
    exact hroom
  covers := by
    refine .inr fun d hd hclear => ?_
    rw [List.map_append, List.mem_append]
    rcases List.mem_append.1 hd with hd | hd
    · exact .inl ((h.covers.resolve_left hroom.ne) d hd hclear)
    · rw [List.mem_singleton.1 hd]
      exact .inr (List.mem_singleton.2 rfl)

theorem Listed.full (h : Listed p floor done list) (hfull : list.length = maxQualifying)
    (rest : List Candidate) : Listed p floor (done ++ rest) list where
  sublist := h.sublist.trans (List.sublist_append_left _ _)
  clear := h.clear
  nodup := h.nodup
  length := h.length
  covers := .inl hfull

/-- The loop, from any point in it. -/
theorem listed_shortlistFrom (h : Listed p floor done list) (hroom : list.length < maxQualifying)
    {seen : List String} (hseen : ∀ k, k ∈ seen ↔ k ∈ list.map p.key) (rejected : List Candidate)
    (rest : List Candidate) :
    Listed p floor (done ++ rest) (shortlistFrom p floor seen list rejected rest).1 := by
  induction rest generalizing done list seen rejected with
  | nil => simpa [shortlistFrom] using h
  | cons c rest ih =>
      rw [List.append_cons, shortlistFrom]
      split
      · rename_i hlow
        exact ih (h.skip fun hclear => absurd hlow (not_lt.2 hclear)) hroom hseen _
      · rename_i hclear
        split
        · rename_i hmem
          exact ih (h.skip fun _ => (hseen _).1 hmem) hroom hseen _
        · rename_i hnew
          have hadd := h.add (not_lt.1 hclear) (fun hmem => hnew ((hseen _).2 hmem)) hroom
          split
          · rename_i hfull
            exact hadd.full hfull rest
          · rename_i hmore
            refine ih hadd (lt_of_le_of_ne hadd.length hmore) (fun k => ?_) _
            rw [List.mem_cons, hseen, List.map_append, List.mem_append, List.map_singleton,
              List.mem_singleton, or_comm]

theorem listed_shortlist (p : Platform) (cs : List Candidate) (floor : Int) :
    Listed p floor cs (shortlist p cs floor).1 := by
  have hstart : Listed p floor [] [] :=
    ⟨.slnil, by simp, by simp, by decide, .inr (by simp)⟩
  exact listed_shortlistFrom hstart (by decide) (by simp) [] cs

/-- The servers to measure are those above the higher floor, or, when there are none, those
above the lower one. -/
theorem servers_cases (p : Platform) (refined : List Candidate) :
    Listed p sameFacilityFloor refined (servers p refined) ∨
      Listed p sameBuildingFloor refined (servers p refined) ∧
        ∀ d ∈ refined, ¬ sameFacilityFloor ≤ d.minLatency := by
  unfold servers
  have hfirst := listed_shortlist p refined sameFacilityFloor
  dsimp only
  split
  · rename_i hempty
    refine .inr ⟨listed_shortlist p refined sameBuildingFloor, fun d hd hclear => ?_⟩
    rw [List.isEmpty_iff] at hempty
    rw [hempty] at hfirst
    have hin := (hfirst.covers.resolve_left (by decide)) d hd hclear
    cases hin
  · exact .inl hfirst

/-- One sponsor and one city, but for the case of the letters. -/
def Platform.Same (p : Platform) (c d : Candidate) : Prop :=
  p.toLower c.sponsor = p.toLower d.sponsor ∧ p.toLower c.name = p.toLower d.name

theorem Platform.key_eq (p : Platform) (c : Candidate) :
    p.key c = p.toLower c.sponsor ++ "|" ++ p.toLower c.name := by
  simp [Platform.key, Platform.toLower, p.lower_bar, String.ext_iff]

theorem Platform.Same.key {c d : Candidate} (h : p.Same c d) : p.key c = p.key d := by
  rw [p.key_eq, p.key_eq, h.1, h.2]

theorem mem_sortByLatency {cs : List Candidate} {c : Candidate} : c ∈ sortByLatency cs ↔ c ∈ cs :=
  List.mem_insertionSort _

theorem sorted_sortByLatency (cs : List Candidate) :
    (sortByLatency cs).Pairwise fun c d => c.latency ≤ d.latency := by
  have : Std.Total fun c d : Candidate => c.latency ≤ d.latency := ⟨fun c d => le_total _ _⟩
  have : IsTrans Candidate fun c d => c.latency ≤ d.latency := ⟨fun _ _ _ => le_trans⟩
  exact List.pairwise_insertionSort _ cs

/-! ## Every run -/

/-- A result next to what was measured for it. -/
structure Reported (t : List Event) (r : Result) : Prop where
  figure : (r = .none ∧ successes t = []) ∨ (r.source = .speedtest ∧ successes t ≠ [] ∧
    ∀ x ∈ successes t, (r.upload.toInt : ℚ) ≤ x.upload ∧ (r.download.toInt : ℚ) ≤ x.download)
  samples : (successes t).length ≤ maxSamples

theorem Reported.none {t : List Event} (h : successes t = []) : Reported t .none :=
  ⟨.inl ⟨rfl, h⟩, by simp [h]⟩

theorem report_spec (p : Platform) (list : List Candidate) (s : σ) :
    Reported (trace M () (report p list) s) (run M () (report p list) s).1 ∧
      (measured (trace M () (report p list) s)).Sublist list ∧
      refinedIn (trace M () (report p list) s) = [] := by
  unfold report
  split
  · exact ⟨.none rfl, by simp, rfl⟩
  · rw [run_bind, trace_bind]
    obtain ⟨hrun, hmeasured, hrefined⟩ := sampleFrom_spec M list [] s
    have hnone : ([] : List Sample).length < maxSamples := by decide
    have hlength := (sampleFrom_length list hnone).run M () s
    rw [List.nil_append] at hrun
    rw [hrun] at hlength ⊢
    split
    · rename_i hempty
      refine ⟨.none ?_, by simpa using hmeasured, by simpa using hrefined⟩
      simpa using hempty
    · rename_i hsome
      refine ⟨⟨.inr ⟨rfl, by simpa using hsome, fun x hx => ?_⟩, by simpa using hlength⟩,
        by simpa using hmeasured, by simpa using hrefined⟩
      rw [pure_eq, trace_ret, List.append_nil] at hx
      exact ⟨(p.int64_le (minSample_nonneg fun x hx => (pos_of_mem_successes hx).1)).trans
          (minSample_le hx),
        (p.int64_le (minSample_nonneg fun x hx => (pos_of_mem_successes hx).2)).trans
          (minSample_le hx)⟩

/-- What is measured comes from the servers that were refined. -/
theorem measure_spec (p : Platform) (s : σ) :
    Reported (trace M () (measure p) s) (run M () (measure p) s).1 ∧
      (measured (trace M () (measure p) s)).Sublist
        (servers p (sortByLatency (refinedIn (trace M () (measure p) s)))) := by
  simp only [measure, perform_bind, run_op, trace_op]
  cases (M.exec Op.candidates s).1 with
  | error e => exact ⟨.none rfl, by simp⟩
  | ok candidates =>
      dsimp only
      split
      · exact ⟨.none rfl, by simp⟩
      · rw [run_bind, trace_bind]
        obtain ⟨hrefined, hmeasured, hsuccesses⟩ :=
          refineNearest_spec M (reachable candidates) (M.exec Op.candidates s).2
        rw [hrefined]
        obtain ⟨hreport, hlist, hlater⟩ := report_spec M p
          (servers p (sortByLatency (refinedIn
            (trace M () (refineNearest (reachable candidates)) (M.exec Op.candidates s).2))))
          (run M () (refineNearest (reachable candidates)) (M.exec Op.candidates s).2).2
        refine ⟨⟨?_, ?_⟩, ?_⟩
        · simpa [hsuccesses] using hreport.figure
        · simpa [hsuccesses] using hreport.samples
        · simpa [hmeasured, hlater] using hlist

/-- **The figure understates.**  Whatever the prober lists, pings and measures, a figure that
is reported is at most that of each sample that was taken, in both directions; without a sample
the result is zero.  The servers measured are not in the building, nor in the facility when one
outside answered; no two are of one sponsor in one city; they are taken the nearest first, and
neither they nor the samples are more than wanted. -/
theorem measure_understates (p : Platform) {σ : Type} (M : Prober σ) (s : σ) :
    let t := trace M () (measure p) s
    let r := (run M () (measure p) s).1
    ((r.source = .speedtest ∧ successes t ≠ [] ∧
        ∀ x ∈ successes t, (r.upload.toInt : ℚ) ≤ x.upload ∧ (r.download.toInt : ℚ) ≤ x.download) ∨
      (r = ⟨0, 0, .none⟩ ∧ successes t = [])) ∧
    (∀ c ∈ measured t, sameBuildingFloor ≤ c.minLatency ∧
      ((∃ d ∈ refinedIn t, sameFacilityFloor ≤ d.minLatency) →
        sameFacilityFloor ≤ c.minLatency)) ∧
    (measured t).Pairwise (fun c d => ¬ p.Same c d) ∧
    (measured t).Pairwise (fun c d => c.latency ≤ d.latency) ∧
    (measured t).length ≤ 5 ∧ (successes t).length ≤ 3 := by
  intro t r
  obtain ⟨⟨hfigure, hsamples⟩, hlist⟩ := measure_spec M p s
  obtain ⟨floor, hlisted, hfloors⟩ : ∃ floor,
      Listed p floor (sortByLatency (refinedIn t)) (servers p (sortByLatency (refinedIn t))) ∧
        sameBuildingFloor ≤ floor ∧
          ((∃ d ∈ refinedIn t, sameFacilityFloor ≤ d.minLatency) → sameFacilityFloor ≤ floor) := by
    rcases servers_cases p (sortByLatency (refinedIn t)) with h | ⟨h, hlow⟩
    · exact ⟨_, h, by decide, fun _ => le_rfl⟩
    · refine ⟨_, h, le_rfl, ?_⟩
      rintro ⟨d, hd, hclear⟩
      exact absurd hclear (hlow d (mem_sortByLatency.2 hd))
  refine ⟨hfigure.symm, fun c hc => ?_, ?_, ?_, hlist.length_le.trans hlisted.length, hsamples⟩
  · have hclear := hlisted.clear c (hlist.subset hc)
    exact ⟨hfloors.1.trans hclear, fun hfar => (hfloors.2 hfar).trans hclear⟩
  · have hkeys := List.pairwise_map.1 (hlisted.nodup.sublist (hlist.map p.key))
    exact hkeys.imp fun hne hsame => hne hsame.key
  · exact (sorted_sortByLatency _).sublist (hlist.trans hlisted.sublist)

/-! ## Independent paths -/

/-- The accurate ping of a server: its mean and its lowest round-trip time. -/
def Candidate.pinged (accurate : Candidate → Int × Int) (c : Candidate) : Candidate :=
  { c with latency := (accurate c).1, minLatency := (accurate c).2 }

/-- A prober that lists the candidates and whose accurate pings all succeed. -/
structure Pings (M : Prober σ) (candidates : List Candidate)
    (accurate : Candidate → Int × Int) : Prop where
  listed : ∀ s, (M.exec .candidates s).1 = .ok candidates
  refined : ∀ cs s, (M.exec (.refine cs) s).1 = cs.map (·.pinged accurate)
  running : ∀ s, (M.exec .err s).1 = false
  success : ∀ c ∈ candidates, 0 < (accurate c).1 ∧ 0 < (accurate c).2

/-- The servers that may be refined. -/
def nearest (candidates : List Candidate) : List Candidate :=
  (reachable candidates).take refineLimit

variable {M} {candidates : List Candidate} {accurate : Candidate → Int × Int}

theorem answered_pinged {cs : List Candidate}
    (h : ∀ c ∈ cs, 0 < (accurate c).1 ∧ 0 < (accurate c).2) :
    answered (cs.map (·.pinged accurate)) = cs.map (·.pinged accurate) := by
  refine List.filter_eq_self.2 fun c hc => ?_
  obtain ⟨d, hd, rfl⟩ := List.mem_map.1 hc
  exact decide_eq_true (h d hd)

/-- The batch of the `k`-th server is asked for: the batches before it have fewer servers
above the floor than are wanted. -/
def Reached (accurate : Candidate → Int × Int) (near : List Candidate) (k : Nat) : Prop :=
  countClearing ((near.take (k / refineBatch * refineBatch)).map (·.pinged accurate))
    sameFacilityFloor < wantQualifying

instance Reached.decidable (near : List Candidate) (k : Nat) :
    Decidable (Reached accurate near k) :=
  inferInstanceAs (Decidable (_ < _))

/-- What a batch adds to the servers before it. -/
theorem take_batch (near : List Candidate) {limit start : Nat} (h : start < limit) :
    (near.take limit).take start ++ (near.take (min (start + refineBatch) limit)).drop start =
      (near.take limit).take (start + refineBatch) := by
  rw [List.take_take, List.take_take]
  have hfirst : near.take (min start limit) =
      (near.take (min (start + refineBatch) limit)).take start := by
    rw [List.take_take]
    congr 1
    omega
  rw [hfirst, List.take_append_drop]

theorem reached_of_dvd {near : List Candidate} {k : Nat} (hk : refineBatch ∣ k) :
    Reached accurate near k ↔
      countClearing ((near.take k).map (·.pinged accurate)) sameFacilityFloor < wantQualifying := by
  rw [Reached, Nat.div_mul_cancel hk]

/-- A batch is asked for as a whole. -/
theorem reached_of_start {near : List Candidate} {start k : Nat} (hstart : refineBatch ∣ start)
    (hle : start ≤ k) (hlt : k < start + refineBatch) :
    Reached accurate near k ↔ Reached accurate near start := by
  obtain ⟨n, rfl⟩ := hstart
  have hbatch : k / refineBatch = n := by
    refine Nat.div_eq_of_lt_le ?_ ?_
    · rw [Nat.mul_comm]
      exact hle
    · rw [Nat.succ_mul, Nat.mul_comm]
      exact hlt
  unfold Reached
  rw [hbatch, Nat.mul_div_cancel_left n (by decide)]

/-- The loop over the batches ends behind one of them: at the end of the list, or where enough
servers clear the floor, which they did behind no batch before. -/
theorem Pings.run_refineFrom (h : Pings M candidates accurate) {near : List Candidate}
    (hnear : ∀ c ∈ near, c ∈ candidates) {limit start : Nat} (rounds : Nat)
    (hlimit : limit ≤ start + rounds * refineBatch) (hstart : refineBatch ∣ start)
    (hreached : Reached accurate (near.take limit) start) (s : σ) :
    ∃ m, refineBatch ∣ m ∧
      (run M () (refineFrom near limit ((List.range' start rounds refineBatch).filter (· < limit))
        (((near.take limit).take start).map (·.pinged accurate))) s).1 =
          ((near.take limit).take m).map (·.pinged accurate) ∧
      (limit ≤ m ∨ ¬ Reached accurate (near.take limit) m) ∧
      ∀ k, start ≤ k → k < m → Reached accurate (near.take limit) k := by
  induction rounds generalizing start s with
  | zero => exact ⟨start, hstart, rfl, .inl (by simpa using hlimit), fun k hle hlt => by omega⟩
  | succ rounds ih =>
      have hrest : limit ≤ start + refineBatch + rounds * refineBatch := by
        rw [Nat.succ_mul] at hlimit
        omega
      have hstart' := hstart.add (Nat.dvd_refl refineBatch)
      have hcount : Reached accurate (near.take limit) (start + refineBatch) ↔ _ :=
        reached_of_dvd hstart'
      -- this batch is asked for, and what the induction says of the later ones is added
      have hbatches : ∀ {m},
          (∀ k, start + refineBatch ≤ k → k < m → Reached accurate (near.take limit) k) →
          ∀ k, start ≤ k → k < m → Reached accurate (near.take limit) k := by
        intro m hlater k hle hlt
        rcases Nat.lt_or_ge k (start + refineBatch) with hin | hge
        · exact (reached_of_start hstart hle hin).2 hreached
        · exact hlater k hge hlt
      rw [List.range'_succ, List.filter_cons]
      by_cases hlt : start < limit
      · rw [if_pos (decide_eq_true hlt)]
        have hslice : answered ((near.take (min (start + refineBatch) limit)).drop start |>.map
            (·.pinged accurate)) = ((near.take (min (start + refineBatch) limit)).drop start).map
              (·.pinged accurate) :=
          answered_pinged fun c hc =>
            h.success c (hnear c (List.mem_of_mem_take (List.mem_of_mem_drop hc)))
        simp only [Bandwidth.refineFrom, perform_bind, run_op, h.refined, hslice, ← List.map_append,
          take_batch near hlt]
        split
        · rename_i henough
          exact ⟨start + refineBatch, hstart', rfl,
            .inr fun hgo => Nat.not_lt.2 henough (hcount.1 hgo), hbatches fun k hle hlt => by omega⟩
        · rename_i hfew
          rw [run_op, h.running]
          obtain ⟨m, hbatch, hrun, hend, hlater⟩ :=
            ih hrest hstart' (hcount.2 (Nat.lt_of_not_le hfew)) _
          exact ⟨m, hbatch, hrun, hend, hbatches hlater⟩
      · rw [if_neg (by simpa using hlt)]
        have hall : (near.take limit).take start = (near.take limit).take (start + refineBatch) := by
          rw [List.take_take, List.take_take]
          congr 1
          omega
        have hgo : Reached accurate (near.take limit) (start + refineBatch) := by
          rw [hcount, ← hall]
          exact (reached_of_dvd hstart).1 hreached
        rw [hall]
        obtain ⟨m, hbatch, hrun, hend, hlater⟩ := ih hrest hstart' hgo s
        exact ⟨m, hbatch, hrun, hend, hbatches hlater⟩

/-- What is not reached stays out of reach. -/
theorem Reached.mono {near : List Candidate} {k k' : Nat} (h : Reached accurate near k')
    (hle : k ≤ k') : Reached accurate near k :=
  Nat.lt_of_le_of_lt (((List.take_sublist_take_left
    (Nat.mul_le_mul_right _ (Nat.div_le_div_right hle))).map _).countP_le) h

/-- The loop refines the nearest servers up to where they are reached. -/
theorem Pings.run_refineNearest (h : Pings M candidates accurate) (s : σ) :
    ∃ m, (run M () (refineNearest (reachable candidates)) s).1 =
        ((nearest candidates).take m).map (·.pinged accurate) ∧
      ∀ k < (nearest candidates).length, k < m ↔ Reached accurate (nearest candidates) k := by
  have hnear : ∀ c ∈ reachable candidates, c ∈ candidates := fun c hc =>
    (List.mem_filter.1 (mem_sortByLatency.1 hc)).1
  have htake : (reachable candidates).take (min (reachable candidates).length refineLimit) =
      nearest candidates := by
    rw [nearest, List.take_eq_take_iff]
    omega
  have hlength : (nearest candidates).length = min (reachable candidates).length refineLimit := by
    rw [nearest, List.length_take, Nat.min_comm]
  have hlimit : min (reachable candidates).length refineLimit ≤
      0 + refineLimit / refineBatch * refineBatch := by
    simp [refineLimit, refineBatch]
  have hfirst : ∀ near, Reached accurate near 0 := fun near => by
    simp [Reached, countClearing, wantQualifying]
  obtain ⟨m, hbatch, hrun, hend, hall⟩ :=
    h.run_refineFrom hnear _ hlimit (Nat.dvd_zero _) (hfirst _) s
  rw [htake] at hrun hend hall
  refine ⟨m, hrun, fun k hk => ⟨hall k (Nat.zero_le k), fun hreached => ?_⟩⟩
  by_contra hbehind
  exact hend.resolve_left (by omega) (hreached.mono (Nat.not_lt.1 hbehind))

/-- The servers the shortlist is made from are those of the loop. -/
theorem Pings.refinedIn_measure (h : Pings M candidates accurate) (p : Platform) (s : σ) :
    refinedIn (trace M () (measure p) s) =
      (run M () (refineNearest (reachable candidates)) (M.exec Op.candidates s).2).1 := by
  simp only [measure, perform_bind, trace_op, h.listed, refinedIn_cons, refinedOf, List.nil_append]
  split
  · rename_i hempty
    rw [List.isEmpty_iff.1 hempty]
    rfl
  · rw [trace_bind, refinedIn_append, (report_spec M p _ _).2.2, List.append_nil,
      (refineNearest_spec M _ _).1]

/-- Two keys above the floor are two servers on the shortlist. -/
theorem Listed.two (h : Listed p floor done list) {c d : Candidate} (hc : c ∈ done) (hd : d ∈ done)
    (hclear : floor ≤ c.minLatency ∧ floor ≤ d.minLatency) (hne : p.key c ≠ p.key d) :
    2 ≤ list.length := by
  rcases h.covers with hfull | hall
  · rw [hfull]
    decide
  · have hkc := hall c hc hclear.1
    have hkd := hall d hd hclear.2
    match list, hkc, hkd with
    | [x], hkc, hkd => exact absurd ((List.mem_singleton.1 hkc).trans (List.mem_singleton.1 hkd).symm) hne
    | x :: y :: rest, _, _ => simp

/-- Two servers on a shortlist are two keys above the floor. -/
theorem Listed.differ (h : Listed p floor done list) (htwo : 2 ≤ list.length) :
    ∃ c ∈ done, ∃ d ∈ done, (floor ≤ c.minLatency ∧ floor ≤ d.minLatency) ∧ p.key c ≠ p.key d := by
  have h0 : 0 < list.length := by omega
  have hmem : ∀ {k} (hk : k < list.length), list[k] ∈ done ∧ floor ≤ list[k].minLatency := fun hk =>
    ⟨h.sublist.subset (List.getElem_mem hk), h.clear _ (List.getElem_mem hk)⟩
  refine ⟨list[0], (hmem h0).1, list[1], (hmem htwo).1, ⟨(hmem h0).2, (hmem htwo).2⟩, ?_⟩
  exact List.pairwise_iff_getElem.1 (List.pairwise_map.1 h.nodup) 0 1 h0 htwo (by decide)

/-- A server is refined exactly when it is among the nearest and is reached. -/
theorem Pings.mem_refined (h : Pings M candidates accurate) (p : Platform) (s : σ) (x : Candidate) :
    x ∈ sortByLatency (refinedIn (trace M () (measure p) s)) ↔
      ∃ k c, (nearest candidates)[k]? = some c ∧ Reached accurate (nearest candidates) k ∧
        x = c.pinged accurate := by
  obtain ⟨m, hrun, hreached⟩ := h.run_refineNearest (M.exec Op.candidates s).2
  rw [mem_sortByLatency, h.refinedIn_measure p s, hrun, List.mem_map]
  constructor
  · rintro ⟨c, hc, rfl⟩
    obtain ⟨k, hk⟩ := List.mem_iff_getElem?.1 hc
    rw [List.getElem?_take] at hk
    split at hk
    · rename_i hlt
      exact ⟨k, c, hk, (hreached k (List.getElem?_eq_some_iff.1 hk).1).1 hlt, rfl⟩
    · cases hk
  · rintro ⟨k, c, hk, hgo, rfl⟩
    have hlt := (hreached k (List.getElem?_eq_some_iff.1 hk).1).2 hgo
    exact ⟨c, List.mem_of_getElem? (i := k) (by rw [List.getElem?_take, if_pos hlt, hk]), rfl⟩

/-- The first server that clears the floor is reached. -/
theorem first_reached {near : List Candidate}
    (h : ∃ c ∈ near, sameFacilityFloor ≤ (accurate c).2) :
    ∃ k c, near[k]? = some c ∧ Reached accurate near k ∧ sameFacilityFloor ≤ (accurate c).2 := by
  classical
  have hsome : ∃ k : Nat, ∃ c, near[k]? = some c ∧ sameFacilityFloor ≤ (accurate c).2 := by
    obtain ⟨c, hc, hclear⟩ := h
    exact (List.mem_iff_getElem?.1 hc).imp fun k hk => ⟨c, hk, hclear⟩
  obtain ⟨c, hc, hclear⟩ := Nat.find_spec hsome
  refine ⟨Nat.find hsome, c, hc, ?_, hclear⟩
  -- nothing before it clears the floor
  have hnone : countClearing ((near.take (Nat.find hsome / refineBatch * refineBatch)).map
      (·.pinged accurate)) sameFacilityFloor = 0 := by
    refine List.countP_eq_zero.2 fun x hx => ?_
    obtain ⟨d, hd, rfl⟩ := List.mem_map.1 hx
    obtain ⟨i, hi⟩ := List.mem_iff_getElem?.1 hd
    rw [List.getElem?_take] at hi
    split at hi
    · rename_i hlt
      have hbefore := Nat.find_min hsome (Nat.lt_of_lt_of_le hlt (Nat.div_mul_le_self _ _))
      exact fun hlow => hbefore ⟨d, hi, of_decide_eq_true hlow⟩
    · cases hi
  rw [Reached, hnone]
  decide

/-- **Two independent paths.**  When the accurate pings succeed and some server among the
nearest clears the floor, the shortlist has two servers exactly when two that clear the floor
and have different keys are reached: fewer servers than wanted clear the floor in the batches
before theirs. -/
theorem two_paths_iff (p : Platform) {σ : Type} (M : Prober σ) (s : σ) (candidates : List Candidate)
    (accurate : Candidate → Int × Int) (h : Pings M candidates accurate)
    (hsome : ∃ c ∈ nearest candidates, sameFacilityFloor ≤ (accurate c).2) :
    2 ≤ (servers p (sortByLatency (refinedIn (trace M () (measure p) s)))).length ↔
      ∃ i j c d, (nearest candidates)[i]? = some c ∧ (nearest candidates)[j]? = some d ∧
        Reached accurate (nearest candidates) i ∧ Reached accurate (nearest candidates) j ∧
        sameFacilityFloor ≤ (accurate c).2 ∧ sameFacilityFloor ≤ (accurate d).2 ∧
        p.key c ≠ p.key d := by
  have hrefined := h.mem_refined p s
  rcases servers_cases p (sortByLatency (refinedIn (trace M () (measure p) s))) with
    hlisted | ⟨-, hlow⟩
  · constructor
    · intro htwo
      obtain ⟨x, hx, y, hy, ⟨hclearx, hcleary⟩, hne⟩ := hlisted.differ htwo
      obtain ⟨i, c, hc, hci, rfl⟩ := (hrefined x).1 hx
      obtain ⟨j, d, hd, hdj, rfl⟩ := (hrefined y).1 hy
      exact ⟨i, j, c, d, hc, hd, hci, hdj, hclearx, hcleary, hne⟩
    · rintro ⟨i, j, c, d, hc, hd, hci, hdj, hclearc, hcleard, hne⟩
      exact hlisted.two ((hrefined _).2 ⟨i, c, hc, hci, rfl⟩) ((hrefined _).2 ⟨j, d, hd, hdj, rfl⟩)
        ⟨hclearc, hcleard⟩ hne
  · -- the relaxed floor is out of question: the first server that clears the floor is reached
    obtain ⟨k, c, hc, hck, hclear⟩ := first_reached hsome
    exact absurd hclear (hlow _ ((hrefined _).2 ⟨k, c, hc, hck, rfl⟩))

/-- A platform that knows the letters of ASCII. -/
def asciiPlatform : Platform where
  lower := Char.toLower
  lower_bar := by decide
  int64 q := Int64.ofInt ⌊q⌋
  int64_floor q h hfits := by
    have hnonneg : 0 ≤ ⌊q⌋ := Int.floor_nonneg.2 h
    have hlt : ⌊q⌋ < 2 ^ 63 := Int.floor_lt.2 (by exact_mod_cast hfits)
    exact Int64.toInt_ofInt_of_le (by omega) hlt

/-- A prober that always answers the same. -/
def steady (candidates : List Candidate) (accurate : Candidate → Int × Int) : Prober Unit where
  exec
    | .candidates, s => (.ok candidates, s)
    | .refine cs, s => (cs.map (·.pinged accurate), s)
    | .err, s => (false, s)
    | .measure _, s => (.ok ⟨1, 1⟩, s)
  acquire _ s := s

theorem pings_steady {candidates : List Candidate} {accurate : Candidate → Int × Int}
    (h : ∀ c ∈ candidates, 0 < (accurate c).1 ∧ 0 < (accurate c).2) :
    Pings (steady candidates accurate) candidates accurate :=
  ⟨fun _ => rfl, fun _ _ => rfl, fun _ => rfl, h⟩

/-- Servers of one sponsor in one city, as many as asked, the first 3 ms away, -/
def cluster (n : Nat) : List Candidate :=
  (List.range n).map fun i => ⟨toString i, "Berlin", "Alpha", 3000000 + i, 0⟩

/-- and one of another sponsor, 4 ms away. -/
def outsider : Candidate := ⟨"outsider", "Prague", "Beta", 4000000, 0⟩

/-- The accurate ping finds the same. -/
def unchanged (c : Candidate) : Int × Int := (c.latency, c.latency)

/-- In a small market the other one is reached. -/
theorem two_paths_small : 2 ≤ (servers asciiPlatform (sortByLatency (refinedIn
    (trace (steady (cluster 2 ++ [outsider]) unchanged) () (measure asciiPlatform) ())))).length :=
  (two_paths_iff asciiPlatform _ () (cluster 2 ++ [outsider]) unchanged
    (pings_steady (by decide +kernel)) ⟨outsider, by decide +kernel, by decide⟩).2
    ⟨0, 2, ⟨toString 0, "Berlin", "Alpha", 3000000, 0⟩, outsider, by decide +kernel,
      by decide +kernel, by decide +kernel, by decide +kernel, by decide, by decide, by decide⟩

/-- **One path only.**  Ten servers of one sponsor in one city are the first batch, three of
them are enough to stop, and one is left once they are told apart; the eleventh, of another
sponsor and as far off this host's network, was not pinged. -/
theorem one_path :
    Pings (steady (cluster 10 ++ [outsider]) unchanged) (cluster 10 ++ [outsider]) unchanged ∧
    (∃ c ∈ nearest (cluster 10 ++ [outsider]), ∃ d ∈ nearest (cluster 10 ++ [outsider]),
      sameFacilityFloor ≤ (unchanged c).2 ∧ sameFacilityFloor ≤ (unchanged d).2 ∧
        ¬ asciiPlatform.Same c d) ∧
    (servers asciiPlatform (sortByLatency (refinedIn (trace
      (steady (cluster 10 ++ [outsider]) unchanged) () (measure asciiPlatform) ())))).length = 1 := by
  refine ⟨pings_steady (by decide +kernel), ?_, by decide +kernel⟩
  refine ⟨⟨toString 0, "Berlin", "Alpha", 3000000, 0⟩, by decide +kernel, outsider, by decide +kernel,
    by decide, by decide, ?_⟩
  rintro ⟨h, -⟩
  revert h
  decide

end Dvpnd.Bandwidth
