import Dvpnd.Lib.Lists
import Dvpnd.Lib.Steps
import Mathlib.Data.List.Nodup
import Mathlib.Order.Nat

/-!
# Replies without a name on them

The management interface answers commands in the order it gets them, and its replies do
not say which command they are for (`services/openvpn/management.go`).  `run` puts its
command at the end of a queue and writes it under one lock; the reader gives each line
that is not an event to the command at the head of the queue.

* `Mux`, `step` — the calls, the queue, and the stream, line by line.
* `Delivered` — each call has exactly the lines of its own reply, so far, and is completed
  once, with the last of them.
* `replies_delivered` — **in every run**, also of calls that time out and with events
  between any two lines, as long as no line inside a reply looks like the end of one.
* `body_line_shifts_replies` — a line of a table that starts with `SUCCESS:` shifts every
  reply after it.
-/

namespace Dvpnd

/-- `strings.HasPrefix`. -/
def hasPrefix (line pre : String) : Bool := pre.toList.isPrefixOf line.toList

/-- A line the reader takes for an event. -/
def isEvent (line : String) : Bool := hasPrefix line ">"

/-- A line that completes the command at the head of the queue. -/
def finished (multi : Bool) (line : String) : Bool :=
  hasPrefix line "SUCCESS:" || hasPrefix line "ERROR:" || (multi && line == "END")

/-- A line of the stream.  Which call it answers is known to the server only. -/
structure Line where
  text : String
  owner : Option Nat
  deriving DecidableEq

/-- What `run` returns. -/
inductive Return
  | ok (lines : List Line)
  | error (lines : List Line)
  | timedOut
  deriving DecidableEq

/-- A call of `run` and its `pendingCommand`. -/
structure Run where
  multi : Bool
  lines : List Line := []
  /-- How often `done` was closed. -/
  closed : Nat := 0
  outcome : Option Return := none
  /-- The reply the server has decided on. -/
  reply : Option (List String) := none
  deriving DecidableEq

/-- The client, the server and what the server has written. -/
structure Mux where
  runs : List Run
  /-- The queue, by index in `runs`. -/
  pending : List Nat
  /-- Commands that are written and not answered. -/
  unanswered : List Nat
  /-- The rest of the reply the server is writing. -/
  answering : List Line
  stream : List Line

namespace Mux

/-- A connection that has just been made. -/
def start : Mux := ⟨[], [], [], [], []⟩

/-! ## The steps -/

/-- `run` queues its command and writes it, under the lock. -/
def run (s : Mux) (multi : Bool) : Mux :=
  { s with
    runs := s.runs ++ [{ multi }]
    pending := s.pending ++ [s.runs.length]
    unanswered := s.unanswered ++ [s.runs.length] }

/-- The replies the protocol knows: one line that says how it went, or for a command with
a longer reply some lines and `END`, or one line that says what is wrong. -/
def IsReply (multi : Bool) (reply : List String) : Prop :=
  if multi then
    reply.getLast? = some "END" ∨ reply.length = 1 ∧ ∀ line ∈ reply, hasPrefix line "ERROR:"
  else
    reply.length = 1 ∧ ∀ line ∈ reply, hasPrefix line "SUCCESS:" ∨ hasPrefix line "ERROR:"

instance (multi : Bool) (reply : List String) : Decidable (IsReply multi reply) := by
  unfold IsReply; infer_instance

/-- The server decides on its reply to the next command. -/
def answer (s : Mux) (reply : List String) : Option Mux :=
  match s.answering, s.unanswered with
  | [], k :: unanswered =>
      match s.runs[k]? with
      | none => none
      | some r =>
          if IsReply r.multi reply then
            some { s with
              unanswered
              runs := s.runs.set k { r with reply := some reply }
              answering := reply.map fun text => ⟨text, some k⟩ }
          else none
  | _, _ => none

/-- It writes a line of it. -/
def emit (s : Mux) : Option Mux :=
  match s.answering with
  | [] => none
  | line :: answering => some { s with answering, stream := s.stream ++ [line] }

/-- It writes an event, between any two lines. -/
def event (s : Mux) (text : String) : Option Mux :=
  if isEvent text then some { s with stream := s.stream ++ [⟨text, none⟩] } else none

/-- The reader takes a line. -/
def read (s : Mux) : Option Mux :=
  match s.stream with
  | [] => none
  | line :: stream =>
      if isEvent line.text then some { s with stream }
      else
        match s.pending with
        | [] => some { s with stream }
        | k :: pending =>
            match s.runs[k]? with
            | none => none
            | some r =>
                if finished r.multi line.text then
                  some { s with
                    stream, pending
                    runs := s.runs.set k
                      { r with lines := r.lines ++ [line], closed := r.closed + 1 } }
                else
                  some { s with stream, runs := s.runs.set k { r with lines := r.lines ++ [line] } }

/-- What `run` makes of the lines once `done` is closed. -/
def outcomeOf (lines : List Line) : Return :=
  match lines.getLast? with
  | some line => if hasPrefix line.text "ERROR:" then .error lines else .ok lines
  | none => .ok lines

/-- `run` sees that its command is completed. -/
def finish (s : Mux) (k : Nat) : Option Mux :=
  match s.runs[k]? with
  | none => none
  | some r =>
      if r.closed ≠ 0 ∧ r.outcome = none then
        some { s with runs := s.runs.set k { r with outcome := some (outcomeOf r.lines) } }
      else none

/-- `run` has waited long enough.  Its command stays in the queue. -/
def timeout (s : Mux) (k : Nat) : Option Mux :=
  match s.runs[k]? with
  | none => none
  | some r =>
      if r.outcome = none then
        some { s with runs := s.runs.set k { r with outcome := some .timedOut } }
      else none

/-- Who takes the next turn. -/
inductive Act
  | run (multi : Bool)
  | answer (reply : List String)
  | emit
  | event (text : String)
  | read
  | finish (k : Nat)
  | timeout (k : Nat)

/-- One turn. -/
def step (s : Mux) : Act → Option Mux
  | .run multi => some (s.run multi)
  | .answer reply => s.answer reply
  | .emit => s.emit
  | .event text => s.event text
  | .read => s.read
  | .finish k => s.finish k
  | .timeout k => s.timeout k

/-! ## What is to be delivered -/

/-- A call has lines of its own reply only, from the first one on, is completed by the
last one and once, and returns with all of them or because it has waited too long. -/
structure Served (k : Nat) (r : Run) : Prop where
  own : ∀ line ∈ r.lines, line.owner = some k
  order : r.lines.map Line.text <+: r.reply.getD []
  once : r.closed = if r.reply = some (r.lines.map Line.text) then 1 else 0
  outcome : ∀ o, r.outcome = some o → o = .timedOut ∨ r.closed = 1 ∧ o = outcomeOf r.lines

/-- Every call is served, and once all that the server wrote is read, each call it has
answered is completed. -/
def Delivered (s : Mux) : Prop :=
  (∀ k r, s.runs[k]? = some r → Served k r) ∧
    (s.answering = [] → (∀ line ∈ s.stream, isEvent line.text = true) →
      ∀ r ∈ s.runs, r.reply ≠ none → r.closed = 1)

/-- No line before the last looks like an event or like the end of a reply. -/
def Plain (multi : Bool) (reply : List String) : Prop :=
  ∀ line ∈ reply.dropLast, isEvent line = false ∧ finished multi line = false

instance (multi : Bool) (reply : List String) : Decidable (Plain multi reply) := by
  unfold Plain; infer_instance

/-- The server's replies are plain. -/
def PlainReplies (s : Mux) : Act → Prop
  | .answer reply => ∀ k ∈ s.unanswered.head?, ∀ r ∈ s.runs[k]?, Plain r.multi reply
  | _ => True

instance (s : Mux) : (a : Act) → Decidable (s.PlainReplies a)
  | .answer reply => inferInstanceAs
      (Decidable (∀ k ∈ s.unanswered.head?, ∀ r ∈ s.runs[k]?, Plain r.multi reply))
  | .run _ | .emit | .event _ | .read | .finish _ | .timeout _ => inferInstanceAs (Decidable True)

/-! ## Lines -/

/-- No line ends a reply and is an event. -/
theorem not_isEvent_of_finished {multi : Bool} {line : String} (h : finished multi line = true) :
    isEvent line = false := by
  unfold finished at h
  unfold isEvent hasPrefix at *
  rw [Bool.or_eq_true, Bool.or_eq_true, Bool.and_eq_true] at h
  cases hl : line.toList with
  | nil => rfl
  | cons c cs =>
      rw [hl] at h
      by_cases hc : c = '>'
      · -- the three ends start with another character
        subst hc
        rcases h with (h | h) | ⟨-, h⟩
        · simp at h
        · simp at h
        · rw [eq_of_beq h] at hl
          simp at hl
      · have hc' : ¬ '>' = c := fun heq => hc heq.symm
        simp [List.isPrefixOf, hc']

/-- A plain reply of the protocol has its end at the end, and nowhere else. -/
structure Ends (multi : Bool) (reply : List String) : Prop where
  plain : Plain multi reply
  last : ∃ line, reply.getLast? = some line ∧ finished multi line = true

theorem ends_of_isReply {multi : Bool} {reply : List String} (h : IsReply multi reply)
    (hplain : Plain multi reply) : Ends multi reply := by
  refine ⟨hplain, ?_⟩
  unfold IsReply at h
  have hone : reply.length = 1 → ∃ line, reply = [line] := List.length_eq_one_iff.1
  split at h
  · rename_i hmulti
    rcases h with hend | ⟨hlen, herr⟩
    · exact ⟨"END", hend, by rw [hmulti]; decide⟩
    · obtain ⟨line, rfl⟩ := hone hlen
      exact ⟨line, rfl, by simp [finished, herr line List.mem_cons_self]⟩
  · obtain ⟨line, rfl⟩ := hone h.1
    refine ⟨line, rfl, ?_⟩
    rcases h.2 line List.mem_cons_self with hs | he
    · simp [finished, hs]
    · simp [finished, he]

/-- The lines a call is still to get. -/
def owed (k : Nat) (r : Run) : List Line :=
  ((r.reply.getD []).drop r.lines.length).map fun text => ⟨text, some k⟩

/-- The next line of a call that is answered and not completed: it is no event, and it
ends the reply exactly if it is the last. -/
theorem Served.next {k : Nat} {r : Run} {reply : List String} (hs : Served k r)
    (hreply : r.reply = some reply) (hclosed : r.closed = 0) (he : Ends r.multi reply) :
    ∃ x rest, reply = r.lines.map Line.text ++ x :: rest ∧
      owed k r = ⟨x, some k⟩ :: rest.map (fun text => ⟨text, some k⟩) ∧
      isEvent x = false ∧ (finished r.multi x = true ↔ rest = []) := by
  have horder := hs.order
  rw [hreply] at horder
  obtain ⟨rest, hrest⟩ := horder
  rw [Option.getD_some] at hrest
  have hne : rest ≠ [] := by
    -- a call that has all its lines is completed
    rintro rfl
    have honce := hs.once
    rw [hreply, ← hrest, List.append_nil, if_pos rfl] at honce
    omega
  obtain ⟨x, rest', rfl⟩ := List.exists_cons_of_ne_nil hne
  have howed : owed k r = ⟨x, some k⟩ :: rest'.map (fun text => ⟨text, some k⟩) := by
    rw [owed, hreply, Option.getD_some, ← hrest, List.drop_append_of_le_length (by simp)]
    simp
  have hlast : rest' = [] → finished r.multi x = true := by
    rintro rfl
    obtain ⟨line, hline, hfin⟩ := he.last
    rw [← hrest, List.getLast?_append_cons, List.getLast?_singleton] at hline
    cases hline
    exact hfin
  have hinner : rest' ≠ [] → isEvent x = false ∧ finished r.multi x = false := fun hr => by
    refine he.plain x ?_
    rw [← hrest, List.dropLast_append_of_ne_nil (by simp), List.dropLast_cons_of_ne_nil hr]
    exact List.mem_append_right _ List.mem_cons_self
  refine ⟨x, rest', hrest.symm, howed, ?_, ?_⟩
  · by_cases hr : rest' = []
    · exact not_isEvent_of_finished (hlast hr)
    · exact (hinner hr).1
  · refine ⟨fun hfin => ?_, hlast⟩
    by_contra hr
    rw [(hinner hr).2] at hfin
    cases hfin

/-! ## The queue and the stream -/

/-- What the server owes the call with that index. -/
def dues (s : Mux) (k : Nat) : List Line := (s.runs[k]?.map (owed k)).getD []

theorem dues_of_run {s : Mux} {k : Nat} {r : Run} (h : s.runs[k]? = some r) : s.dues k = owed k r := by
  rw [dues, h]
  rfl

/-- The calls the server has begun to answer are at the head of the queue, and what it has
written or is about to write, but for the events, is what it owes them, in that order. -/
structure Inv (s : Mux) (begun : List Nat) : Prop where
  served : ∀ {k : Nat} {r : Run}, s.runs[k]? = some r → Served k r
  ends : ∀ {k : Nat} {r : Run} {reply}, s.runs[k]? = some r → r.reply = some reply →
    Ends r.multi reply
  queue : s.pending = begun ++ s.unanswered
  nodup : s.pending.Nodup
  begun_open : ∀ {k}, k ∈ begun → ∃ r reply, s.runs[k]? = some r ∧ r.reply = some reply ∧ r.closed = 0
  unanswered_open : ∀ {k}, k ∈ s.unanswered → ∃ r, s.runs[k]? = some r ∧ r.reply = none
  done : ∀ {k : Nat} {r : Run}, s.runs[k]? = some r → k ∉ s.pending →
    r.reply ≠ none ∧ r.closed = 1
  flow : s.stream.filter (fun line => !isEvent line.text) ++ s.answering =
    begun.flatMap s.dues

theorem inv_start : start.Inv [] where
  served h := by cases h
  ends h := by cases h
  queue := rfl
  nodup := List.nodup_nil
  begun_open h := by cases h
  unanswered_open h := by cases h
  done h := by cases h
  flow := rfl

variable {s s' : Mux} {a : Act} {begun : List Nat}

theorem Inv.delivered (hi : s.Inv begun) : s.Delivered := by
  refine ⟨fun k r hr => hi.served hr, fun hans hevents r hr hreply => ?_⟩
  obtain ⟨k, hk⟩ := List.getElem?_of_mem hr
  by_cases hpending : k ∈ s.pending
  · -- a call that is begun would still be owed a line
    rw [hi.queue] at hpending
    rcases List.mem_append.1 hpending with hbegun | hun
    · obtain ⟨r', reply, hr', hreply', hclosed⟩ := hi.begun_open hbegun
      obtain ⟨x, rest, -, howed, -, -⟩ := (hi.served hr').next hreply' hclosed (hi.ends hr' hreply')
      have hnone : s.stream.filter (fun line => !isEvent line.text) = [] := by
        refine List.filter_eq_nil_iff.2 fun line hline => ?_
        rw [hevents line hline]
        decide
      have hflow := hi.flow
      rw [hans, hnone, List.append_nil, eq_comm, List.flatMap_eq_nil_iff] at hflow
      have hzero := hflow k hbegun
      rw [dues_of_run hr', howed] at hzero
      cases hzero
    · obtain ⟨r', hr', hnone⟩ := hi.unanswered_open hun
      cases hk.symm.trans hr'
      exact absurd hnone hreply
  · exact (hi.done hk hpending).2

theorem Ends.not_isEvent {multi : Bool} {reply : List String} (h : Ends multi reply) :
    ∀ line ∈ reply, isEvent line = false := by
  intro line hline
  obtain ⟨last, hlast, hfin⟩ := h.last
  rw [← List.dropLast_append_getLast? last hlast] at hline
  rcases List.mem_append.1 hline with hin | hend
  · exact (h.plain line hin).1
  · cases List.mem_singleton.1 hend
    exact not_isEvent_of_finished hfin

/-- What is owed is no event. -/
theorem Inv.not_isEvent (hi : s.Inv begun) {line : Line} (h : line ∈ begun.flatMap s.dues) :
    isEvent line.text = false := by
  obtain ⟨k, hk, hline⟩ := List.mem_flatMap.1 h
  obtain ⟨r, reply, hr, hreply, -⟩ := hi.begun_open hk
  rw [dues_of_run hr, owed, hreply] at hline
  obtain ⟨text, htext, rfl⟩ := List.mem_map.1 hline
  exact (hi.ends hr hreply).not_isEvent text (List.mem_of_mem_drop htext)

/-- What is owed to calls that do not change stays the same. -/
theorem flatMap_dues_congr {l : List Nat} (h : ∀ k ∈ l, s'.runs[k]? = s.runs[k]?) :
    l.flatMap s'.dues = l.flatMap s.dues := by
  refine List.flatMap_congr fun k hk => ?_
  rw [dues, dues, h k hk]

theorem Inv.event (hi : s.Inv begun) {text : String} (h : s.event text = some s') :
    s'.Inv begun := by
  unfold Mux.event at h
  split at h
  · rename_i hevent
    cases h
    refine { hi with flow := ?_ }
    show _ = begun.flatMap s.dues
    rw [List.filter_append, List.filter_cons, hevent]
    simpa using hi.flow
  · cases h

theorem Inv.emit (hi : s.Inv begun) (h : s.emit = some s') : s'.Inv begun := by
  unfold Mux.emit at h
  split at h
  · cases h
  · rename_i line answering hans
    cases h
    have hline : isEvent line.text = false := by
      refine hi.not_isEvent ?_
      rw [← hi.flow, hans]
      exact List.mem_append_right _ List.mem_cons_self
    refine { hi with flow := ?_ }
    show _ = begun.flatMap s.dues
    rw [List.filter_append, List.filter_cons, hline, List.append_assoc]
    have hflow := hi.flow
    rw [hans] at hflow
    simpa using hflow

theorem Inv.run (hi : s.Inv begun) (multi : Bool) : (s.run multi).Inv begun := by
  have hlt : ∀ {k}, k ∈ s.pending → k < s.runs.length := fun {k} hk => by
    rw [hi.queue] at hk
    rcases List.mem_append.1 hk with hb | hu
    · obtain ⟨r, -, hr, -⟩ := hi.begun_open hb
      exact (List.getElem?_eq_some_iff.1 hr).1
    · obtain ⟨r, hr, -⟩ := hi.unanswered_open hu
      exact (List.getElem?_eq_some_iff.1 hr).1
  have hold : ∀ {k : Nat} {r : Run}, s.runs[k]? = some r → (s.run multi).runs[k]? = some r :=
    fun {k r} hr => by
      rw [Mux.run, List.getElem?_append_left (List.getElem?_eq_some_iff.1 hr).1]
      exact hr
  have hself : (s.run multi).runs[s.runs.length]? = some { multi } := by
    rw [Mux.run, List.getElem?_concat_length]
  refine ⟨fun hr => ?_, fun hr hreply => ?_, ?_, ?_, fun hk => ?_, fun hk => ?_, fun hr hk => ?_, ?_⟩
  · rcases Lists.getElem?_concat_cases hr with h | ⟨rfl, rfl⟩
    · exact hi.served h
    · exact ⟨nofun, List.nil_prefix, rfl, nofun⟩
  · rcases Lists.getElem?_concat_cases hr with h | ⟨rfl, rfl⟩
    · exact hi.ends h hreply
    · cases hreply
  · rw [Mux.run, hi.queue, List.append_assoc]
  · refine List.nodup_append.2 ⟨hi.nodup, List.nodup_singleton _, fun k hk j hj => ?_⟩
    cases List.mem_singleton.1 hj
    exact (hlt hk).ne
  · obtain ⟨r, reply, hr, hrest⟩ := hi.begun_open hk
    exact ⟨r, reply, hold hr, hrest⟩
  · rcases List.mem_append.1 hk with h | hnew
    · obtain ⟨r, hr, hreply⟩ := hi.unanswered_open h
      exact ⟨r, hold hr, hreply⟩
    · cases List.mem_singleton.1 hnew
      exact ⟨_, hself, rfl⟩
  · rcases Lists.getElem?_concat_cases hr with h | ⟨rfl, -⟩
    · exact hi.done h fun hin => hk (List.mem_append_left _ hin)
    · exact absurd (List.mem_append_right _ (List.mem_singleton_self _)) hk
  · refine hi.flow.trans (flatMap_dues_congr fun k hk => ?_).symm
    obtain ⟨r, -, hr, -⟩ := hi.begun_open hk
    rw [hold hr, hr]

theorem Inv.served_set (hi : s.Inv begun) {k j : Nat} {r q : Run} (hs : Served k r)
    (hq : (s.runs.set k r)[j]? = some q) : Served j q := by
  rcases Lists.getElem?_set_cases hq with ⟨rfl, rfl⟩ | ⟨-, hold⟩
  · exact hs
  · exact hi.served hold

theorem Inv.ends_set (hi : s.Inv begun) {k j : Nat} {r r' q : Run} {reply : List String}
    (hr : s.runs[k]? = some r) (hq : (s.runs.set k r')[j]? = some q)
    (hreply : q.reply = some reply) (hmulti : r'.multi = r.multi) (hsame : r'.reply = r.reply) :
    Ends q.multi reply := by
  rcases Lists.getElem?_set_cases hq with ⟨rfl, rfl⟩ | ⟨-, hold⟩
  · rw [hmulti]
    exact hi.ends hr (hsame ▸ hreply)
  · exact hi.ends hold hreply

/-- A call returns; its command stays as it is. -/
theorem Inv.setOutcome (hi : s.Inv begun) {k : Nat} {r : Run} {o : Return}
    (hr : s.runs[k]? = some r) (ho : o = .timedOut ∨ r.closed = 1 ∧ o = outcomeOf r.lines) :
    Inv { s with runs := s.runs.set k { r with outcome := some o } } begun := by
  have hself : (s.runs.set k { r with outcome := some o })[k]? = some { r with outcome := some o } :=
    List.getElem?_set_self (List.getElem?_eq_some_iff.1 hr).1
  have hserved := hi.served hr
  refine { hi with
    served := fun hq => hi.served_set ?_ hq
    ends := fun hq hreply => hi.ends_set hr hq hreply rfl rfl
    begun_open := fun {j} hj => ?_, unanswered_open := fun {j} hj => ?_,
    done := fun {j q} hq hj => ?_, flow := hi.flow.trans ?_ }
  · refine ⟨hserved.own, hserved.order, hserved.once, fun o' ho' => ?_⟩
    cases ho'
    exact ho
  · obtain ⟨q, reply, hq, hrest⟩ := hi.begun_open hj
    by_cases hk : k = j
    · subst hk
      cases hr.symm.trans hq
      exact ⟨_, reply, hself, hrest⟩
    · exact ⟨q, reply, by rw [List.getElem?_set_ne hk]; exact hq, hrest⟩
  · obtain ⟨q, hq, hrest⟩ := hi.unanswered_open hj
    by_cases hk : k = j
    · subst hk
      cases hr.symm.trans hq
      exact ⟨_, hself, hrest⟩
    · exact ⟨q, by rw [List.getElem?_set_ne hk]; exact hq, hrest⟩
  · rcases Lists.getElem?_set_cases hq with ⟨rfl, rfl⟩ | ⟨-, hold⟩
    · exact hi.done (r := r) hr hj
    · exact hi.done hold hj
  · refine List.flatMap_congr fun j _ => ?_
    by_cases hk : k = j
    · subst hk
      rw [dues_of_run hr, dues_of_run hself]
      rfl
    · rw [dues, dues, List.getElem?_set_ne hk]

theorem Inv.finish (hi : s.Inv begun) {k : Nat} (h : s.finish k = some s') : s'.Inv begun := by
  unfold Mux.finish at h
  split at h
  · cases h
  · rename_i r hr
    split at h
    · rename_i hok
      cases h
      refine hi.setOutcome hr (.inr ⟨?_, rfl⟩)
      have honce := (hi.served hr).once
      split at honce
      · exact honce
      · exact absurd honce hok.1
    · cases h

theorem Inv.timeout (hi : s.Inv begun) {k : Nat} (h : s.timeout k = some s') : s'.Inv begun := by
  unfold Mux.timeout at h
  split at h
  · cases h
  · rename_i r hr
    split at h
    · cases h
      exact hi.setOutcome hr (.inl rfl)
    · cases h

/-- A call that is not answered yet has nothing. -/
theorem Served.unanswered {k : Nat} {r : Run} (h : Served k r) (hnone : r.reply = none) :
    r.lines = [] ∧ r.closed = 0 := by
  have horder := h.order
  rw [hnone, Option.getD_none] at horder
  have honce := h.once
  rw [hnone, if_neg nofun] at honce
  exact ⟨List.map_eq_nil_iff.1 (List.prefix_nil.1 horder), honce⟩

/-- It is served as the answer begins. -/
theorem Served.answered {k : Nat} {r : Run} (h : Served k r) (hnone : r.reply = none)
    {reply : List String} (hends : Ends r.multi reply) : Served k { r with reply := some reply } := by
  obtain ⟨hlines, hclosed⟩ := h.unanswered hnone
  have hne : reply ≠ [] := by
    rintro rfl
    obtain ⟨line, hline, -⟩ := hends.last
    cases hline
  refine ⟨h.own, by rw [hlines]; exact List.nil_prefix, ?_, h.outcome⟩
  rw [hlines, if_neg (by simpa using hne)]
  exact hclosed

/-- The server begins to answer: what it is about to write is what it owes from now on. -/
theorem Inv.answer (hi : s.Inv begun) {reply : List String} (hplain : s.PlainReplies (.answer reply))
    (h : s.answer reply = some s') : ∃ begun', s'.Inv begun' := by
  unfold Mux.answer at h
  split at h
  · rename_i k unanswered hans hun
    split at h
    · cases h
    · rename_i r hr
      split at h
      · rename_i hreply
        cases h
        obtain ⟨r₀, hr₀, hnone⟩ := hi.unanswered_open (by rw [hun]; exact List.mem_cons_self)
        cases hr.symm.trans hr₀
        have hends : Ends r.multi reply :=
          ends_of_isReply hreply (hplain k (by rw [hun]; rfl) r hr)
        obtain ⟨hlines, hclosed⟩ := (hi.served hr).unanswered hnone
        have hself : (s.runs.set k { r with reply := some reply })[k]? =
            some { r with reply := some reply } :=
          List.getElem?_set_self (List.getElem?_eq_some_iff.1 hr).1
        have hqueue := hi.queue
        have hnodup := hi.nodup
        rw [hun] at hqueue
        rw [hqueue] at hnodup
        have hfresh : ∀ {j}, j ∈ begun → k ≠ j := fun {j} hj heq => by
          exact List.disjoint_of_nodup_append hnodup hj (heq ▸ List.mem_cons_self)
        have hrest : k ∉ unanswered :=
          (List.nodup_cons.1 (List.nodup_append.1 hnodup).2.1).1
        refine ⟨begun ++ [k], fun hq => hi.served_set ((hi.served hr).answered hnone hends) hq,
          fun {j q reply'} hq hreply' => ?_, ?_, hi.nodup, fun {j} hj => ?_, fun {j} hj => ?_,
          fun {j q} hq hj => ?_, ?_⟩
        · rcases Lists.getElem?_set_cases hq with ⟨rfl, rfl⟩ | ⟨-, hold⟩
          · cases hreply'
            exact hends
          · exact hi.ends hold hreply'
        · rw [List.append_assoc]
          exact hqueue
        · rcases List.mem_append.1 hj with hb | hnew
          · obtain ⟨q, reply', hq, hq'⟩ := hi.begun_open hb
            exact ⟨q, reply', by rw [List.getElem?_set_ne (hfresh hb)]; exact hq, hq'⟩
          · cases List.mem_singleton.1 hnew
            exact ⟨_, reply, hself, rfl, hclosed⟩
        · obtain ⟨q, hq, hq'⟩ := hi.unanswered_open (by rw [hun]; exact List.mem_cons_of_mem _ hj)
          have hk : k ≠ j := fun heq => hrest (heq ▸ hj)
          exact ⟨q, by rw [List.getElem?_set_ne hk]; exact hq, hq'⟩
        · rcases Lists.getElem?_set_cases hq with ⟨rfl, -⟩ | ⟨-, hold⟩
          · exact absurd (by rw [hqueue]; exact List.mem_append_right _ List.mem_cons_self) hj
          · exact hi.done hold hj
        · have hflow := hi.flow
          rw [hans, List.append_nil] at hflow
          rw [List.flatMap_append, List.flatMap_singleton, dues_of_run hself, owed, hlines, hflow]
          refine congrArg (· ++ _) (flatMap_dues_congr fun j hj => ?_).symm
          exact List.getElem?_set_ne (hfresh hj)
      · cases h
  · cases h

/-- A call gets its next line: it is served as before, and completed if that is the last. -/
theorem Served.push {k : Nat} {r : Run} {x : String} {rest : List String} (hs : Served k r)
    (hreply : r.reply = some (r.lines.map Line.text ++ x :: rest)) (hclosed : r.closed = 0)
    {closed : Nat} (hlast : closed = if rest = [] then 1 else 0) :
    Served k { r with lines := r.lines ++ [⟨x, some k⟩], closed } := by
  refine ⟨fun line hline => ?_, ?_, ?_, fun o ho => ?_⟩
  · rcases List.mem_append.1 hline with hold | hnew
    · exact hs.own line hold
    · cases List.mem_singleton.1 hnew
      rfl
  · rw [hreply, List.map_append, Option.getD_some]
    exact ⟨rest, by simp⟩
  · rw [hreply, hlast]
    simp
  · -- a call that is not completed can only have given up
    rcases hs.outcome o ho with hout | ⟨hone, -⟩
    · exact .inl hout
    · omega

/-- What a call is owed after its next line. -/
theorem owed_push {k : Nat} {r : Run} {x : String} {rest : List String} {closed : Nat}
    (hreply : r.reply = some (r.lines.map Line.text ++ x :: rest)) :
    owed k { r with lines := r.lines ++ [⟨x, some k⟩], closed } =
      rest.map fun text => ⟨text, some k⟩ := by
  rw [owed, hreply, Option.getD_some, List.length_append, List.length_singleton,
    ← List.length_map (f := Line.text), ← List.drop_drop, List.drop_left]
  rfl

/-- The reader takes an event, which changes no call. -/
theorem Inv.read_event (hi : s.Inv begun) {line : Line} {stream : List Line}
    (hstream : s.stream = line :: stream) (hevent : isEvent line.text = true) :
    Inv { s with stream } begun := by
  refine { hi with flow := ?_ }
  show _ = begun.flatMap s.dues
  have hflow := hi.flow
  rw [hstream, List.filter_cons, hevent] at hflow
  simpa using hflow

/-- The reader takes a line that is no event: it is the next line of the call at the head
of the queue. -/
theorem Inv.head (hi : s.Inv begun) {line : Line} {stream : List Line}
    (hstream : s.stream = line :: stream) (hevent : isEvent line.text = false) :
    ∃ k begun' r x rest, begun = k :: begun' ∧ s.runs[k]? = some r ∧ line = ⟨x, some k⟩ ∧
      r.reply = some (r.lines.map Line.text ++ x :: rest) ∧ r.closed = 0 ∧
      (finished r.multi x = true ↔ rest = []) ∧
      stream.filter (fun line => !isEvent line.text) ++ s.answering =
        rest.map (fun text => ⟨text, some k⟩) ++ begun'.flatMap s.dues := by
  have hflow := hi.flow
  rw [hstream, List.filter_cons, hevent, Bool.not_false, if_pos rfl, List.cons_append] at hflow
  cases begun with
  | nil => cases hflow
  | cons k begun' =>
      obtain ⟨r, reply, hr, hreply, hclosed⟩ := hi.begun_open List.mem_cons_self
      obtain ⟨x, rest, hsplit, howed, -, hfin⟩ :=
        (hi.served hr).next hreply hclosed (hi.ends hr hreply)
      rw [List.flatMap_cons, dues_of_run hr, howed, List.cons_append] at hflow
      obtain ⟨hline, htail⟩ := List.cons.inj hflow
      exact ⟨k, begun', r, x, rest, rfl, hr, hline, hsplit ▸ hreply, hclosed, hfin, htail⟩

/-- A line that is not the last goes to the call at the head of the queue. -/
theorem Inv.pushed {k : Nat} {begun' : List Nat} {r : Run} {x : String} {rest : List String}
    {stream : List Line} (hi : s.Inv (k :: begun')) (hr : s.runs[k]? = some r)
    (hreply : r.reply = some (r.lines.map Line.text ++ x :: rest)) (hclosed : r.closed = 0)
    (hrest : rest ≠ []) (hflow : stream.filter (fun line => !isEvent line.text) ++ s.answering =
      rest.map (fun text => ⟨text, some k⟩) ++ begun'.flatMap s.dues) :
    Inv { s with stream, runs := s.runs.set k { r with lines := r.lines ++ [⟨x, some k⟩] } }
      (k :: begun') := by
  have hself := List.getElem?_set_self (a := { r with lines := r.lines ++ [⟨x, some k⟩] })
    (List.getElem?_eq_some_iff.1 hr).1
  have hnodup := hi.nodup
  rw [hi.queue] at hnodup
  have hne : ∀ {j}, j ∈ begun' ++ s.unanswered → k ≠ j :=
    fun hj heq => (List.nodup_cons.1 hnodup).1 (heq ▸ hj)
  have hserved : Served k { r with lines := r.lines ++ [⟨x, some k⟩] } :=
    (hi.served hr).push hreply hclosed (hclosed.trans (if_neg hrest).symm)
  refine { hi with
    served := fun hq => hi.served_set hserved hq
    ends := fun hq hreply => hi.ends_set hr hq hreply rfl rfl
    begun_open := fun {j} hj => ?_, unanswered_open := fun {j} hj => ?_,
    done := fun {j q} hq hj => ?_, flow := ?_ }
  · rcases List.mem_cons.1 hj with rfl | hj'
    · exact ⟨_, _, hself, hreply, hclosed⟩
    · obtain ⟨q, reply, hq, hq'⟩ := hi.begun_open hj
      refine ⟨q, reply, ?_, hq'⟩
      rw [List.getElem?_set_ne (hne (List.mem_append_left _ hj'))]
      exact hq
  · obtain ⟨q, hq, hq'⟩ := hi.unanswered_open hj
    refine ⟨q, ?_, hq'⟩
    rw [List.getElem?_set_ne (hne (List.mem_append_right _ hj))]
    exact hq
  · rcases Lists.getElem?_set_cases hq with ⟨rfl, rfl⟩ | ⟨-, hold⟩
    · exact absurd (by rw [hi.queue]; exact List.mem_cons_self) hj
    · exact hi.done hold hj
  · rw [List.flatMap_cons, dues_of_run hself, owed_push hreply]
    refine hflow.trans (congrArg (_ ++ ·) (flatMap_dues_congr fun j hj => ?_).symm)
    exact List.getElem?_set_ne (hne (List.mem_append_left _ hj))

/-- The last line of a reply completes the call, which leaves the queue. -/
theorem Inv.popped {k : Nat} {begun' : List Nat} {r : Run} {x : String}
    {stream : List Line} (hi : s.Inv (k :: begun')) (hr : s.runs[k]? = some r)
    (hreply : r.reply = some (r.lines.map Line.text ++ [x])) (hclosed : r.closed = 0)
    (hflow : stream.filter (fun line => !isEvent line.text) ++ s.answering =
      begun'.flatMap s.dues) :
    Inv { s with
      stream, pending := begun' ++ s.unanswered
      runs := s.runs.set k
        { r with lines := r.lines ++ [⟨x, some k⟩], closed := r.closed + 1 } } begun' := by
  have hnodup := hi.nodup
  rw [hi.queue] at hnodup
  obtain ⟨hfresh, hnodup'⟩ := List.nodup_cons.1 hnodup
  have hne : ∀ {j}, j ∈ begun' ++ s.unanswered → k ≠ j := fun hj heq => hfresh (heq ▸ hj)
  have hserved :
      Served k { r with lines := r.lines ++ [⟨x, some k⟩], closed := r.closed + 1 } :=
    (hi.served hr).push hreply hclosed (by rw [hclosed, if_pos rfl])
  refine ⟨fun hq => hi.served_set hserved hq, fun hq hreply => hi.ends_set hr hq hreply rfl rfl,
    rfl, hnodup', fun {j} hj => ?_, fun {j} hj => ?_, fun {j q} hq hj => ?_, ?_⟩
  · obtain ⟨q, reply, hq, hq'⟩ := hi.begun_open (List.mem_cons_of_mem _ hj)
    refine ⟨q, reply, ?_, hq'⟩
    rw [List.getElem?_set_ne (hne (List.mem_append_left _ hj))]
    exact hq
  · obtain ⟨q, hq, hq'⟩ := hi.unanswered_open hj
    refine ⟨q, ?_, hq'⟩
    rw [List.getElem?_set_ne (hne (List.mem_append_right _ hj))]
    exact hq
  · rcases Lists.getElem?_set_cases hq with ⟨rfl, rfl⟩ | ⟨hjk, hold⟩
    · exact ⟨by rw [hreply]; nofun, by rw [hclosed]⟩
    · refine hi.done hold fun hin => hj ?_
      rw [hi.queue] at hin
      exact (List.mem_cons.1 hin).resolve_left hjk
  · refine hflow.trans (flatMap_dues_congr fun j hj => ?_).symm
    exact List.getElem?_set_ne (hne (List.mem_append_left _ hj))

theorem Inv.read (hi : s.Inv begun) (h : s.read = some s') : ∃ begun', s'.Inv begun' := by
  unfold Mux.read at h
  split at h
  · cases h
  · rename_i line stream hstream
    split at h
    · rename_i hevent
      cases h
      exact ⟨begun, hi.read_event hstream hevent⟩
    · rename_i hevent
      obtain ⟨k, begun', r, x, rest, rfl, hr, rfl, hreply, hclosed, hfin, hflow⟩ :=
        hi.head hstream (Bool.eq_false_iff.2 hevent)
      have hqueue : s.pending = k :: (begun' ++ s.unanswered) := hi.queue
      split at h
      · rename_i hnil
        rw [hnil] at hqueue
        cases hqueue
      · rename_i j pending hcons
        obtain ⟨rfl, rfl⟩ := List.cons.inj (hcons.symm.trans hqueue)
        rw [hr] at h
        split at h
        · cases h
        · rename_i q hq
          cases hq
          split at h
          · rename_i hlast
            cases hfin.1 hlast
            cases h
            exact ⟨begun', hi.popped hr hreply hclosed hflow⟩
          · rename_i hlast
            cases h
            exact ⟨_, hi.pushed hr hreply hclosed (fun heq => hlast (hfin.2 heq)) hflow⟩

/-! ## Every run -/

theorem Inv.step (hi : s.Inv begun) (hplain : s.PlainReplies a) (h : s.step a = some s') :
    ∃ begun', s'.Inv begun' := by
  cases a with
  | run multi =>
      cases h
      exact ⟨begun, hi.run multi⟩
  | answer reply => exact hi.answer hplain h
  | emit => exact ⟨begun, hi.emit h⟩
  | event text => exact ⟨begun, hi.event h⟩
  | read => exact hi.read h
  | finish k => exact ⟨begun, hi.finish h⟩
  | timeout k => exact ⟨begun, hi.timeout h⟩

/-- **Each call gets its own reply**, in every interleaving of calls, replies and events,
whether or not it waits for it. -/
theorem replies_delivered (h : Steps.Reach step PlainReplies start s) : s.Delivered := by
  obtain ⟨begun, hi⟩ := h.invariant (I := fun s => ∃ begun, s.Inv begun) ⟨[], inv_start⟩
    fun ⟨_, hi⟩ hplain hstep => hi.step hplain hstep
  exact hi.delivered

/-- A call that gives up while its table is written, and one that waits. -/
def lateRun : List Act :=
  [.run true, .run false, .answer ["a", "END"], .emit, .event ">x", .emit, .timeout 0,
    .answer ["SUCCESS: y"], .emit, .read, .read, .read, .read, .finish 1]

theorem replies_lateRun : ∃ s : Mux, s.runs.map Run.outcome =
    [some .timedOut, some (.ok [⟨"SUCCESS: y", some 1⟩])] ∧ s.Delivered := by
  obtain ⟨s, hreach, hp⟩ := Steps.exists_reach step PlainReplies start lateRun
    (fun s => decide (s.runs.map Run.outcome =
      [some .timedOut, some (.ok [⟨"SUCCESS: y", some 1⟩])])) (by decide)
  exact ⟨s, of_decide_eq_true hp, replies_delivered hreach⟩

/-- The first reply is a table with a line that starts with `SUCCESS:`. -/
def shiftedRun : List Act :=
  [.run true, .run false, .answer ["SUCCESS: x", "END"], .emit, .emit, .answer ["SUCCESS: y"],
    .emit, .read, .read, .read]

/-- **A line inside a table ends the command**: the rest of the table is the reply to the
next call. -/
theorem body_line_shifts_replies :
    ∃ s, Steps.Reach step (fun _ _ => True) start s ∧ ¬ s.Delivered ∧
      ∃ r, s.runs[1]? = some r ∧ r.lines = [⟨"END", some 0⟩, ⟨"SUCCESS: y", some 1⟩] := by
  obtain ⟨s, hreach, hp⟩ := Steps.exists_reach step (fun _ _ => True) start shiftedRun
    (fun s => decide ((s.runs[1]?.map Run.lines) =
      some [⟨"END", some 0⟩, ⟨"SUCCESS: y", some 1⟩])) (by decide)
  obtain ⟨r, hr, hlines⟩ := Option.map_eq_some_iff.1 (of_decide_eq_true hp)
  refine ⟨s, hreach, fun hdel => ?_, r, hr, hlines⟩
  have hown := (hdel.1 1 r hr).own ⟨"END", some 0⟩ (by rw [hlines]; exact List.mem_cons_self)
  cases hown

end Mux

end Dvpnd
