import Dvpnd.Services.Metering

/-!
# Totals that do not fall

A peer's traffic passes from its connection to the message about its end and from there
to the bank (`Services/Metering`).  A table that is drawn up in order, while none is on its
way out of it, finds all of that in one of the three places.

* `Queued` — the connections that ended are those whose end is on its way.
* `Floor` — what one call has reported stays secured, through everything that happens to
  the connections, until a later call adds up.
* `totals_bounded_and_monotone` — **every total is at most what the server has carried, and
  totals never fall**, in every run that is not disturbed.
* `disconnect_counted_twice` — as it is, a connection that ends between the table and the
  lock is counted in both.
-/

namespace Dvpnd

namespace Meter

variable {s s' : Meter} {a : Act} {p : Phase → Bool} {cn : String} {d : Direction}

/-! ## Ends on their way -/

/-- What a message adds to the bank for a name. -/
def Message.bytes (cn : String) (d : Direction) : Message → Nat
  | .disconnect _ name received sent =>
      if name = cn then Tunnel.bytes ⟨name, received, sent, .ended⟩ d else 0
  | .table _ _ => 0

/-- What some messages do. -/
def ahead (ms : List Message) (cn : String) (d : Direction) : Nat :=
  (ms.map (Message.bytes cn d)).sum

/-- The connections that have ended are those whose end is on its way, and a table is on
its way to a call that was made. -/
structure Queued (s : Meter) : Prop where
  ended : ∀ cn d, s.sum (· = .ended) cn d = ahead s.stream cn d
  called : ∀ {call rows}, .table call rows ∈ s.stream → call < s.calls.length

theorem queued_start : start.Queued := ⟨fun _ _ => rfl, nofun⟩

theorem ahead_concat (ms : List Message) (m : Message) (cn : String) (d : Direction) :
    ahead (ms ++ [m]) cn d = ahead ms cn d + Message.bytes cn d m := by
  simp [ahead]

theorem ahead_cons (m : Message) (ms : List Message) (cn : String) (d : Direction) :
    ahead (m :: ms) cn d = Message.bytes cn d m + ahead ms cn d := by
  simp [ahead]

theorem Queued.change (hq : s.Queued) {cid : Nat} {t t' : Tunnel} (ht : s.tunnels[cid]? = some t)
    (hc : Changes t t') (hended : t'.phase ≠ .ended) (hset : s'.tunnels = s.tunnels.set cid t')
    (hstream : s'.stream = s.stream) (hcalls : s'.calls = s.calls) : s'.Queued where
  ended cn d := by
    have hsum := sum_set ht hset (· = .ended) cn d
    have hold : weight (· = .ended) cn d t = 0 := by simp [weight, hc.before.1]
    have hnew : weight (· = .ended) cn d t' = 0 := by simp [weight, hended]
    have hcn := hq.ended cn d
    rw [hstream]
    omega
  called hmem := by
    rw [hcalls]
    exact hq.called (hstream ▸ hmem)

theorem Queued.disconnect (hq : s.Queued) {cid : Nat} {t : Tunnel} (ht : s.tunnels[cid]? = some t)
    (hphase : t.phase ≠ .ended) (hset : s'.tunnels = s.tunnels.set cid { t with phase := .ended })
    (hstream : s'.stream = s.stream ++ [.disconnect cid t.commonName t.received t.sent])
    (hcalls : s'.calls = s.calls) : s'.Queued where
  ended cn d := by
    have hsum := sum_set ht hset (· = .ended) cn d
    have hold : weight (· = .ended) cn d t = 0 := by simp [weight, hphase]
    have hnew : weight (· = .ended) cn d { t with phase := .ended } =
        Message.bytes cn d (.disconnect cid t.commonName t.received t.sent) := by
      simp [weight, Message.bytes]
    have hcn := hq.ended cn d
    rw [hstream, ahead_concat]
    omega
  called hmem := by
    rw [hcalls]
    rw [hstream] at hmem
    rcases List.mem_append.1 hmem with hold | hnew
    · exact hq.called hold
    · cases List.mem_singleton.1 hnew

theorem Queued.handled (hq : s.Queued) {cid : Nat} {name : String} {received sent : Nat}
    (ht : s.tunnels[cid]? = some ⟨name, received, sent, .ended⟩)
    (hset : s'.tunnels = s.tunnels.set cid ⟨name, received, sent, .handled⟩)
    (hstream : s.stream = .disconnect cid name received sent :: s'.stream)
    (hcalls : s'.calls = s.calls) : s'.Queued where
  ended cn d := by
    have hsum := sum_set ht hset (· = .ended) cn d
    have hold : weight (· = .ended) cn d ⟨name, received, sent, .ended⟩ =
        Message.bytes cn d (.disconnect cid name received sent) := by
      simp [weight, Message.bytes]
    have hnew : weight (· = .ended) cn d ⟨name, received, sent, .handled⟩ = 0 := by simp [weight]
    have hcn := hq.ended cn d
    rw [hstream, ahead_cons] at hcn
    omega
  called hmem := by
    rw [hcalls]
    exact hq.called (by rw [hstream]; exact List.mem_cons_of_mem _ hmem)

theorem Queued.read (hq : s.Queued) (hi : s.Inv) (h : s.read = some s') : s'.Queued := by
  unfold Meter.read at h
  split at h
  · cases h
  · rename_i hstream
    cases h
    refine ⟨fun cn d => ?_, fun {call rows} hmem => ?_⟩
    · have hcn := hq.ended cn d
      rw [hstream] at hcn
      exact hcn.trans (zero_add _)
    · rw [List.length_modify]
      exact hq.called (by rw [hstream]; exact List.mem_cons_of_mem _ hmem)
  · rename_i cid name received sent stream hstream
    cases h
    have ht : s.tunnels[cid]? = some ⟨name, received, sent, .ended⟩ :=
      hi.final (by rw [hstream]; exact List.mem_cons_self)
    apply hq.handled ht
    · exact modify_handled ht
    · exact hstream
    · rfl

/-- A step of a call. -/
theorem Queued.of_calls (hq : s.Queued) (htunnels : s'.tunnels = s.tunnels)
    (hstream : s'.stream = s.stream) (hcalls : s.calls.length ≤ s'.calls.length) : s'.Queued where
  ended cn d := by
    rw [sum, htunnels, hstream]
    exact hq.ended cn d
  called hmem := (hq.called (hstream ▸ hmem)).trans_le hcalls

theorem Queued.step (hq : s.Queued) (hi : s.Inv) (h : s.step a = some s') : s'.Queued := by
  cases a with
  | connect commonName =>
      cases h
      exact ⟨fun cn d => by rw [sum_connect]; exact hq.ended cn d, hq.called⟩
  | enlist cid =>
      obtain ⟨t, t', ht, hf, rfl⟩ := change_eq_some h
      refine hq.change ht (enlist_changes hf) ?_ rfl rfl rfl
      unfold Meter.enlist at hf
      split at hf <;> cases hf
      exact nofun
  | move cid received sent =>
      obtain ⟨t, t', ht, hf, rfl⟩ := change_eq_some h
      obtain ⟨hc, hphase, -, -⟩ := move_changes hf
      exact hq.change ht hc (hphase ▸ hc.before.1) rfl rfl rfl
  | leave cid =>
      obtain ⟨t, t', ht, hf, rfl⟩ := change_eq_some h
      refine hq.change ht (leave_changes hf) ?_ rfl rfl rfl
      unfold Meter.leave at hf
      split at hf <;> cases hf <;> exact nofun
  | disconnect cid =>
      obtain ⟨t', hbind, rfl⟩ := Option.map_eq_some_iff.1 h
      obtain ⟨t, ht, hf⟩ := Option.bind_eq_some_iff.1 hbind
      obtain ⟨hc, rfl⟩ := finish_changes hf
      exact hq.disconnect ht hc.before.1 rfl rfl rfl
  | ask => cases h; exact hq.of_calls rfl rfl (by simp [Meter.ask])
  | answer call =>
      change s.answer call = some s' at h
      unfold Meter.answer at h
      split at h
      · rename_i hcall
        cases h
        refine ⟨fun cn d => (hq.ended cn d).trans (by rw [ahead_concat]; rfl), fun hmem => ?_⟩
        rw [List.length_set]
        rcases List.mem_append.1 hmem with hold | hnew
        · exact hq.called hold
        · cases List.mem_singleton.1 hnew
          exact (List.getElem?_eq_some_iff.1 hcall).1
      · cases h
  | read => exact hq.read hi h
  | lock call =>
      change s.lock call = some s' at h
      unfold Meter.lock at h
      split at h <;> cases h
      exact hq.of_calls rfl rfl (by simp)
  | fail call =>
      change s.fail call = some s' at h
      unfold Meter.fail at h
      split at h <;> cases h <;> exact hq.of_calls rfl rfl (by simp)
  | addPeer data =>
      cases h
      unfold Meter.addPeer
      split
      · exact hq
      · exact hq.of_calls rfl rfl le_rfl
  | removePeer data =>
      cases h
      unfold Meter.removePeer
      split
      · exact hq
      · exact hq.of_calls rfl rfl le_rfl

/-! ## Totals do not fall -/

/-- Every call from `first` on reports at least `f` for the peer, in each direction.  The
amounts count from the beginning, so what had been carried before is added. -/
structure Floor (data : List UInt8) (first : Nat) (f : Direction → Int) (s : Meter) : Prop where
  known : formatUUID data ∈ s.bank.cns
  secured : ∀ d, f d + s.base (formatUUID data) d ≤ s.sum (· ≠ .starting) (formatUUID data) d
  tables : ∀ {call rows} pre post, first ≤ call → s.stream = pre ++ .table call rows :: post →
    ∀ d, f d + s.base (formatUUID data) d ≤ s.sum (· = .handled) (formatUUID data) d +
      ahead pre (formatUUID data) d + shown rows (formatUUID data) d
  held : ∀ {call rows}, first ≤ call → s.calls[call]? = some (.holding rows) →
    ∀ d, f d + s.base (formatUUID data) d ≤ s.sum (· = .handled) (formatUUID data) d +
      shown rows (formatUUID data) d
  returned : ∀ {call items carried t}, first ≤ call →
    s.calls[call]? = some (.returned items carried) → items (Key.of data) = some t →
    ∀ d, f d ≤ (t.get d).toInt

section Floor

variable {data : List UInt8} {first : Nat} {f : Direction → Int}

/-- More is carried, and nothing else changes. -/
theorem Floor.of_sums (hf : Floor data first f s) (hknown : formatUUID data ∈ s'.bank.cns)
    (hbase : s'.base (formatUUID data) = s.base (formatUUID data))
    (hseen : ∀ d, s.sum (· ≠ .starting) (formatUUID data) d ≤
      s'.sum (· ≠ .starting) (formatUUID data) d)
    (hhandled : ∀ d, s'.sum (· = .handled) (formatUUID data) d =
      s.sum (· = .handled) (formatUUID data) d)
    (hstream : s'.stream = s.stream) (hcalls : s'.calls = s.calls) : Floor data first f s' where
  known := hknown
  secured d := by
    have h := hf.secured d
    have hd := hseen d
    rw [hbase]
    omega
  tables pre post hfirst heq d := by
    rw [hbase, hhandled]
    exact hf.tables pre post hfirst (hstream ▸ heq) d
  held hfirst hcall d := by
    rw [hbase, hhandled]
    exact hf.held hfirst (hcalls ▸ hcall) d
  returned hfirst hcall ht d := hf.returned hfirst (hcalls ▸ hcall) ht d

theorem Floor.change (hf : Floor data first f s) {cid : Nat} {t t' : Tunnel}
    (ht : s.tunnels[cid]? = some t) (hc : Changes t t')
    (hs : s' = { s with tunnels := s.tunnels.set cid t' }) : Floor data first f s' := by
  have hset : s'.tunnels = s.tunnels.set cid t' := by rw [hs]
  refine hf.of_sums ?_ ?_ (fun d => ?_) (hc.sum_handled ht hset _) ?_ ?_
  · rw [hs]; exact hf.known
  · rw [hs]
  · have hsum := sum_set ht hset (· ≠ .starting) (formatUUID data) d
    have hweight : weight (· ≠ .starting) (formatUUID data) d t ≤
        weight (· ≠ .starting) (formatUUID data) d t' := by
      have hbytes := hc.bytes d
      unfold weight
      rw [hc.commonName]
      by_cases hn : t.commonName = formatUUID data ∧ decide (t.phase ≠ .starting) = true
      · rw [if_pos hn, if_pos ⟨hn.1, decide_eq_true (hc.after.2 (of_decide_eq_true hn.2))⟩]
        exact hbytes
      · rw [if_neg hn]
        exact Nat.zero_le _
    omega
  · rw [hs]
  · rw [hs]

theorem sum_eq_sum_filter (s : Meter) (p : Phase → Bool) (cn : String) (d : Direction) : s.sum p cn d =
    ((s.tunnels.filter fun t => t.commonName = cn ∧ p t.phase = true).map fun t => t.bytes d).sum := by
  unfold sum
  induction s.tunnels with
  | nil => rfl
  | cons t l ih =>
      rw [List.map_cons, List.sum_cons, ih, List.filter_cons, weight]
      by_cases h : t.commonName = cn ∧ p t.phase = true
      · rw [if_pos h, if_pos (decide_eq_true h), List.map_cons, List.sum_cons]
      · rw [if_neg h, if_neg (by simpa using h), zero_add]

/-- The table shows the one connection that is listed. -/
theorem Inv.listed_le_shown (hi : s.Inv) {cn : String} (hshown : s.Shown cn) (d : Direction) :
    s.sum (· = .listed) cn d ≤ shown s.rows cn d := by
  obtain ⟨hpos, -⟩ := hi.shown_le (fun row hrow => Open.of_mem_rows hrow) cn d
  have hone := hshown.2
  have hsum := sum_eq_sum_filter s (· = .listed) cn d
  simp only [decide_eq_true_eq] at hsum
  cases hl : s.tunnels.filter fun t => t.commonName = cn ∧ t.phase = .listed with
  | nil =>
      rw [hl] at hsum
      simp only [List.map_nil, List.sum_nil] at hsum
      omega
  | cons t rest =>
      rw [hl] at hsum hone
      have hrest : rest = [] := by simpa using hone
      subst hrest
      have hmem : t ∈ s.tunnels.filter fun t => t.commonName = cn ∧ t.phase = .listed := by
        rw [hl]; exact List.mem_cons_self
      obtain ⟨hin, hphase⟩ := List.mem_filter.1 hmem
      obtain ⟨hname, hlisted⟩ := of_decide_eq_true hphase
      obtain ⟨i, hget⟩ := List.getElem?_of_mem hin
      -- it has a row, and a row of its name is a row of its own
      have hrow : ⟨i, t.commonName, t.received, t.sent⟩ ∈ s.rows :=
        List.mem_map.2 ⟨(t, i), List.mem_filter.2
          ⟨List.mem_zipIdx_iff_getElem?.2 hget, decide_eq_true hlisted⟩, rfl⟩
      obtain ⟨tr, hlive⟩ := live_isSome hrow
      obtain ⟨row, hrow', hrname, rfl⟩ := mem_of_live hlive
      have hopen := open_of_mem_rows hrow'
      have hmem' : ⟨row.commonName, row.received, row.sent, .listed⟩ ∈
          s.tunnels.filter fun t => t.commonName = cn ∧ t.phase = .listed :=
        List.mem_filter.2 ⟨List.mem_of_getElem? hopen, decide_eq_true ⟨hrname.trans hname, rfl⟩⟩
      rw [hl] at hmem'
      have hself := List.mem_singleton.1 hmem'
      have hbytes : t.bytes d = row.bytes d := by
        rw [← hself]
        cases d <;> rfl
      have hfits := hi.fits cn d
      have hle := @sum_mono s (· = .listed) cn d (fun _ => true) fun _ _ => rfl
      simp only [List.map_cons, List.map_nil, List.sum_cons, List.sum_nil, add_zero] at hsum
      rw [carried] at hfits
      rw [shown, ← hname, hlive, Option.getD_some, Row.get_traffic, parseCount_toInt (by omega),
        hname]
      omega

/-- When no connection is on its way out, those that have been listed are handled, ended
or listed. -/
theorem sum_seen_le {cn : String} (hleft : ∀ t ∈ s.tunnels, t.commonName = cn → t.phase ≠ .left)
    (d : Direction) : s.sum (· ≠ .starting) cn d ≤
      s.sum (· = .handled) cn d + s.sum (· = .ended) cn d + s.sum (· = .listed) cn d := by
  unfold sum
  generalize s.tunnels = l at hleft ⊢
  induction l with
  | nil => exact le_rfl
  | cons t l ih =>
      have hl := ih fun u hu => hleft u (List.mem_cons_of_mem _ hu)
      have ht : weight (· ≠ .starting) cn d t ≤ weight (· = .handled) cn d t +
          weight (· = .ended) cn d t + weight (· = .listed) cn d t := by
        unfold weight
        by_cases hcn : t.commonName = cn
        · have hphase := hleft t List.mem_cons_self hcn
          cases hp : t.phase <;> simp_all
        · simp [hcn]
      simp only [List.map_cons, List.sum_cons]
      omega

/-- The server writes one more message. -/
theorem Floor.concat (hf : Floor data first f s) {m : Message}
    (hs : s'.stream = s.stream ++ [m]) (hsame : s'.bank = s.bank ∧ s'.tunnels = s.tunnels ∧
      s'.base = s.base) (hcalls : ∀ (call : Nat) (c : Call), s'.calls[call]? = some c →
        s.calls[call]? = some c ∨ c = .answered)
    (hm : ∀ call rows, first ≤ call → m = .table call rows → ∀ d,
      f d + s.base (formatUUID data) d ≤ s.sum (· = .handled) (formatUUID data) d +
        ahead s.stream (formatUUID data) d + shown rows (formatUUID data) d) :
    Floor data first f s' := by
  obtain ⟨hbank, htunnels, hbase⟩ := hsame
  have hsum : ∀ p cn d, s'.sum p cn d = s.sum p cn d := fun p cn d => by rw [sum, sum, htunnels]
  refine ⟨hbank ▸ hf.known, fun d => ?_, fun {call rows} pre post hfirst heq d => ?_,
    fun hfirst hcall d => ?_, fun hfirst hcall => ?_⟩
  · rw [hsum, hbase]
    exact hf.secured d
  · rw [hs] at heq
    rw [hsum, hbase]
    rcases Lists.concat_eq_append_cons heq with ⟨-, rfl, hy⟩ | ⟨post', -, hold⟩
    · exact hm call rows hfirst hy.symm d
    · exact hf.tables pre post' hfirst hold d
  · rw [hsum, hbase]
    rcases hcalls _ _ hcall with hold | hnew
    · exact hf.held hfirst hold d
    · cases hnew
  · rcases hcalls _ _ hcall with hold | hnew
    · exact hf.returned hfirst hold
    · cases hnew

theorem Floor.disconnect (hf : Floor data first f s) {cid : Nat} (h : s.disconnect cid = some s') :
    Floor data first f s' := by
  obtain ⟨t', hbind, rfl⟩ := Option.map_eq_some_iff.1 h
  obtain ⟨t, ht, hfin⟩ := Option.bind_eq_some_iff.1 hbind
  have hmid := hf.change ht (finish_changes hfin).1 rfl
  exact hmid.concat rfl ⟨rfl, rfl, rfl⟩ (fun _ _ h => .inl h) nofun

theorem Floor.answer (hf : Floor data first f s) (hi : s.Inv) (hq : s.Queued) {call : Nat}
    (hok : s.Undisturbed (.answer call)) (h : s.answer call = some s') :
    Floor data first f s' := by
  unfold Meter.answer at h
  split at h
  · cases h
    have hshown := hok _ hf.known
    refine hf.concat rfl ⟨rfl, rfl, rfl⟩ (fun k c hc => ?_) fun k rows _ hm d => ?_
    · rw [List.getElem?_set] at hc
      split at hc
      · split at hc
        · exact .inr (Option.some.inj hc).symm
        · cases hc
      · exact .inl hc
    · -- all that is secured is handled, on its way, or in the table
      cases hm
      have hseen := sum_seen_le hshown.1 d
      have hlisted := hi.listed_le_shown hshown d
      have hended := hq.ended (formatUUID data) d
      have hsecured := hf.secured d
      omega
  · cases h

theorem Floor.read_table (hf : Floor data first f s) {call : Nat} {rows : List Row}
    {stream : List Message} (hstream : s.stream = .table call rows :: stream) :
    Floor data first f { s with stream, calls := s.calls.modify call (handOver rows) } where
  known := hf.known
  secured := hf.secured
  tables pre post hfirst heq d := by
    have hold := hf.tables (.table call rows :: pre) post hfirst
      (by rw [hstream]; exact congrArg _ heq) d
    rw [ahead_cons] at hold
    exact hold.trans (le_of_eq (by simp [Message.bytes]; rfl))
  held {k rows'} hfirst hcall d := by
    rw [List.getElem?_modify] at hcall
    obtain ⟨c, hc, hcases⟩ := Option.map_eq_some_iff.1 hcall
    split at hcases
    · rename_i hk
      subst hk
      cases c with
      | answered =>
          cases hcases
          have hold := hf.tables [] stream hfirst hstream d
          exact hold.trans (le_of_eq (by simp [ahead]; rfl))
      | holding r => cases hcases; exact hf.held hfirst hc d
      | asked => cases hcases
      | returned items carried => cases hcases
      | failed => cases hcases
    · subst hcases
      exact hf.held hfirst hc d
  returned {k items carried tr} hfirst hcall := by
    rw [List.getElem?_modify] at hcall
    obtain ⟨c, hc, hcases⟩ := Option.map_eq_some_iff.1 hcall
    split at hcases
    · cases c with
      | returned items' carried' => cases hcases; exact hf.returned hfirst hc
      | _ => cases hcases
    · subst hcases
      exact hf.returned hfirst hc

/-- What a connection has carried goes from its message to the bank. -/
theorem Floor.handled (hf : Floor data first f s) {cid : Nat} {name : String} {received sent : Nat}
    (ht : s.tunnels[cid]? = some ⟨name, received, sent, .ended⟩)
    (hset : s'.tunnels = s.tunnels.set cid ⟨name, received, sent, .handled⟩)
    (hstream : s.stream = .disconnect cid name received sent :: s'.stream)
    (hcns : s'.bank.cns = s.bank.cns) (hrest : s'.calls = s.calls ∧ s'.base = s.base) :
    Floor data first f s' := by
  obtain ⟨hcalls, hbase⟩ := hrest
  have hbytes : ∀ d, Message.bytes (formatUUID data) d (.disconnect cid name received sent) =
      weight (· = .handled) (formatUUID data) d ⟨name, received, sent, .handled⟩ := fun d => by
    cases d <;> simp [weight, Message.bytes, Tunnel.bytes]
  have hhandled : ∀ d, s'.sum (· = .handled) (formatUUID data) d =
      s.sum (· = .handled) (formatUUID data) d +
        Message.bytes (formatUUID data) d (.disconnect cid name received sent) := fun d => by
    have hsum := sum_set ht hset (· = .handled) (formatUUID data) d
    have hold : weight (· = .handled) (formatUUID data) d ⟨name, received, sent, .ended⟩ = 0 := by
      simp [weight]
    rw [hbytes]
    omega
  refine ⟨hcns ▸ hf.known, fun d => ?_, fun pre post hfirst heq d => ?_, fun hfirst hcall d => ?_,
    fun hfirst hcall => hf.returned hfirst (hcalls ▸ hcall)⟩
  · have hsum := sum_set ht hset (· ≠ .starting) (formatUUID data) d
    have hsame : weight (· ≠ .starting) (formatUUID data) d ⟨name, received, sent, .handled⟩ =
        weight (· ≠ .starting) (formatUUID data) d ⟨name, received, sent, .ended⟩ := by
      cases d <;> simp [weight, Tunnel.bytes]
    have hsecured := hf.secured d
    rw [hbase]
    omega
  · have hold := hf.tables (.disconnect cid name received sent :: pre) post hfirst
      (by rw [hstream, heq]; rfl) d
    rw [ahead_cons] at hold
    rw [hbase, hhandled]
    omega
  · have hold := hf.held hfirst (hcalls ▸ hcall) d
    rw [hbase, hhandled]
    omega

theorem Floor.read (hf : Floor data first f s) (hi : s.Inv) (h : s.read = some s') :
    Floor data first f s' := by
  unfold Meter.read at h
  split at h
  · cases h
  · rename_i hstream
    cases h
    exact hf.read_table hstream
  · rename_i cid name received sent stream hstream
    cases h
    have ht : s.tunnels[cid]? = some ⟨name, received, sent, .ended⟩ :=
      hi.final (by rw [hstream]; exact List.mem_cons_self)
    apply hf.handled ht
    · exact modify_handled ht
    · exact hstream
    · exact s.bank.disconnected_cns _ _ _
    · exact ⟨rfl, rfl⟩

/-- A call goes on, and nothing else changes. -/
theorem Floor.setCall (hf : Floor data first f s) {call : Nat} {c : Call}
    (hheld : ∀ rows, c ≠ .holding rows)
    (hreturned : ∀ items carried t, c = .returned items carried → first ≤ call →
      items (Key.of data) = some t → ∀ d, f d ≤ (t.get d).toInt) :
    Floor data first f { s with calls := s.calls.set call c } := by
  have hcases : ∀ {k : Nat} {c' : Call}, (s.calls.set call c)[k]? = some c' →
      s.calls[k]? = some c' ∨ call = k ∧ c = c' := fun {k c'} hget => by
    rw [List.getElem?_set] at hget
    split at hget
    · rename_i hk
      split at hget
      · exact .inr ⟨hk, Option.some.inj hget⟩
      · cases hget
    · exact .inl hget
  refine { hf with
    held := fun {k rows} hfirst hcall => ?_, returned := fun {k items carried t} hfirst hcall => ?_ }
  · rcases hcases hcall with hold | ⟨-, hc⟩
    · exact hf.held hfirst hold
    · exact absurd hc (hheld rows)
  · rcases hcases hcall with hold | ⟨rfl, hc⟩
    · exact hf.returned hfirst hold
    · exact hreturned items carried t hc hfirst

theorem Floor.lock (hf : Floor data first f s) (hi : s.Inv) {call : Nat}
    (h : s.lock call = some s') : Floor data first f s' := by
  unfold Meter.lock at h
  split at h
  · rename_i rows hcall
    cases h
    refine hf.setCall nofun fun items carried t heq hfirst ht d => ?_
    cases heq
    have hreg : Key.of data ∈ s.bank.peers.keys := by
      unfold Bank.peersOf at ht
      split at ht
      · assumption
      · cases ht
    have htotal := (hi.total_eq (hi.held (List.mem_of_getElem? hcall)) ht d).1
    have hbooks := (hi.banked (s.bank.peers.accepted data hreg) hf.known d).2
    have hheld := hf.held hfirst hcall d
    omega
  · cases h

theorem Floor.ask (hf : Floor data first f s) : Floor data first f s.ask := by
  refine { hf with held := fun hfirst hcall => ?_, returned := fun hfirst hcall => ?_ }
  · rcases Lists.getElem?_concat_cases hcall with hold | ⟨-, hnew⟩
    · exact hf.held hfirst hold
    · cases hnew
  · rcases Lists.getElem?_concat_cases hcall with hold | ⟨-, hnew⟩
    · exact hf.returned hfirst hold
    · cases hnew

theorem Floor.addPeer (hf : Floor data first f s) {data' : List UInt8}
    (hkeep : Keeps data (.addPeer data')) : Floor data first f (s.addPeer data') := by
  have hname : formatUUID data ≠ formatUUID data' := fun h =>
    hkeep.1 (by rw [formatUUID_injective h])
  unfold Meter.addPeer
  split
  · exact hf
  · rename_i hdata
    refine hf.of_sums ?_ ?_ (fun _ => le_rfl) (fun _ => rfl) rfl rfl
    · refine (s.bank.add data' hdata).mem_cns.2 ?_
      simpa [Bank.add, Registry.add, hname] using s.bank.mem_cns.1 hf.known
    · show (if _ then s.base else Function.update s.base _ _) (formatUUID data) = _
      split
      · rfl
      · exact Function.update_of_ne hname _ _

theorem Floor.removePeer (hf : Floor data first f s) {data' : List UInt8}
    (hkeep : Keeps data (.removePeer data')) : Floor data first f (s.removePeer data') := by
  have hname : formatUUID data ≠ formatUUID data' := fun h =>
    hkeep.2 (by rw [formatUUID_injective h])
  unfold Meter.removePeer
  split
  · exact hf
  · exact hf.of_sums ((s.bank.nodup.mem_erase_iff).2 ⟨hname, hf.known⟩) rfl (fun _ => le_rfl)
      (fun _ => rfl) rfl rfl

theorem Floor.step (hf : Floor data first f s) (hi : s.Inv) (hq : s.Queued)
    (hok : s.Undisturbed a) (hkeep : Keeps data a) (h : s.step a = some s') :
    Floor data first f s' := by
  cases a with
  | connect commonName =>
      cases h
      exact hf.of_sums hf.known rfl (fun d => (sum_connect commonName _ _ d).ge)
        (fun d => sum_connect commonName _ _ d) rfl rfl
  | enlist cid =>
      obtain ⟨t, t', ht, hc, hs⟩ := change_eq_some h
      exact hf.change ht (enlist_changes hc) hs
  | move cid received sent =>
      obtain ⟨t, t', ht, hc, hs⟩ := change_eq_some h
      exact hf.change ht (move_changes hc).1 hs
  | leave cid =>
      obtain ⟨t, t', ht, hc, hs⟩ := change_eq_some h
      exact hf.change ht (leave_changes hc) hs
  | disconnect cid => exact hf.disconnect h
  | ask => cases h; exact hf.ask
  | answer call => exact hf.answer hi hq hok h
  | read => exact hf.read hi h
  | lock call => exact hf.lock hi h
  | fail call =>
      change s.fail call = some s' at h
      unfold Meter.fail at h
      split at h <;> cases h <;> exact hf.setCall nofun nofun
  | addPeer data' => cases h; exact hf.addPeer hkeep
  | removePeer data' => cases h; exact hf.removePeer hkeep

/-- What a call has reported is secured, and no later call is under way yet. -/
theorem Floor.of_lock (hi : s.Inv) (hq : s.Queued) {call : Nat} {rows : List Row} {t : Traffic}
    (hcall : s.calls[call]? = some (.holding rows))
    (ht : s.bank.peersOf (live rows) (Key.of data) = some t) (h : s.lock call = some s') :
    Floor data s'.calls.length (fun d => (t.get d).toInt) s' := by
  have hreg : Key.of data ∈ s.bank.peers.keys := by
    unfold Bank.peersOf at ht
    split at ht
    · assumption
    · cases ht
  have hdata := s.bank.peers.accepted data hreg
  have hknown : formatUUID data ∈ s.bank.cns :=
    s.bank.mem_cns.2 (by rw [(s.bank.registered hdata).1 hreg]; rfl)
  have hopen := hi.held (List.mem_of_getElem? hcall)
  rw [Meter.lock, hcall] at h
  cases h
  refine ⟨hknown, fun d => ?_, fun {k rows'} pre post hfirst heq => ?_, fun hfirst hget => ?_,
    fun hfirst hget => ?_⟩
  · have htotal := (hi.total_eq hopen ht d).1
    have hbooks := (hi.banked hdata hknown d).2
    have hshown := (hi.shown_le hopen (formatUUID data) d).2
    change (t.get d).toInt + s.base (formatUUID data) d ≤ s.sum (· ≠ .starting) (formatUUID data) d
    omega
  · have hlt : k < s.calls.length := hq.called (by
      show Message.table k rows' ∈ s.stream
      rw [show s.stream = _ from heq]
      exact List.mem_append_right _ List.mem_cons_self)
    simp only [List.length_set] at hfirst
    omega
  · have hlt := (List.getElem?_eq_some_iff.1 hget).1
    omega
  · have hlt := (List.getElem?_eq_some_iff.1 hget).1
    omega

end Floor

/-- **Totals are never more than was carried, and never fall.**  In every run that is not
disturbed, each total is at most what the server had carried for the peer since it was
added; and a call that begins after another has returned reports no less for a peer that
stays registered. -/
theorem totals_bounded_and_monotone (h : Steps.Reach step Undisturbed start s) :
    (∀ c ∈ s.calls, Bounded c) ∧
      ∀ {call : Nat} {s₁ s₂ : Meter} {data : List UInt8}, s.step (.lock call) = some s₁ →
        Steps.Reach step (fun s a => s.Undisturbed a ∧ Keeps data a) s₁ s₂ →
        ∀ c₁ ∈ s₁.calls[call]?, ∀ c₂ ∈ s₂.calls.drop s₁.calls.length,
          AtMost (Key.of data) c₁ c₂ := by
  obtain ⟨hi, hq⟩ := h.invariant (I := fun s => s.Inv ∧ s.Queued) ⟨inv_start, queued_start⟩
    fun hs hok hstep => ⟨hs.1.step hok hstep, hs.2.step hs.1 hstep⟩
  refine ⟨hi.bounded, fun {call s₁ s₂ data} hlock hreach c₁ hc₁ c₂ hc₂ => ?_⟩
  change s.lock call = some s₁ at hlock
  have hi₁ := hi.lock hlock
  have hq₁ : s₁.Queued := hq.step (a := .lock call) hi hlock
  cases c₁ with
  | returned items₁ carried₁ =>
      cases c₂ with
      | returned items₂ carried₂ =>
          intro t₁ t₂ d ht₁ ht₂
          obtain ⟨rows, hcall⟩ : ∃ rows, s.calls[call]? = some (.holding rows) := by
            unfold Meter.lock at hlock
            split at hlock
            · exact ⟨_, by assumption⟩
            · cases hlock
          have hitems : s.bank.peersOf (live rows) (Key.of data) = some t₁ := by
            rw [Meter.lock, hcall] at hlock
            cases hlock
            rw [List.getElem?_set_self (List.getElem?_eq_some_iff.1 hcall).1] at hc₁
            cases hc₁
            exact ht₁
          -- the floor stands from here on
          have hfloor := Floor.of_lock hi hq hcall hitems hlock
          obtain ⟨-, -, hf⟩ := hreach.invariant
            (I := fun s => s.Inv ∧ s.Queued ∧
              Floor data s₁.calls.length (fun d => (t₁.get d).toInt) s)
            ⟨hi₁, hq₁, hfloor⟩ fun hs hok hstep => ⟨hs.1.step hok.1 hstep,
              hs.2.1.step hs.1 hstep, hs.2.2.step hs.1 hs.2.1 hok.1 hok.2 hstep⟩
          obtain ⟨k, hk⟩ := List.getElem?_of_mem hc₂
          rw [List.getElem?_drop] at hk
          exact hf.returned (Nat.le_add_right _ _) hk ht₂ d
      | _ => exact trivial
  | _ => exact trivial

/-- What a call reports for a peer. -/
def report (key : Key) : Call → Option Traffic
  | .returned items _ => items key
  | _ => none

/-- The data of a peer. -/
def somePeer : List UInt8 := List.replicate 16 7

/-- A peer connects and moves data; a call holds the table. -/
def quietRun : List Act :=
  [.addPeer somePeer, .connect (formatUUID somePeer), .enlist 0, .move 0 100 40, .ask, .answer 0,
    .disconnect 0, .read]

/-- Its connection ends, another one follows, and a second call returns. -/
def laterRun : List Act :=
  [.read, .connect (formatUUID somePeer), .enlist 1, .move 1 30 2, .ask, .answer 1, .read, .lock 1]

theorem totals_quietRun : ∃ s₁ s₂ : Meter, ∃ c₁ ∈ s₁.calls[0]?, ∃ c₂ ∈ s₂.calls.drop s₁.calls.length,
    report (Key.of somePeer) c₁ = some ⟨100, 40⟩ ∧ report (Key.of somePeer) c₂ = some ⟨130, 42⟩ ∧
      AtMost (Key.of somePeer) c₁ c₂ := by
  obtain ⟨s, hreach, hp⟩ := Steps.exists_reach step Undisturbed start quietRun
    (fun s => (s.step (.lock 0)).any fun s₁ =>
      (Steps.runs step (fun s a => s.Undisturbed a ∧ Keeps somePeer a) s₁ laterRun).any fun s₂ =>
        s₁.calls[0]?.any fun c₁ => (s₂.calls.drop s₁.calls.length).any fun c₂ =>
          decide (report (Key.of somePeer) c₁ = some ⟨100, 40⟩ ∧
            report (Key.of somePeer) c₂ = some ⟨130, 42⟩)) (by decide)
  simp only [Option.any_eq_true, List.any_eq_true, decide_eq_true_eq] at hp
  obtain ⟨s₁, hlock, s₂, hruns, c₁, hc₁, c₂, hc₂, hrep₁, hrep₂⟩ := hp
  exact ⟨s₁, s₂, c₁, hc₁, c₂, hc₂, hrep₁, hrep₂, (totals_bounded_and_monotone hreach).2 hlock
    (Steps.Reach.start.of_runs hruns) c₁ hc₁ c₂ hc₂⟩

/-- A connection ends after the table was drawn up, and its end is handled before the call
takes the lock. -/
def overtakenRun : List Act :=
  [.addPeer somePeer, .connect (formatUUID somePeer), .enlist 0, .move 0 100 40, .ask, .answer 0,
    .disconnect 0, .read, .read, .lock 0]

/-- **A connection is counted twice**: the server has carried 100 bytes, and `Peers`
reports 200. -/
theorem disconnect_counted_twice :
    ∃ s, Steps.Reach step (fun _ _ => True) start s ∧ ∃ c ∈ s.calls, ¬ Bounded c := by
  obtain ⟨s, hreach, hp⟩ := Steps.exists_reach step (fun _ _ => True) start overtakenRun
    (fun s => s.calls.any fun c => match c with
      | .returned items carried => decide (items (Key.of somePeer) = some ⟨200, 80⟩ ∧
          carried (formatUUID somePeer) .upload = 100)
      | _ => false) (by decide)
  obtain ⟨c, hc, htest⟩ := List.any_eq_true.1 hp
  refine ⟨s, hreach, c, hc, fun hb => ?_⟩
  cases c with
  | returned items carried =>
      obtain ⟨hitems, hcarried⟩ := of_decide_eq_true htest
      have hle := hb somePeer ⟨200, 80⟩ .upload hitems
      rw [hcarried] at hle
      exact absurd hle (by decide)
  | _ => cases htest

end Meter

end Dvpnd
