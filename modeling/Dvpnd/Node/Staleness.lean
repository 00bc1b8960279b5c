import Dvpnd.Node.Invariant

/-!
# When the counters a pass uses were read

`setSessions` reads the service's counters before it takes the admission lock and
looks up the rows by key after.  In between, a key can be retired and admitted
again for another session, and the bytes of the first are then written into the
second.

* `CountersFresh` — every use `setSessions` has made of a peer's counters was of
  counters read after that peer was added.
* `NoReadmission` — no key on the list of a waiting pass is added.
* `counters_fresh` — **in a run without readmission the counters are always
  fresh**; `readmitted_key_charged` — a run in which they are not.
-/

namespace Dvpnd

open Effect

variable {S : Service}

/-- The counters `setSessions` has written into a row, or held against it, were
read after the row's peer was added. -/
def CountersFresh (s : Node S) : Prop := ∀ u ∈ s.usage, u.addedAt ≤ u.readAt

/-- No key that a waiting pass has counters for is added now. -/
def NoReadmission (_ : Actor) : Op → Node S → Prop
  | .addPeer data, s => Key.of data ∉ s.waiting.getD []
  | _, _ => True

instance (i : Actor) : (o : Op) → (s : Node S) → Decidable (NoReadmission i o s)
  | .addPeer data, s => inferInstanceAs (Decidable (Key.of data ∉ s.waiting.getD []))
  | .peerCount, _ | .hasPeer _, _ | .removePeer _ _, _ | .peers, _ | .count _, _ | .find _ _, _
  | .create _, _ | .updates _ _ _, _ | .delete _, _ | .deleteAll, _ | .vacuum, _
  | .querySession _, _ | .querySubscription _, _ | .queryAllocation _ _, _
  | .updateSessions _, _ => isTrue trivial

/-- Peers are added in the past. -/
def AddedBefore (s : Node S) : Prop := ∀ k, s.addedAt k ≤ s.clock

/-! ## What the calls do to the record -/

/-- The calls by which `setSessions` reads and uses counters. -/
def Op.Unmetered : Op → Prop
  | .peers | .updates _ _ _ | .removePeer .exceeded _ => False
  | _ => True

/-- The part of the state that says which counters were read and used when. -/
def Node.record (s : Node S) : Option (List Key) × Nat × List Usage :=
  (s.waiting, s.readAt, s.usage)

/-- Only `Peers`, a stored usage and a cap removal change the record. -/
theorem Op.Unmetered.record (env : Env S) {o : Op} (ho : o.Unmetered) (s : Node S) :
    (exec env o s).2.record = s.record := by
  by_cases hst : o.IsStatement
  · obtain ⟨T, U, he, husage⟩ := hst.frame env s
    have hU : U = s.usage := husage fun cond up down hupd => by
      subst hupd
      exact ho
    rw [he, hU]
    rfl
  cases o with
  | peers => exact absurd ho id
  | addPeer data =>
      show (execAddPeer env data s).2.record = s.record
      rcases execAddPeer_cases env data s with ⟨e, -, he⟩ | ⟨m, -, he⟩ <;> rw [he] <;> rfl
  | removePeer site data =>
      have hsite : site ≠ .exceeded := by
        rintro rfl
        exact ho
      show (s.waiting, s.readAt, if site = .exceeded then _ else s.usage) = s.record
      rw [if_neg hsite]
      rfl
  | create _ | updates _ _ _ | delete _ | deleteAll | vacuum => exact absurd trivial hst
  | peerCount | hasPeer _ | count _ | find _ _ | querySession _ | querySubscription _
  | queryAllocation _ _ | updateSessions _ => rfl

/-- Only `AddPeer` changes when a peer was added, and only for its own key. -/
theorem exec_addedAt (env : Env S) (o : Op) (s : Node S) (k : Key)
    (hk : ∀ data, o = .addPeer data → Key.of data ≠ k) :
    (exec env o s).2.addedAt k = s.addedAt k := by
  by_cases hst : o.IsStatement
  · obtain ⟨T, U, he, -⟩ := hst.frame env s
    rw [he]
    rfl
  cases o with
  | addPeer data =>
      show (execAddPeer env data s).2.addedAt k = s.addedAt k
      rcases execAddPeer_cases env data s with ⟨e, -, he⟩ | ⟨m, -, he⟩
      · rw [he]
        rfl
      · rw [he]
        exact Function.update_of_ne (Ne.symm (hk data rfl)) _ _
  | create _ | updates _ _ _ | delete _ | deleteAll | vacuum => exact absurd trivial hst
  | peers | removePeer _ _ | peerCount | hasPeer _ | count _ | find _ _ | querySession _
  | querySubscription _ | queryAllocation _ _ | updateSessions _ => rfl

theorem exec_clock (env : Env S) (o : Op) (s : Node S) : (exec env o s).2.clock = s.clock + 1 := by
  by_cases hst : o.IsStatement
  · obtain ⟨T, U, he, -⟩ := hst.frame env s
    rw [he]
    rfl
  cases o with
  | addPeer data =>
      show (execAddPeer env data s).2.clock = s.clock + 1
      rcases execAddPeer_cases env data s with ⟨e, -, he⟩ | ⟨m, -, he⟩ <;> rw [he] <;> rfl
  | create _ | updates _ _ _ | delete _ | deleteAll | vacuum => exact absurd trivial hst
  | peers | removePeer _ _ | peerCount | hasPeer _ | count _ | find _ _ | querySession _
  | querySubscription _ | queryAllocation _ _ | updateSessions _ => rfl

/-- A peer is added at the moment of its call, and the clock then moves on. -/
theorem AddedBefore.exec (env : Env S) (o : Op) {s : Node S} (h : AddedBefore s) :
    AddedBefore (exec env o s).2 := by
  intro k
  rw [exec_clock]
  by_cases hk : ∃ data, o = .addPeer data ∧ Key.of data = k
  · obtain ⟨data, rfl, rfl⟩ := hk
    show (execAddPeer env data s).2.addedAt (Key.of data) ≤ s.clock + 1
    rcases execAddPeer_cases env data s with ⟨e, -, he⟩ | ⟨m, -, he⟩
    · rw [he]
      exact (h _).trans (Nat.le_succ _)
    · rw [he]
      simp
  · rw [exec_addedAt env o s k fun data ho hdata => hk ⟨data, ho, hdata⟩]
    exact (h k).trans (Nat.le_succ _)

/-! ## The contract -/

/-- What the others leave alone while a pass waits for the lock: the list it has
read, and when the peers on it were added. -/
structure Awaited (s s' : Node S) : Prop where
  waiting : s'.waiting = s.waiting
  readAt : s'.readAt = s.readAt
  addedAt : ∀ k ∈ s.waiting.getD [], s'.addedAt k = s.addedAt k

theorem Awaited.trans {a b c : Node S} (hab : Awaited a b) (hbc : Awaited b c) : Awaited a c := by
  refine ⟨hbc.waiting.trans hab.waiting, hbc.readAt.trans hab.readAt, fun k hk => ?_⟩
  exact (hbc.addedAt k (by rwa [hab.waiting])).trans (hab.addedAt k hk)

/-- What the others leave alone while a pass holds the lock. -/
structure Settled (s s' : Node S) : Prop where
  waiting : s'.waiting = s.waiting
  readAt : s'.readAt = s.readAt
  addedAt : s'.addedAt = s.addedAt
  table : s'.table = s.table

theorem Settled.awaited {s s' : Node S} (h : Settled s s') : Awaited s s' :=
  ⟨h.waiting, h.readAt, fun k _ => by rw [h.addedAt]⟩

/-- Only `set_sessions` reads counters or uses them, and it uses fresh ones. -/
def countersContract : Contract Op Actor (Node S) where
  inv _ := True
  rely i s s' := i = .setSessions → Awaited s s'
  calm i s s' := i = .setSessions → Settled s s'
  tick i s s' := (i ≠ .setSessions → Settled s s') ∧ (CountersFresh s → CountersFresh s')
  guar i s s' := (i ≠ .setSessions → s'.record = s.record) ∧ (CountersFresh s → CountersFresh s')
  ok i o s := NoReadmission i o s ∧ AddedBefore s

/-- Outside a readmission, what keeps the record keeps what a waiting pass counts
on. -/
theorem Awaited.of_record {env : Env S} {i : Actor} {o : Op} {s : Node S}
    (hok : NoReadmission i o s) (h : (exec env o s).2.record = s.record) :
    Awaited s (exec env o s).2 := by
  simp only [Node.record, Prod.mk.injEq] at h
  refine ⟨h.1, h.2.1, fun k hk => exec_addedAt env o s k ?_⟩
  rintro data rfl rfl
  exact hok hk

theorem countersContract_fits (env : Env S) :
    (countersContract : Contract Op Actor (Node S)).Fits (machine env) where
  rely_refl _ _ _ := ⟨rfl, rfl, fun _ _ => rfl⟩
  rely_trans _ _ _ _ hab hbc hi := (hab hi).trans (hbc hi)
  calm_refl _ _ _ := ⟨rfl, rfl, rfl, rfl⟩
  calm_trans _ _ _ _ hab hbc hi := ⟨(hbc hi).waiting.trans (hab hi).waiting,
    (hbc hi).readAt.trans (hab hi).readAt, (hbc hi).addedAt.trans (hab hi).addedAt,
    (hbc hi).table.trans (hab hi).table⟩
  tick_rely hij ht hj := (ht.1 fun hi => hij (hi.trans hj.symm)).awaited
  tick_calm hij ht hj := ht.1 fun hi => hij (hi.trans hj.symm)
  tick_inv _ _ := trivial
  guar_rely hij hok hg hj := Awaited.of_record hok.1 (hg.1 fun hi => hij (hi.trans hj.symm))
  acquire_rely {i j s} hij hj := by
    have hi : i ≠ .setSessions := fun hi => hij (hi.trans hj.symm)
    show Awaited s (if i = .setSessions then { s with waiting := none } else s)
    rw [if_neg hi]
    exact ⟨rfl, rfl, fun _ _ => rfl⟩

/-! ## The threads that use no counters -/

theorem Op.IsRead.unmetered {o : Op} (ho : o.IsRead) : o.Unmetered := by
  cases o with
  | removePeer _ _ | peers | updates _ _ _ => exact absurd ho id
  | _ => trivial

theorem Op.Retires.unmetered {o : Op} (ho : o.Retires) : o.Unmetered := by
  cases o with
  | hasPeer _ | delete _ => trivial
  | removePeer site _ =>
      cases site with
      | retirement => trivial
      | _ => exact absurd ho id
  | _ => exact absurd ho id

theorem CountersFresh.of_record {s s' : Node S} (h : s'.record = s.record)
    (hs : CountersFresh s) : CountersFresh s' := by
  simp only [Node.record, Prod.mk.injEq] at h
  intro u hu
  exact hs u (by rwa [← h.2.2])

/-- A thread that only reads outside the lock, and under it neither reads nor uses
counters, keeps the contract. -/
theorem unmetered_safe (env : Env S) {i : Actor} {α : Type} {p : NodeM α} (s : Node S)
    (hp : Prog.Bracketed Op.IsRead Op.Unmetered false p) :
    Safe (machine env) countersContract i (fun _ b _ => b = false) p false s := by
  refine Safe.of_bracketed (fun _ => trivial) (fun o t ho _ => ?_) (fun o t ho _ => ?_) hp
  · have hrec := ho.unmetered.record env t
    refine ⟨fun _ => ⟨congrArg Prod.fst hrec, congrArg (fun r => r.2.1) hrec,
      funext fun k => exec_addedAt env o t k ?_, (ho.quiet env t).table⟩, .of_record hrec⟩
    rintro data rfl
    exact absurd ho id
  · exact ⟨fun _ => ho.record env t, .of_record (ho.record env t)⟩

theorem evict_unmetered (items : List Session) : Prog.Plain Op.Unmetered (evict items) := by
  induction items with
  | nil => exact .ret _
  | cons item rest ih =>
      refine (removePeerIfExists_plain (fun _ => trivial) (by exact fun _ => trivial) _).bind fun r => ?_
      cases r with
      | none => exact ih
      | some e => exact .ret _

theorem evictAndAdd_unmetered (req : AdmitRequest) (a : Admission) (available : Int64) :
    Prog.Plain Op.Unmetered (evictAndAdd req a available) := by
  refine .perform_bind trivial fun r => ?_
  cases r with
  | error e => exact .ret _
  | ok items =>
      refine (evict_unmetered items).bind fun r => ?_
      cases r with
      | some e => exact .ret _
      | none =>
          refine .perform_bind trivial fun r => ?_
          cases r with
          | error e => exact .ret _
          | ok peer =>
              refine .perform_bind trivial fun r => ?_
              cases r with
              | none => exact .ret _
              | some e => exact .perform_bind trivial fun _ => .ret _

theorem admitSession_bracketed (cfg : Config) (req : AdmitRequest) :
    Prog.Bracketed Op.IsRead Op.Unmetered false (admitSession cfg req) := by
  have hread : ∀ {α : Type} {p : NodeM α}, Prog.Plain Op.IsRead p → Prog.Plain Op.Unmetered p :=
    fun hp => hp.mono fun _ ho => ho.unmetered
  refine (Prog.Bracketed.of_plain (checkCapacity_plain cfg req)).bind fun r => ?_
  cases r with
  | some e => rfl
  | none =>
      refine (Prog.Bracketed.of_plain (queryAdmission_plain cfg req)).bind fun r => ?_
      cases r with
      | error e => rfl
      | ok a =>
          refine .withLock ((hread (checkCapacity_plain cfg req)).bind fun r => ?_)
          cases r with
          | some e => exact .ret _
          | none =>
              refine (hread (remainingBytes_plain req a)).bind fun r => ?_
              cases r with
              | error e => exact .ret _
              | ok available => exact evictAndAdd_unmetered req a available

/-! ## The `set_sessions` pass -/

/-- The counters were read after every one of the listed peers was added. -/
def ReadLast (keys : List Key) (s : Node S) : Prop := ∀ k ∈ keys, s.addedAt k ≤ s.readAt

theorem ReadLast.congr {keys : List Key} {s s' : Node S} (hread : s'.readAt = s.readAt)
    (hadd : ∀ k ∈ keys, s'.addedAt k = s.addedAt k) (h : ReadLast keys s) : ReadLast keys s' := by
  intro k hk
  rw [hread, hadd k hk]
  exact h k hk

theorem ReadLast.settled {keys : List Key} {s s' : Node S} (hs : Settled s s')
    (h : ReadLast keys s) : ReadLast keys s' :=
  h.congr hs.readAt fun k _ => by rw [hs.addedAt]

/-- A use of the counters of a listed peer is fresh. -/
theorem CountersFresh.append {keys : List Key} {s s' : Node S} (us : List Usage)
    (hus : s'.usage = s.usage ++ us)
    (hkey : ∀ u ∈ us, u.key ∈ keys ∧ u.readAt = s.readAt ∧ u.addedAt = s.addedAt u.key)
    (hread : ReadLast keys s) (h : CountersFresh s) : CountersFresh s' := by
  intro u hu
  rw [hus] at hu
  rcases List.mem_append.1 hu with hold | hnew
  · exact h u hold
  · obtain ⟨hk, hr, ha⟩ := hkey u hnew
    rw [hr, ha]
    exact hread _ hk

/-- A removal by the pass, for whatever reason, is of a listed peer. -/
theorem removePeer_fresh (env : Env S) {keys : List Key} {s : Node S} (site : CallSite) {key : Key}
    (hkey : key ∈ keys) (h : ReadLast keys s) :
    Safe (machine env) countersContract .setSessions (fun _ b t => b = true ∧ ReadLast keys t)
      (removePeer site key) true s := by
  obtain ⟨data, hdec, rfl⟩ := key.decode
  unfold removePeer
  rw [hdec]
  refine Safe.perform_bind fun s₁ hc₁ _ => ?_
  have hread : ReadLast keys s₁ := h.settled (hc₁ rfl)
  refine ⟨⟨fun hi => absurd rfl hi, fun hf => ?_⟩, fun t ht => ⟨rfl, ?_⟩⟩
  · by_cases hsite : site = .exceeded
    · refine hf.append [⟨Key.of data, s₁.readAt, s₁.addedAt (Key.of data)⟩] ?_ ?_ hread
      · exact if_pos hsite
      · simpa using hkey
    · exact hf.append [] ((if_neg hsite).trans (List.append_nil _).symm) (by simp) hread
  · have hread' : ReadLast keys (execRemovePeer env site data s₁).2 := hread
    exact hread'.settled (ht rfl)

/-- The row a listed peer's totals go to is the one its key was found in. -/
theorem updates_fresh (env : Env S) {keys : List Key} {s : Node S} {item : Session}
    (up down : Int64) (hrow : item ∈ s.table.rows) (hkey : item.key ∈ keys) (h : ReadLast keys s) :
    (CountersFresh s → CountersFresh (execUpdates env { id := item.id } up down s).2) ∧
      ReadLast keys (execUpdates env { id := item.id } up down s).2 := by
  rcases execUpdates_cases env { id := item.id } up down s with ⟨e, he⟩ | ⟨hz, he⟩
  · rw [he]
    exact ⟨id, h⟩
  · rw [he]
    refine ⟨fun hf => hf.append _ rfl (fun u hu => ?_) h, h⟩
    obtain ⟨r, hr, rfl⟩ := List.mem_map.1 hu
    obtain ⟨hmem, hsat⟩ := Table.mem_find.1 hr
    rcases Session.satisfies_id.1 hsat with h0 | hid
    · exact absurd (Session.isZero_id.2 h0) (Bool.eq_false_iff.1 hz)
    · -- ids are unique, so the row written is the row found
      rw [Table.eq_of_id hmem hrow hid]
      exact ⟨hkey, rfl, rfl⟩

/-- What a query by key finds first is a row with that key. -/
theorem found_by_key {env : Env S} {s : Node S} {peer : Peer} {item : Session}
    {rest : List Session}
    (h : (exec env (.find { key := peer.key } (some 1)) s).1 = .ok (item :: rest)) :
    item ∈ s.table.rows ∧ item.key = peer.key := by
  have hmem : item ∈ s.table.find { key := peer.key } := by
    have hdb : dbRead env s ((s.table.find { key := peer.key }).take 1) = .ok (item :: rest) := h
    unfold dbRead at hdb
    split at hdb
    · cases hdb
    · refine List.mem_of_mem_take (i := 1) ?_
      rw [Except.ok.inj hdb]
      exact List.mem_cons_self ..
  obtain ⟨hrow, hsat⟩ := Table.mem_find.1 hmem
  rcases Session.satisfies_key.1 hsat with h0 | hk
  · exact absurd h0 peer.key_ne
  · exact ⟨hrow, hk⟩

theorem enforceCap_fresh (env : Env S) {keys : List Key} {s : Node S} {item : Session} (peer : Peer)
    (hkey : item.key ∈ keys) (h : ReadLast keys s) :
    Safe (machine env) countersContract .setSessions (fun _ b t => b = true ∧ ReadLast keys t)
      (enforceCap item peer) true s := by
  have hC := countersContract_fits env
  unfold enforceCap
  dsimp only
  split
  · refine Safe.bind (Safe.mono ?_ (removePeer_fresh env .exceeded hkey h)) hC
    rintro r b t ⟨rfl, ht⟩
    cases r with
    | none => exact fun t' ht' => ⟨rfl, ht.settled (ht' rfl)⟩
    | some e => exact fun t' ht' => ⟨rfl, ht.settled (ht' rfl)⟩
  · exact fun t ht => ⟨rfl, h.settled (ht rfl)⟩

theorem storeUsage_fresh (env : Env S) {keys : List Key} {s : Node S} {item : Session} (peer : Peer)
    (hrow : item ∈ s.table.rows) (hkey : item.key ∈ keys) (h : ReadLast keys s) :
    Safe (machine env) countersContract .setSessions (fun _ b t => b = true ∧ ReadLast keys t)
      (storeUsage item peer) true s := by
  have hC := countersContract_fits env
  unfold storeUsage
  dsimp only [reportedUsage]
  split
  · exact fun t ht => ⟨rfl, h.settled (ht rfl)⟩
  · refine Safe.perform_bind fun s₁ hc₁ _ => ?_
    obtain ⟨hfresh, hread⟩ := updates_fresh env (item.baseUpload + peer.upload)
      (item.baseDownload + peer.download) (by rw [(hc₁ rfl).table]; exact hrow) hkey
      (h.settled (hc₁ rfl))
    refine ⟨⟨fun hi => absurd rfl hi, hfresh⟩, ?_⟩
    refine Safe.bind (Safe.mono ?_ (enforceCap_fresh env peer hkey hread)) hC
    rintro r b t ⟨rfl, ht⟩
    exact fun t' ht' => ⟨rfl, ht.settled (ht' rfl)⟩

/-- One turn of the loop: the key on the list leads to the row. -/
theorem setSession_fresh (env : Env S) {keys : List Key} {s : Node S} (peer : Peer)
    (hkey : peer.key ∈ keys) (h : ReadLast keys s) :
    Safe (machine env) countersContract .setSessions (fun _ b t => b = true ∧ ReadLast keys t)
      (setSession peer) true s := by
  have hC := countersContract_fits env
  refine Safe.perform_bind fun s₁ hc₁ _ => ⟨⟨fun hi => absurd rfl hi, id⟩, ?_⟩
  have hread₁ : ReadLast keys s₁ := h.settled (hc₁ rfl)
  have hread : ReadLast keys s₁.tick := hread₁
  cases hf : ((machine env).exec (.find { key := peer.key } (some 1)) s₁).1 with
  | error e => exact fun t ht => ⟨rfl, hread.settled (ht rfl)⟩
  | ok items =>
      cases items with
      | nil =>
          refine Safe.bind (Safe.mono ?_ (removePeer_fresh env .unknown hkey hread)) hC
          rintro r b t ⟨rfl, ht⟩
          cases r with
          | none => exact fun t' ht' => ⟨rfl, ht.settled (ht' rfl)⟩
          | some e => exact fun t' ht' => ⟨rfl, ht.settled (ht' rfl)⟩
      | cons item rest =>
          obtain ⟨hrow, hik⟩ := found_by_key hf
          exact storeUsage_fresh env peer hrow (by rw [hik]; exact hkey) hread

theorem setEach_fresh (env : Env S) {keys : List Key} (peers : List Peer) :
    ∀ {s : Node S}, (∀ p ∈ peers, p.key ∈ keys) → ReadLast keys s →
      Safe (machine env) countersContract .setSessions (fun _ b t => b = true ∧ ReadLast keys t)
        (setEach peers) true s := by
  have hC := countersContract_fits env
  induction peers with
  | nil => exact fun _ h t ht => ⟨rfl, h.settled (ht rfl)⟩
  | cons peer rest ih =>
      intro s hkeys h
      refine Safe.bind (Safe.mono ?_
        (setSession_fresh env peer (hkeys peer (List.mem_cons_self ..)) h)) hC
      rintro errs b t ⟨rfl, ht⟩
      refine Safe.bind (Safe.mono ?_ (ih (fun p hp => hkeys p (List.mem_cons_of_mem _ hp)) ht)) hC
      rintro more b t' ⟨rfl, ht'⟩
      exact fun t'' ht'' => ⟨rfl, ht'.settled (ht'' rfl)⟩

/-- **The pass keeps the contract**: while it waits, no peer on its list is added,
so the list is still older than none of its peers when the lock is taken. -/
theorem setSessions_fresh (env : Env S) (s : Node S) :
    Safe (machine env) countersContract .setSessions (fun _ b _ => b = false) setSessions false
      s := by
  have hC := countersContract_fits env
  refine Safe.perform_bind fun s₁ _ hok => ⟨⟨fun hi => absurd rfl hi, id⟩, ?_⟩
  cases hp : ((machine env).exec .peers s₁).1 with
  | error e => exact fun _ _ => rfl
  | ok peers =>
      have hwait : (execPeers env s₁).2.waiting = some (peers.map Peer.key) := by
        have hpeers : env.peers s₁.clock = .ok peers := hp
        simp only [execPeers, hpeers]
      refine Safe.withLock hC (fun s₂ hr₂ _ => ?_) (fun _ _ _ _ => trivial)
        fun hcalm hi => (hcalm hi).awaited
      have hread : ReadLast (peers.map Peer.key) s₂ := by
        have haw := hr₂ rfl
        refine ReadLast.congr (s := (execPeers env s₁).2) haw.readAt (fun k hk => ?_)
          (fun k _ => hok.2 k)
        exact haw.addedAt k (by
          show k ∈ (execPeers env s₁).2.waiting.getD []
          rw [hwait]; exact hk)
      have hlist : ∀ p ∈ peers, p.key ∈ peers.map Peer.key := fun p hp => List.mem_map_of_mem hp
      refine Safe.mono ?_ (setEach_fresh env peers hlist hread)
      rintro errs b t ⟨rfl, -⟩
      exact ⟨rfl, trivial, fun _ _ => rfl⟩

/-! ## Every run -/

theorem nodeProgram_fresh (cfg : Config) (env : Env S) (i : Actor) (req : AdmitRequest)
    (s : Node S) :
    Safe (machine env) countersContract i Released (nodeProgram cfg i req) false s := by
  have hdone : ∀ {α : Type} {p : NodeM α},
      Safe (machine env) countersContract i (fun _ b _ => b = false) p false s →
      Safe (machine env) countersContract i Released (p >>= fun _ => Prog.ret ()) false s :=
    fun hp => Safe.bind (Safe.mono (fun _ _ _ hb _ _ => hb) hp) (countersContract_fits env)
  cases i with
  | setSessions => exact hdone (setSessions_fresh env s)
  | updateSessions =>
      exact hdone (unmetered_safe env s (updateSessions_bracketed.mono fun _ ho => ho.unmetered))
  | handshake n => exact hdone (unmetered_safe env s (admitSession_bracketed cfg req))

/-- **Without readmission the counters are fresh.**  Whatever service the node runs
and whichever calls fail, in every state a run reaches in which no key on the list
of a waiting pass is added, each use `setSessions` has made of a peer's counters
was of counters read after that peer was added. -/
theorem counters_fresh (cfg : Config) (env : Env S) (svc : S.State)
    {c : Effect.Config Op.Res Actor (Node S)}
    (h : Reach (nodeSystem cfg env) NoReadmission (Node.fresh svc) c) : CountersFresh c.state := by
  have hacq : ∀ {P : Node S → Prop} (i : Actor) (s : Node S), P s → P { s with waiting := none } →
      P ((machine env).acquire i s) := by
    intro P i s hs hw
    show P (if i = .setSessions then { s with waiting := none } else s)
    split
    · exact hw
    · exact hs
  have hbefore : ∀ {c : Effect.Config Op.Res Actor (Node S)},
      Reach (nodeSystem cfg env) NoReadmission (Node.fresh svc) c → AddedBefore c.state :=
    Reach.state (fun _ => Nat.le_refl 0) (fun i s hs => hacq i s hs hs)
      fun o _ hs => hs.exec env o
  refine Reach.preserves (C := countersContract) (countersContract_fits env)
    (nodeProgram_fresh cfg env) trivial (fun u hu => absurd hu (by simp [Node.fresh]))
    (fun i s hs => hacq i s hs hs) (fun i b o s _ hown hs => ?_) (h.strengthen hbefore)
  cases b with
  | false => exact hown.2 hs
  | true => exact hown.2 hs

/-! ## A key that changes hands while a pass waits -/

/-- The peer of `firstRequest`, with seven bytes each way on its counters. -/
def countedPeer : Peer := ⟨firstRequest.peerKey, 7, 7, by decide⟩

/-- A chain that drops session 1 after eleven calls and has every other session
active. -/
def droppingEnv : Env xray :=
  { calmEnv with
    peers := fun _ => .ok [countedPeer]
    querySession := fun t id =>
      if id = 1 ∧ 11 ≤ t then .ok none
      else .ok (some
        { id := id, accAddress := "client", nodeAddress := "node", status := .active }) }

/-- The same client's next session, under the same key. -/
def secondRequest : AdmitRequest :=
  ⟨"client", 2, firstRequest.peerData, firstRequest.accAddress_ne, by decide⟩

/-- Start a thread and let it take some steps. -/
def turn (i : Actor) (req : AdmitRequest) (steps : Nat) : List (Choice Actor AdmitRequest) :=
  .start i req :: List.replicate steps (.step i)

/-- A handshake, then a whole `set_sessions` pass. -/
def passAlone : List (Choice Actor AdmitRequest) :=
  turn (.handshake 0) firstRequest 12 ++ turn .setSessions firstRequest 5

theorem counters_fresh_after_pass :
    ∃ c, (Effect.Config.idle (Node.fresh (Users.empty : Users xrayCheck))).runs
        (nodeSystem ⟨4, "node"⟩ droppingEnv) NoReadmission passAlone = some c ∧
      c.state.usage.length = 1 ∧ c.owner = none ∧ CountersFresh c.state := by
  have hrun : ((Effect.Config.idle (Node.fresh (Users.empty : Users xrayCheck))).runs
      (nodeSystem ⟨4, "node"⟩ droppingEnv) NoReadmission passAlone).map
        (fun c => (c.state.usage.length, c.owner)) = some (1, none) := by decide
  obtain ⟨c, hc, hend⟩ := Option.map_eq_some_iff.1 hrun
  simp only [Prod.mk.injEq] at hend
  exact ⟨c, hc, hend.1, hend.2, counters_fresh _ _ _ (Reach.runs .idle hc)⟩

/-- The pass reads the counters and waits; meanwhile the session is dropped, its
peer and its row retired, and the key admitted again for session 2. -/
def passOvertaken : List (Choice Actor AdmitRequest) :=
  turn (.handshake 0) firstRequest 12 ++ turn .setSessions firstRequest 1 ++
    turn .updateSessions firstRequest 7 ++ turn (.handshake 1) secondRequest 12 ++
    List.replicate 4 (.step .setSessions)

/-- **A readmitted key is charged with its predecessor's bytes**: the counters read
for session 1 are written into the row of session 2. -/
theorem readmitted_key_charged :
    ∃ c, Reach (nodeSystem ⟨4, "node"⟩ droppingEnv) (fun _ _ _ => True)
        (Node.fresh (Users.empty : Users xrayCheck)) c ∧
      c.state.table.rows.map (fun r => (r.id, r.upload, r.download)) = [(2, 7, 7)] ∧
      ¬ CountersFresh c.state := by
  have hrun : ((Effect.Config.idle (Node.fresh (Users.empty : Users xrayCheck))).runs
      (nodeSystem ⟨4, "node"⟩ droppingEnv) (fun _ _ _ => True) passOvertaken).map
        (fun c => (c.state.table.rows.map (fun r => (r.id, r.upload, r.download)),
          c.state.usage.map (fun u => (u.readAt, u.addedAt)))) =
      some ([(2, 7, 7)], [(10, 24)]) := by decide
  obtain ⟨c, hc, hend⟩ := Option.map_eq_some_iff.1 hrun
  simp only [Prod.mk.injEq] at hend
  refine ⟨c, Reach.runs .idle hc, hend.1, fun hfresh => ?_⟩
  have hstale : (10, 24) ∈ c.state.usage.map (fun u => (u.readAt, u.addedAt)) := by
    rw [hend.2]; exact List.mem_singleton.2 rfl
  obtain ⟨u, hu, heq⟩ := List.mem_map.1 hstale
  have hle := hfresh u hu
  simp only [Prod.mk.injEq] at heq
  omega

end Dvpnd
