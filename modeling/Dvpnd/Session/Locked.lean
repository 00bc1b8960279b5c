import Dvpnd.Session.Handshake

/-!
# What a handshake learns under the lock

The locked part of `admit` checks the capacity again before it adds the peer.  Whatever else the
threads promise one another, as long as nobody touches the table while a thread holds the lock,
what that check read is still so when the row is written.

* `Steady` — what a thread that holds the lock knows, kept by the others and by what it asks.
* `Steady.checkCapacity` — **the check passes only for a session and a key without a row**.
-/

namespace Dvpnd

open Effect

variable {S : Service} {env : Env S} {C : Contract Op Actor (Node S)} {i : Actor} {T : Table}
  {A : Node S → Prop} {s : Node S} {req : AdmitRequest}

/-- The calls that only ask; a report to the chain is not one of them. -/
def Op.IsQuery : Op → Prop
  | .peerCount | .hasPeer _ | .count _ | .find _ _ | .querySession _ | .querySubscription _
  | .queryAllocation _ _ => True
  | _ => False

/-- While thread `i` holds the lock `A` stays, whatever the others do that the contract allows and
whatever `i` asks; and `A` says which table there is. -/
structure Steady (env : Env S) (C : Contract Op Actor (Node S)) (i : Actor) (T : Table)
    (A : Node S → Prop) : Prop where
  fits : C.Fits (machine env)
  table : ∀ {t : Node S}, A t → t.table = T
  calm : ∀ {t t' : Node S}, C.calm i t t' → A t → A t'
  query : ∀ {o : Op} {t : Node S}, o.IsQuery → C.ok i o t → A t →
    C.guar i t (exec env o t).2 ∧ A (exec env o t).2

/-- The session and the key of the request are new to the table. -/
structure NewTo (req : AdmitRequest) (T : Table) : Prop where
  id : ∀ r ∈ T.rows, r.id ≠ req.id
  key : ∀ r ∈ T.rows, r.key ≠ req.peerKey

namespace Steady

/-- One question under the lock, then the rest, knowing that the answer is about the table `T`. -/
theorem ask (hA : Steady env C i T A) {α : Type} {o : Op} (ho : o.IsQuery) {f : o.Res → NodeM α}
    {Q : α → Bool → Node S → Prop} (hs : A s)
    (hf : ∀ t, t.table = T → ∀ t', A t' → Safe (machine env) C i Q (f (exec env o t).1) true t') :
    Safe (machine env) C i Q (call o >>= f) true s := by
  refine Safe.perform_bind fun t hcalm hok => ?_
  have ht := hA.calm hcalm hs
  obtain ⟨hguar, ht'⟩ := hA.query ho hok ht
  exact ⟨hguar, hf t (hA.table ht) _ ht'⟩

/-- A stretch of questions under the lock. -/
theorem queries (hA : Steady env C i T A) {α : Type} {p : NodeM α} (hp : Prog.Plain Op.IsQuery p)
    (hs : A s) : Safe (machine env) C i (fun _ b t => b = true ∧ A t) p true s := by
  refine Safe.of_plain (A := A) (R := fun _ => True) ?_ ?_ ?_ hp
    (Prog.Yields.of_forall (fun _ => trivial) _) hs
  · exact fun _ _ hcalm ht => hA.calm hcalm ht
  · exact fun _ _ ho hok ht => hA.query ho hok ht
  · exact fun _ _ _ ht => ⟨rfl, ht⟩

/-- The thread is done for now, and knows `A` still. -/
theorem done (hA : Steady env C i T A) {α : Type} {a : α} {R : α → Prop} (ha : R a) (hs : A s) :
    Safe (machine env) C i (fun a b t => b = true ∧ A t ∧ R a) (Prog.ret a) true s :=
  fun _ hcalm => ⟨rfl, hA.calm hcalm hs, ha⟩

theorem sessionExists (hA : Steady env C i T A) (cond : Session) (hs : A s) :
    Safe (machine env) C i (fun r b t => b = true ∧ A t ∧ (r = .ok false → T.find cond = []))
      (Dvpnd.sessionExists cond) true s := by
  refine hA.ask (o := .count cond) trivial hs fun t ht t' ht' => ?_
  cases hc : (exec env (.count cond) t).1 with
  | error e => exact hA.done nofun ht'
  | ok n =>
      refine hA.done (fun hr => ?_) ht'
      have hn : n = 0 := by simpa using hr
      rw [← ht]
      exact List.eq_nil_of_length_eq_zero ((count_ok hc).trans hn)

/-- **The locked check passes only for a session and a key without a row.** -/
theorem checkCapacity (hA : Steady env C i T A) (cfg : Config) (hs : A s) :
    Safe (machine env) C i (fun r b t => b = true ∧ A t ∧ (r = none → NewTo req T))
      (Dvpnd.checkCapacity cfg req) true s := by
  have hrefuse : ∀ {e : ApiError} {t : Node S}, A t →
      Safe (machine env) C i (fun r b t => b = true ∧ A t ∧ (r = none → NewTo req T))
        (Prog.ret (some e)) true t := fun ht => hA.done nofun ht
  refine hA.ask (o := .peerCount) trivial hs fun t _ t' ht' => ?_
  split
  · exact hrefuse ht'
  refine Safe.bind (Safe.mono ?_ (hA.sessionExists { id := req.id } ht')) hA.fits
  rintro r b t₁ ⟨rfl, ht₁, hid⟩
  rcases r with e | (_ | _)
  · exact hrefuse ht₁
  · refine Safe.bind (Safe.mono ?_ (hA.sessionExists { key := req.peerKey } ht₁)) hA.fits
    rintro r b t₂ ⟨rfl, ht₂, hkey⟩
    rcases r with e | (_ | _)
    · exact hrefuse ht₂
    · refine hA.done (fun _ => ⟨fun r hr he => ?_, fun r hr he => ?_⟩) ht₂
      · exact List.not_mem_nil (hid rfl ▸ Table.mem_find.2 ⟨hr, Session.satisfies_id.2 (.inr he)⟩)
      · exact List.not_mem_nil (hkey rfl ▸ Table.mem_find.2 ⟨hr, Session.satisfies_key.2 (.inr he)⟩)
    · exact hrefuse ht₂
  · exact hrefuse ht₁

end Steady

/-! ## The questions of an admission -/

theorem checkCapacity_queries (cfg : Config) (req : AdmitRequest) :
    Prog.Plain Op.IsQuery (checkCapacity cfg req) := by
  have hexists : ∀ cond, Prog.Plain Op.IsQuery (sessionExists cond) := by
    intro cond
    refine .perform_bind trivial fun r => ?_
    cases r with
    | error e => exact .ret _
    | ok n => exact .ret _
  refine .perform_bind trivial fun count => ?_
  split
  · exact .ret _
  · refine (hexists _).bind fun r => ?_
    rcases r with e | (_ | _)
    · exact .ret _
    · refine (hexists _).bind fun r => ?_
      rcases r with e | (_ | _) <;> exact .ret _
    · exact .ret _

theorem queryPlan_queries (req : AdmitRequest) (a : Admission) (id : Nat) :
    Prog.Plain Op.IsQuery (queryPlan req a id) := by
  refine .perform_bind trivial fun r => ?_
  rcases r with e | (_ | subscription)
  · exact .ret _
  · exact .ret _
  · dsimp only
    split
    · exact .ret _
    · refine .perform_bind trivial fun r => ?_
      rcases r with e | (_ | alloc) <;> exact .ret _

theorem remainingBytes_queries (req : AdmitRequest) (a : Admission) :
    Prog.Plain Op.IsQuery (remainingBytes req a) := by
  unfold remainingBytes
  split
  · exact .ret _
  · refine .perform_bind trivial fun r => ?_
    cases r with
    | error e => exact .ret _
    | ok items =>
        dsimp only
        split
        · exact .ret _
        · split <;> exact .ret _

/-- `evict` asks for each peer and drops it. -/
theorem evict_plain {P : Op → Prop} (hhas : ∀ data, P (.hasPeer data))
    (hremove : ∀ data, P (.removePeer .eviction data)) (items : List Session) :
    Prog.Plain P (evict items) := by
  induction items with
  | nil => exact .ret _
  | cons item rest ih =>
      refine (removePeerIfExists_plain hhas hremove _).bind fun r => ?_
      cases r with
      | some e => exact .ret _
      | none => exact ih

end Dvpnd
