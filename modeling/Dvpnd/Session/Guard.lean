import Dvpnd.Lib.Lists
import Dvpnd.Lib.Steps
import Dvpnd.Services.ParseCIDR

/-!
# The guard of the handshake routes

`api/session/guard.go`: a handshake must come over TLS, and each client block has so many
attempts in a window.  A window starts with the first attempt after the one before has ended,
and all counts are dropped with it.

* `RateLimiter.allow`, `limitHandshakes`, `guard` — the limiter and the two checks.
* `Guarded` — a limiter and the attempts it has seen, each with its window and the answer.
* `Books` — **the counts are those of the current window**, in every run (`Guarded.Inv`).
* `attempts_limited` — what follows: the limit in a window and in any interval of its length,
  the wait, the first refusal, and what `Retry-After` promises.
-/

namespace Dvpnd

/-! ## The limiter -/

/-- `rateLimiter`.  A time is in nanoseconds after the zero `time.Time`, where `start` begins. -/
structure RateLimiter where
  limit : Nat
  window : Nat
  start : Nat := 0
  counts : String → Nat := fun _ => 0
  warned : Bool := false

/-- What `allow` returns. -/
structure Answer where
  ok : Bool
  wait : Nat
  first : Bool
  deriving DecidableEq

/-- The window of an attempt: the current one, or a new one when that has ended. -/
def RateLimiter.renew (l : RateLimiter) (now : Nat) : RateLimiter :=
  if l.window ≤ now - l.start then
    { l with start := now, counts := fun _ => 0, warned := false }
  else l

/-- `allow`. -/
def RateLimiter.allow (l : RateLimiter) (now : Nat) (key : String) : Answer × RateLimiter :=
  let l := l.renew now
  if l.limit ≤ l.counts key then
    (⟨false, l.start + l.window - now, !l.warned⟩, { l with warned := true })
  else (⟨true, 0, false⟩, { l with counts := Function.update l.counts key (l.counts key + 1) })

/-! ## The checks -/

/-- `clientBlock`: the IPv4 address, or the /64 of an IPv6 one. -/
def clientBlock (remoteIP : String) : String :=
  match parseIP remoteIP.toList with
  | none => remoteIP
  | some ip =>
      match to4 ip with
      | some v4 => ipText v4
      | none => ipText (maskIP ip (cidrMask 64 16))

/-- The value of `Retry-After`, in seconds. -/
def retryAfter (wait : Nat) : Nat := wait / 10 ^ 9 + 1

/-- An answer in place of the handler's: its status, the header, and the error in its body. -/
structure Refusal where
  status : Nat
  retryAfter : Option Nat
  code : Nat
  message : String
  deriving DecidableEq

/-- `requireTLS`. -/
def requireTLS (tls : Bool) : Option Refusal :=
  if tls then none else some ⟨403, none, 11, "the handshake must be made over https"⟩

/-- `limitHandshakes`. -/
def limitHandshakes (l : RateLimiter) (now : Nat) (remoteIP : String) :
    Option Refusal × RateLimiter :=
  match l.allow now (clientBlock remoteIP) with
  | (⟨false, wait, _⟩, l) =>
      (some ⟨429, some (retryAfter wait), 12, "too many handshake attempts; retry later"⟩, l)
  | (⟨true, _, _⟩, l) => (none, l)

/-- What `RegisterRoutes` puts in front of a handshake.  A request over plain HTTP is not
counted. -/
def guard (l : RateLimiter) (now : Nat) (tls : Bool) (remoteIP : String) :
    Option Refusal × RateLimiter :=
  match requireTLS tls with
  | some r => (some r, l)
  | none => limitHandshakes l now remoteIP

/-- The limiter of the routes: `handshakeLimit` and `handshakeWindow`. -/
def handshakeLimiter : RateLimiter where
  limit := 30
  window := 60 * 10 ^ 9

example : (guard handshakeLimiter (10 ^ 18) true "::ffff:10.1.2.3").1 = none ∧
    clientBlock "::ffff:10.1.2.3" = "10.1.2.3" ∧ clientBlock "2001:db8::7:1" = "2001:db8::" := by
  decide

/-! ## Runs -/

/-- An attempt: when and by whom, the start of its window, and the answer. -/
structure Attempt where
  time : Nat
  key : String
  start : Nat
  answer : Answer

/-- The attempt as the limiter sees it. -/
def RateLimiter.attempt (l : RateLimiter) (now : Nat) (key : String) : Attempt :=
  ⟨now, key, (l.renew now).start, (l.allow now key).1⟩

/-- A limiter and the attempts it has seen, the last at `clock`. -/
structure Guarded where
  limiter : RateLimiter
  attempts : List Attempt := []
  clock : Nat := 0

/-- One more call of `allow`, not before the last. -/
def Guarded.step (s : Guarded) (a : Nat × String) : Option Guarded :=
  if a.1 < s.clock then none
  else some ⟨(s.limiter.allow a.1 a.2).2, s.attempts ++ [s.limiter.attempt a.1 a.2], a.1⟩

/-- `newRateLimiter`. -/
def Guarded.new (limit window : Nat) : Guarded := ⟨{ limit, window }, [], 0⟩

/-- The attempts of a key that were allowed in the window with this start. -/
def allowedIn (start : Nat) (key : String) (as : List Attempt) : Nat :=
  as.countP fun a => a.answer.ok && (a.start == start && a.key == key)

/-- The windows of the attempts up to the one that starts at `start`: no two overlap. -/
structure Windows (window start : Nat) (as : List Attempt) : Prop where
  earlier : ∀ a ∈ as, a.start = start ∨ a.start + window ≤ start
  within : ∀ a ∈ as, a.start ≤ a.time ∧ a.time < a.start + window
  sorted : as.Pairwise fun a b => a.start = b.start ∨ a.start + window ≤ b.start

/-- The limiter's fields tell what the attempts of its window were, and no window has more of
a key than the limit. -/
structure Books (limit window : Nat) (l : RateLimiter) (as : List Attempt) : Prop
    extends Windows window l.start as where
  limit_eq : l.limit = limit
  window_eq : l.window = window
  counts : ∀ key, l.counts key = allowedIn l.start key as
  warned : l.warned = true ↔ ∃ a ∈ as, a.start = l.start ∧ a.answer.ok = false
  limited : ∀ start key, allowedIn start key as ≤ limit

section

variable {limit window now : Nat} {key : String} {l : RateLimiter} {as : List Attempt}
  {a : Attempt}

theorem Windows.push {start : Nat} (h : Windows window start as) (ha : a.start = start)
    (htime : a.start ≤ a.time ∧ a.time < a.start + window) : Windows window start (as ++ [a]) where
  earlier b hb := by
    rcases List.mem_append.1 hb with hb | hb
    · exact h.earlier b hb
    · exact .inl (List.mem_singleton.1 hb ▸ ha)
  within b hb := by
    rcases List.mem_append.1 hb with hb | hb
    · exact h.within b hb
    · exact List.mem_singleton.1 hb ▸ htime
  sorted := by
    refine List.pairwise_append.2 ⟨h.sorted, List.pairwise_singleton _ _, fun b hb c hc => ?_⟩
    rw [List.mem_singleton.1 hc, ha]
    exact h.earlier b hb

theorem allowedIn_eq_zero {start : Nat} (h : ∀ a ∈ as, a.start ≠ start) :
    allowedIn start key as = 0 := by
  refine List.countP_eq_zero.2 fun a ha => ?_
  simp [h a ha]

theorem allowedIn_push (start : Nat) (key : String) (as : List Attempt) (a : Attempt) :
    allowedIn start key (as ++ [a]) = allowedIn start key as +
      if a.answer.ok = true ∧ a.start = start ∧ a.key = key then 1 else 0 := by
  simp [allowedIn, List.countP_append, List.countP_cons]

/-- A new window has no attempts yet. -/
theorem Books.renew (hwindow : 0 < window) (h : Books limit window l as) (hstart : l.start ≤ now) :
    Books limit window (l.renew now) as ∧ (l.renew now).start ≤ now ∧
      now < (l.renew now).start + window := by
  unfold RateLimiter.renew
  have hw := h.window_eq
  split
  · rename_i hended
    have hold : ∀ a ∈ as, a.start + window ≤ now := by
      intro a ha
      rcases h.earlier a ha with heq | hle
      · omega
      · omega
    have hnew : ∀ a ∈ as, a.start ≠ now := by
      intro a ha heq
      have := hold a ha
      omega
    refine ⟨{ h with
      earlier := fun a ha => .inr (hold a ha)
      counts := fun key => (allowedIn_eq_zero hnew).symm
      warned := ?_ }, Nat.le_refl _, Nat.lt_add_of_pos_right hwindow⟩
    exact iff_of_false Bool.false_ne_true fun ⟨a, ha, heq, _⟩ => hnew a ha heq
  · rename_i hcurrent
    exact ⟨h, hstart, by omega⟩

/-- The two answers of the limiter. -/
theorem RateLimiter.allow_cases (l : RateLimiter) (now : Nat) (key : String) :
    (l.renew now).limit ≤ (l.renew now).counts key ∧ l.allow now key =
      (⟨false, (l.renew now).start + (l.renew now).window - now, !(l.renew now).warned⟩,
        { l.renew now with warned := true }) ∨
    (l.renew now).counts key < (l.renew now).limit ∧ l.allow now key =
      (⟨true, 0, false⟩, { l.renew now with
        counts := Function.update (l.renew now).counts key ((l.renew now).counts key + 1) }) := by
  unfold RateLimiter.allow
  dsimp only
  split
  · exact .inl ⟨‹_›, rfl⟩
  · exact .inr ⟨Nat.lt_of_not_le ‹_›, rfl⟩

/-- **One more attempt keeps the books**, whether it is allowed or refused. -/
theorem Books.attempt (hwindow : 0 < window) (h : Books limit window l as) (hstart : l.start ≤ now)
    (key : String) : Books limit window (l.allow now key).2 (as ++ [l.attempt now key]) := by
  obtain ⟨hr, hlo, hhi⟩ := h.renew hwindow hstart
  unfold RateLimiter.attempt
  rcases l.allow_cases now key with ⟨hfull, heq⟩ | ⟨hfree, heq⟩
  · rw [heq]
    generalize l.renew now = r at hr hlo hhi
    have hsame : ∀ start key', allowedIn start key' (as ++ [⟨now, key, r.start,
        ⟨false, r.start + r.window - now, !r.warned⟩⟩]) = allowedIn start key' as := by
      intro start key'
      rw [allowedIn_push, if_neg (fun hn => Bool.false_ne_true hn.1), Nat.add_zero]
    refine { hr.toWindows.push rfl ⟨hlo, hhi⟩ with
      limit_eq := hr.limit_eq
      window_eq := hr.window_eq
      counts := fun key' => (hr.counts key').trans (hsame _ _).symm
      warned := iff_of_true rfl ⟨_, List.mem_append_right _ (List.mem_singleton_self _), rfl, rfl⟩
      limited := fun start key' => (hsame start key').le.trans (hr.limited start key') }
  · rw [heq]
    generalize l.renew now = r at hr hlo hhi hfree
    have hcount : ∀ start key', allowedIn start key' (as ++ [⟨now, key, r.start, ⟨true, 0, false⟩⟩]) =
        allowedIn start key' as + if r.start = start ∧ key = key' then 1 else 0 := by
      intro start key'
      rw [allowedIn_push]
      simp
    refine { hr.toWindows.push rfl ⟨hlo, hhi⟩ with
      limit_eq := hr.limit_eq
      window_eq := hr.window_eq
      counts := fun key' => ?_
      warned := ?_
      limited := fun start key' => ?_ }
    · rw [hcount, ← hr.counts]
      by_cases hkey : key = key'
      · subst hkey
        simp
      · simp [hkey, Function.update_of_ne (Ne.symm hkey)]
    · rw [hr.warned]
      simp
    · rw [hcount]
      split
      · rename_i hsame
        rw [← hsame.1, ← hsame.2, ← hr.counts, ← hr.limit_eq]
        exact hfree
      · exact hr.limited start key'

/-- In a run, the limiter's books are right, and were right before each attempt. -/
structure Guarded.Inv (limit window : Nat) (s : Guarded) : Prop where
  books : Books limit window s.limiter s.attempts
  clock : s.limiter.start ≤ s.clock
  explained : ∀ {pre a post}, s.attempts = pre ++ a :: post →
    ∃ l, Books limit window l pre ∧ l.start ≤ a.time ∧ a = l.attempt a.time a.key

theorem Guarded.Inv.new (limit window : Nat) : (Guarded.new limit window).Inv limit window where
  books :=
    { earlier := fun _ ha => absurd ha List.not_mem_nil
      within := fun _ ha => absurd ha List.not_mem_nil
      sorted := List.Pairwise.nil
      limit_eq := rfl
      window_eq := rfl
      counts := fun _ => rfl
      warned := iff_of_false Bool.false_ne_true fun ⟨_, ha, _⟩ => absurd ha List.not_mem_nil
      limited := fun _ _ => Nat.zero_le _ }
  clock := Nat.le_refl _
  explained h := absurd h.symm (by simp [Guarded.new])

theorem Guarded.Inv.step (hwindow : 0 < window) {s s' : Guarded} {call : Nat × String}
    (hi : s.Inv limit window) (h : s.step call = some s') : s'.Inv limit window := by
  obtain ⟨now, key⟩ := call
  unfold Guarded.step at h
  split at h
  · cases h
  · rename_i hclock
    cases h
    have hstart : s.limiter.start ≤ now := hi.clock.trans (Nat.le_of_not_lt hclock)
    obtain ⟨-, hlo, -⟩ := hi.books.renew hwindow hstart
    refine ⟨hi.books.attempt hwindow hstart key, ?_, fun {pre a post} heq => ?_⟩
    · rcases s.limiter.allow_cases now key with ⟨-, heq⟩ | ⟨-, heq⟩
      · rw [heq]
        exact hlo
      · rw [heq]
        exact hlo
    · rcases Lists.concat_eq_append_cons heq with ⟨-, rfl, rfl⟩ | ⟨post', -, hold⟩
      · exact ⟨s.limiter, hi.books, hstart, rfl⟩
      · exact hi.explained hold

/-! ## What a run keeps -/

/-- Allowed attempts of one key that are all of one window are within the limit. -/
theorem countP_le_limit (hlimited : ∀ start key, allowedIn start key as ≤ limit) (key : String)
    {q : Attempt → Bool} (hq : ∀ a ∈ as, q a = true → a.answer.ok = true ∧ a.key = key)
    (hsame : ∀ a ∈ as, ∀ b ∈ as, q a = true → q b = true → a.start = b.start) :
    as.countP q ≤ limit := by
  by_cases hnone : ∀ a ∈ as, ¬ q a = true
  · rw [List.countP_eq_zero.2 hnone]
    exact Nat.zero_le _
  · obtain ⟨a, ha, hqa⟩ : ∃ a ∈ as, q a = true := by simpa using hnone
    refine (List.countP_mono_left fun b hb hqb => ?_).trans (hlimited a.start key)
    obtain ⟨hok, hkey⟩ := hq b hb hqb
    simp [hok, hkey, hsame b hb a ha hqb hqa]

/-- Two windows are the same, or one ends before the other. -/
theorem Windows.apart {start : Nat} (h : Windows window start as) {a b : Attempt} (ha : a ∈ as)
    (hb : b ∈ as) : a.start = b.start ∨ a.start + window ≤ b.start ∨ b.start + window ≤ a.start := by
  obtain ⟨i, hi, rfl⟩ := List.getElem_of_mem ha
  obtain ⟨j, hj, rfl⟩ := List.getElem_of_mem hb
  rcases Nat.lt_trichotomy i j with hij | rfl | hij
  · rcases List.pairwise_iff_getElem.1 h.sorted i j hi hj hij with heq | hle
    · exact .inl heq
    · exact .inr (.inl hle)
  · exact .inl rfl
  · rcases List.pairwise_iff_getElem.1 h.sorted j i hj hi hij with heq | hle
    · exact .inl heq.symm
    · exact .inr (.inr hle)

/-- The allowed attempts of a key from a time on, for as long as a window. -/
def allowedFrom (window start : Nat) (key : String) (as : List Attempt) : Nat :=
  as.countP fun a => a.answer.ok && (a.key == key && (start ≤ a.time && a.time < start + window))

/-- An interval of a window's length meets at most two windows, one that has started before
it and one that starts in it. -/
theorem Books.allowedFrom_le (h : Books limit window l as) (start : Nat) (key : String) :
    allowedFrom window start key as ≤ 2 * limit := by
  unfold allowedFrom
  rw [List.countP_eq_countP_filter_add _ _ fun a => decide (a.start < start), List.countP_filter,
    List.countP_filter, Nat.two_mul]
  refine Nat.add_le_add ?_ ?_
  · refine countP_le_limit h.limited key (fun a _ hq => ?_) fun a ha b hb hqa hqb => ?_
    · simp only [Bool.and_eq_true, beq_iff_eq] at hq
      exact ⟨hq.1.1, hq.1.2.1⟩
    · simp only [Bool.and_eq_true, decide_eq_true_eq] at hqa hqb
      have := h.within a ha
      have := h.within b hb
      have := h.apart ha hb
      omega
  · refine countP_le_limit h.limited key (fun a _ hq => ?_) fun a ha b hb hqa hqb => ?_
    · simp only [Bool.and_eq_true, beq_iff_eq] at hq
      exact ⟨hq.1.1, hq.1.2.1⟩
    · simp only [Bool.and_eq_true, Bool.not_eq_true', decide_eq_true_eq, decide_eq_false_iff_not]
        at hqa hqb
      have := h.within a ha
      have := h.within b hb
      have := h.apart ha hb
      omega

/-- What the limiter answers, by what it has seen: an attempt is refused when its key has had
its share of the window, is told to wait for the window's end, and is the first when none was
refused before. -/
structure Attempt.Explained (limit window : Nat) (as : List Attempt) (a : Attempt) : Prop where
  ends : a.time < a.start + window
  ok : a.answer.ok = true ↔ allowedIn a.start a.key as < limit
  wait : a.answer.ok = false → a.answer.wait = a.start + window - a.time ∧ 0 < a.answer.wait ∧
    a.answer.wait ≤ window
  first : a.answer.first = true ↔ a.answer.ok = false ∧
    ∀ b ∈ as, b.start = a.start → b.answer.ok = true

theorem Books.explained (hwindow : 0 < window) (h : Books limit window l as)
    (hstart : l.start ≤ now) (key : String) : (l.attempt now key).Explained limit window as := by
  obtain ⟨hr, hlo, hhi⟩ := h.renew hwindow hstart
  unfold RateLimiter.attempt
  rcases l.allow_cases now key with ⟨hfull, heq⟩ | ⟨hfree, heq⟩
  · rw [heq, hr.window_eq]
    rw [hr.limit_eq, hr.counts] at hfull
    refine ⟨hhi, iff_of_false Bool.false_ne_true (Nat.not_lt.2 hfull), fun _ => ⟨rfl, ?_, ?_⟩, ?_⟩
    · show 0 < (l.renew now).start + window - now
      omega
    · show (l.renew now).start + window - now ≤ window
      omega
    · show (!(l.renew now).warned) = true ↔ _
      rw [Bool.not_eq_true', ← Bool.not_eq_true, hr.warned]
      simp
  · rw [heq]
    rw [hr.limit_eq, hr.counts] at hfree
    exact ⟨hhi, iff_of_true rfl hfree, fun hno => absurd hno (by simp), by simp⟩

/-- After the time it was told to wait, a key that was refused is in a new window, and has made
no attempt there. -/
theorem Attempt.Explained.retry (hlimit : 1 ≤ limit) {pre mid : List Attempt} {b : Attempt} {start : Nat}
    (hwindows : Windows window start (pre ++ a :: mid)) (ha : a.Explained limit window pre)
    (hb : b.Explained limit window (pre ++ a :: mid)) (hrefused : a.answer.ok = false)
    (hkey : b.key = a.key) (hmid : ∀ c ∈ mid, c.key ≠ a.key)
    (htime : a.time + retryAfter a.answer.wait * 10 ^ 9 ≤ b.time) : b.answer.ok = true := by
  have hlater : a.start < b.start := by
    obtain ⟨hwait, -⟩ := ha.wait hrefused
    have hends := hb.ends
    unfold retryAfter at htime
    omega
  have hsorted := List.pairwise_append.1 hwindows.sorted
  refine hb.ok.2 (Nat.lt_of_lt_of_le ?_ hlimit)
  refine Nat.lt_one_iff.2 (List.countP_eq_zero.2 fun c hc hcount => ?_)
  simp only [Bool.and_eq_true, beq_iff_eq] at hcount
  obtain ⟨-, hcstart, hckey⟩ := hcount
  rcases List.mem_append.1 hc with hc | hc
  · have := hsorted.2.2 c hc a List.mem_cons_self
    omega
  · rcases List.mem_cons.1 hc with rfl | hc
    · omega
    · exact hmid c hc (hckey.trans hkey)

/-- **The limiter keeps its promises** in every run with times that do not decrease: no key has
more than the limit in a window, or twice that in any interval of its length; a refusal waits
for a positive time, at most a window; the first refusal of each window is the one that is
flagged; and a refused key that waits for `Retry-After` is let through. -/
theorem attempts_limited (limit window : Nat) (hlimit : 1 ≤ limit) (hwindow : 0 < window)
    (s : Guarded)
    (h : Steps.Reach Guarded.step (fun _ _ => True) (Guarded.new limit window) s) :
    (∀ start key, allowedIn start key s.attempts ≤ limit) ∧
    (∀ start key, allowedFrom window start key s.attempts ≤ 2 * limit) ∧
    (∀ a ∈ s.attempts, a.answer.ok = false → 0 < a.answer.wait ∧ a.answer.wait ≤ window) ∧
    (∀ pre a post, s.attempts = pre ++ a :: post →
      (a.answer.first = true ↔ a.answer.ok = false ∧
        ∀ b ∈ pre, b.start = a.start → b.answer.ok = true)) ∧
    ∀ pre a mid b post, s.attempts = pre ++ a :: (mid ++ b :: post) → a.answer.ok = false →
      b.key = a.key → (∀ c ∈ mid, c.key ≠ a.key) →
      a.time + retryAfter a.answer.wait * 10 ^ 9 ≤ b.time → b.answer.ok = true := by
  have hi : s.Inv limit window := h.invariant (.new limit window) fun hi _ hs => hi.step hwindow hs
  have hexplained : ∀ {pre a post}, s.attempts = pre ++ a :: post →
      (∃ start, Windows window start pre) ∧ a.Explained limit window pre := by
    intro pre a post heq
    obtain ⟨l, hbooks, hstart, ha⟩ := hi.explained heq
    have hexp := hbooks.explained hwindow hstart a.key
    rw [← ha] at hexp
    exact ⟨⟨_, hbooks.toWindows⟩, hexp⟩
  refine ⟨hi.books.limited, hi.books.allowedFrom_le, fun a ha hrefused => ?_,
    fun pre a post heq => (hexplained heq).2.first,
    fun pre a mid b post heq hrefused hkey hmid htime => ?_⟩
  · obtain ⟨pre, post, heq⟩ := List.append_of_mem ha
    exact ((hexplained heq).2.wait hrefused).2
  · have ha := (hexplained heq).2
    rw [← List.cons_append, ← List.append_assoc] at heq
    obtain ⟨⟨start, hwindows⟩, hb⟩ := hexplained heq
    exact ha.retry hlimit hwindows hb hrefused hkey hmid htime

/-- Two attempts in a window of three seconds for one, and a third when it is over. -/
theorem attempts_limited_retry :
    ∃ s, Steps.Reach Guarded.step (fun _ _ => True) (Guarded.new 1 (3 * 10 ^ 9)) s ∧
      s.attempts.map (·.answer) = [⟨true, 0, false⟩, ⟨false, 2 * 10 ^ 9, true⟩, ⟨true, 0, false⟩] ∧
      ∀ start key, allowedIn start key s.attempts ≤ 1 := by
  obtain ⟨s, hs, htest⟩ := Steps.exists_reach Guarded.step (fun _ _ => True)
    (Guarded.new 1 (3 * 10 ^ 9)) [(5 * 10 ^ 9, "a"), (6 * 10 ^ 9, "a"), (9 * 10 ^ 9, "a")]
    (fun s => s.attempts.map (·.answer) ==
      [⟨true, 0, false⟩, ⟨false, 2 * 10 ^ 9, true⟩, ⟨true, 0, false⟩]) (by decide)
  exact ⟨s, hs, eq_of_beq htest,
    (attempts_limited 1 (3 * 10 ^ 9) (by decide) (by decide) s hs).1⟩

end

end Dvpnd
