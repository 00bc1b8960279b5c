import Mathlib

/-!
# Tokens at the ends of a list

A **token** is one of finitely many non-empty lists.  Trimming takes tokens off the front of
a list for as long as it begins with one, and then off its end; white space in UTF-8, each
character of which is one to three bytes, is trimmed so.

* `trimLeft`, `trimRight`, `trim`.
* `Code` — no token begins another, so there is one way to take tokens off.
* `Padding` — a row of tokens; `Solid` — an element of no token, which trimming never takes.
* `trim_padded` — **what padding is put around is what trimming gives back**, when there is
  something solid at both ends of it; `trim_solid` — behind a solid element in front,
  trimming reaches only the end.
-/

namespace Tokens

variable {α : Type} [DecidableEq α] (ts : List (List α))

/-- The token a list begins with. -/
def first (s : List α) : Option (List α) := ts.find? fun t => decide (t <+: s)

/-- Take off up to `n` tokens from the front. -/
def strip : Nat → List α → List α
  | 0, s => s
  | n + 1, s =>
      match first ts s with
      | none => s
      | some t => strip n (s.drop t.length)

/-- Take the tokens off the front. -/
def trimLeft (s : List α) : List α := strip ts s.length s

/-- Take the tokens off the end. -/
def trimRight (s : List α) : List α := (trimLeft (ts.map List.reverse) s.reverse).reverse

/-- Take the tokens off the front and then off the end. -/
def trim (s : List α) : List α := trimRight ts (trimLeft ts s)

/-- No token is empty, and none begins another. -/
structure Code : Prop where
  ne_nil : ∀ t ∈ ts, t ≠ []
  eq_of_begins : ∀ t ∈ ts, ∀ u ∈ ts, t <+: u → t = u

/-- A row of tokens. -/
def Padding (p : List α) : Prop := ∃ us : List (List α), (∀ u ∈ us, u ∈ ts) ∧ p = us.flatten

/-- An element that is in no token. -/
def Solid (x : α) : Prop := ∀ t ∈ ts, x ∉ t

instance (x : α) : Decidable (Solid ts x) := inferInstanceAs (Decidable (∀ t ∈ ts, x ∉ t))

/-! ## Padding -/

omit [DecidableEq α] in
theorem Padding.nil : Padding ts [] := ⟨[], fun _ h => absurd h List.not_mem_nil, rfl⟩

variable {ts}

omit [DecidableEq α] in
theorem Padding.token {t : List α} (h : t ∈ ts) : Padding ts t :=
  ⟨[t], fun _ hu => List.mem_singleton.1 hu ▸ h, (List.append_nil t).symm⟩

omit [DecidableEq α] in
theorem Padding.reverse {p : List α} (hp : Padding ts p) :
    Padding (ts.map List.reverse) p.reverse := by
  obtain ⟨us, hus, rfl⟩ := hp
  refine ⟨(us.map List.reverse).reverse, fun u hu => ?_, List.reverse_flatten⟩
  obtain ⟨v, hv, rfl⟩ := List.mem_map.1 (List.mem_reverse.1 hu)
  exact List.mem_map_of_mem (hus v hv)

omit [DecidableEq α] in
theorem Solid.reverse {x : α} (hx : Solid ts x) : Solid (ts.map List.reverse) x := by
  intro t ht
  obtain ⟨u, hu, rfl⟩ := List.mem_map.1 ht
  rw [List.mem_reverse]
  exact hx u hu

/-! ## Taking tokens off the front -/

theorem first_spec {s t : List α} (h : first ts s = some t) : t ∈ ts ∧ t <+: s := by
  have hbegins := List.find?_some (p := fun t => decide (t <+: s)) h
  exact ⟨List.mem_of_find?_eq_some h, of_decide_eq_true hbegins⟩

theorem first_eq_none_iff {s : List α} : first ts s = none ↔ ∀ t ∈ ts, ¬ t <+: s := by
  simp only [first, List.find?_eq_none, decide_eq_true_eq]

theorem strip_of_first {s t : List α} (n : Nat) (h : first ts s = some t) :
    strip ts (n + 1) s = strip ts n (s.drop t.length) := by
  rw [strip, h]

theorem strip_eq_self {s : List α} (n : Nat) (h : ∀ t ∈ ts, ¬ t <+: s) : strip ts n s = s := by
  cases n with
  | zero => rfl
  | succ n => rw [strip, first_eq_none_iff.2 h]

section Code

variable (hc : Code ts)
include hc

/-- As many tokens as there are elements is as many as can come off. -/
theorem strip_eq_of_le {s : List α} {n m : Nat} (hn : s.length ≤ n) (hm : s.length ≤ m) :
    strip ts n s = strip ts m s := by
  induction n generalizing s m with
  | zero =>
      have hnil : s = [] := List.length_eq_zero_iff.1 (Nat.le_zero.1 hn)
      rw [hnil, strip_eq_self m fun t ht h => hc.ne_nil t ht (List.prefix_nil.1 h)]
      rfl
  | succ n ih =>
      cases hfirst : first ts s with
      | none =>
          have hnot := first_eq_none_iff.1 hfirst
          rw [strip_eq_self _ hnot, strip_eq_self _ hnot]
      | some t =>
          obtain ⟨ht, hpre⟩ := first_spec hfirst
          have hpos : 0 < t.length := List.length_pos_iff.2 (hc.ne_nil t ht)
          have hle := hpre.length_le
          obtain ⟨m, rfl⟩ : ∃ k, m = k + 1 := ⟨m - 1, by omega⟩
          rw [strip_of_first n hfirst, strip_of_first m hfirst]
          refine ih ?_ ?_ <;>
          · rw [List.length_drop]
            omega

/-- A token in front is the one that is found there. -/
theorem first_token_append {t : List α} (ht : t ∈ ts) (s : List α) :
    first ts (t ++ s) = some t := by
  cases hfirst : first ts (t ++ s) with
  | none => exact absurd (List.prefix_append t s) (first_eq_none_iff.1 hfirst t ht)
  | some u =>
      obtain ⟨hu, hpre⟩ := first_spec hfirst
      rcases List.prefix_or_prefix_of_prefix hpre (List.prefix_append t s) with h | h
      · rw [hc.eq_of_begins u hu t ht h]
      · rw [hc.eq_of_begins t ht u hu h]

theorem trimLeft_token_append {t : List α} (ht : t ∈ ts) (s : List α) :
    trimLeft ts (t ++ s) = trimLeft ts s := by
  have hpos : 0 < t.length := List.length_pos_iff.2 (hc.ne_nil t ht)
  obtain ⟨n, hn⟩ : ∃ n, (t ++ s).length = n + 1 :=
    ⟨(t ++ s).length - 1, by rw [List.length_append]; omega⟩
  rw [trimLeft, hn, strip_of_first n (first_token_append hc ht s), List.drop_left]
  refine strip_eq_of_le hc ?_ le_rfl
  rw [List.length_append] at hn
  omega

/-- Padding in front makes no difference. -/
theorem trimLeft_padding_append {p : List α} (hp : Padding ts p) (s : List α) :
    trimLeft ts (p ++ s) = trimLeft ts s := by
  obtain ⟨us, hus, rfl⟩ := hp
  induction us with
  | nil => rfl
  | cons u us ih =>
      rw [List.flatten_cons, List.append_assoc,
        trimLeft_token_append hc (hus u List.mem_cons_self)]
      exact ih fun v hv => hus v (List.mem_cons_of_mem u hv)

theorem trimLeft_padding {p : List α} (hp : Padding ts p) : trimLeft ts p = [] := by
  have h := trimLeft_padding_append hc hp []
  rw [List.append_nil] at h
  exact h

/-- Nothing comes off in front of a solid element. -/
theorem trimLeft_solid_cons {x : α} (hx : Solid ts x) (s : List α) :
    trimLeft ts (x :: s) = x :: s := by
  refine strip_eq_self _ fun t ht h => ?_
  cases t with
  | nil => exact hc.ne_nil [] ht rfl
  | cons y t => exact hx _ ht ((List.cons_prefix_cons.1 h).1 ▸ List.mem_cons_self)

end Code

/-- A solid element is never reached past: what is behind it stays. -/
theorem strip_append_solid {x : α} (hx : Solid ts x) (n : Nat) (s : List α) :
    ∃ s', strip ts n (s ++ [x]) = s' ++ [x] := by
  induction n generalizing s with
  | zero => exact ⟨s, rfl⟩
  | succ n ih =>
      cases hfirst : first ts (s ++ [x]) with
      | none => exact ⟨s, by rw [strip, hfirst]⟩
      | some t =>
          obtain ⟨ht, hpre⟩ := first_spec hfirst
          have hle : t.length ≤ s.length := by
            by_contra hlt
            have hfull : t = s ++ [x] := by
              refine hpre.eq_of_length_le ?_
              rw [List.length_append, List.length_singleton]
              omega
            exact hx t ht (hfull ▸ List.mem_append_right s List.mem_cons_self)
          rw [strip_of_first n hfirst, List.drop_append_of_le_length hle]
          exact ih _

/-! ## Trimming -/

section Trim

variable (hc : Code ts) (hr : Code (ts.map List.reverse))
include hc hr

/-- **Trimming gives back what padding was put around.** -/
theorem trim_padded {p q l : List α} (hp : Padding ts p) (hq : Padding ts q)
    (hfront : ∀ x ∈ l.head?, Solid ts x) (hback : ∀ x ∈ l.getLast?, Solid ts x) :
    trim ts (p ++ (l ++ q)) = l := by
  rw [trim, trimLeft_padding_append hc hp]
  cases l with
  | nil =>
      rw [List.nil_append, trimLeft_padding hc hq, trimRight, List.reverse_nil,
        trimLeft_padding hr (Padding.nil _)]
      rfl
  | cons x l =>
      rw [List.cons_append, trimLeft_solid_cons hc (hfront x rfl), ← List.cons_append, trimRight,
        List.reverse_append, trimLeft_padding_append hr hq.reverse]
      -- from the end, the list begins with its last element
      obtain ⟨init, y, hy⟩ := List.eq_nil_or_concat (x :: l) |>.resolve_left (List.cons_ne_nil x l)
      rw [hy, List.concat_eq_append] at hback ⊢
      rw [List.reverse_append, List.reverse_singleton, List.singleton_append,
        trimLeft_solid_cons hr (hback y List.getLast?_concat).reverse, List.reverse_cons,
        List.reverse_reverse]

omit hr in
/-- **Behind a solid element in front, only the end is trimmed.** -/
theorem trim_solid {p : List α} {x : α} (hp : Padding ts p) (hx : Solid ts x) (s : List α) :
    ∃ s', trim ts (p ++ x :: s) = x :: s' := by
  rw [trim, trimLeft_padding_append hc hp, trimLeft_solid_cons hc hx, trimRight,
    List.reverse_cons, trimLeft]
  obtain ⟨s', hs'⟩ := strip_append_solid hx.reverse (s.reverse ++ [x]).length s.reverse
  exact ⟨s'.reverse, by rw [hs', List.reverse_append, List.reverse_singleton]; rfl⟩

/-- Padding and nothing else is trimmed away. -/
theorem trim_padding {p : List α} (hp : Padding ts p) : trim ts p = [] := by
  have h := trim_padded hc hr hp (Padding.nil ts) (l := []) nofun nofun
  rw [List.append_nil, List.append_nil] at h
  exact h

end Trim

end Tokens
