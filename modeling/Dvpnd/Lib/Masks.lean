import Mathlib.Algebra.Group.Nat.Defs
import Mathlib.Data.List.Basic
import Mathlib.Data.List.GetD
import Mathlib.Tactic.Common

/-!
# Prefix masks over byte strings

An address is a string of bytes, and a network is an address under a mask whose ones all
come first.  **Two such masks are comparable**, and from that follows that two networks
which share an address are nested: one of them holds the other's number.

* `Masks.both` — the bytewise conjunction.
* `Masks.ofOnes` — the mask with so many ones in front.
* `Masks.getD_both_full`, `Masks.getD_both_empty` — what a mask leaves of a byte, in front of
  its end and behind it.
* `Masks.nested` — of two networks with a common address, the wider one holds the number of
  the narrower.
-/

namespace Masks

/-- The bytewise conjunction of two byte strings. -/
def both (a b : List UInt8) : List UInt8 := List.zipWith (· &&& ·) a b

/-- The mask of `len` bytes whose first `ones` bits are set. -/
def ofOnes (ones : Nat) : Nat → List UInt8
  | 0 => []
  | len + 1 =>
      if 8 ≤ ones then 255 :: ofOnes (ones - 8) len
      else UInt8.ofNat (256 - 2 ^ (8 - ones)) :: ofOnes 0 len

theorem both_comm (a b : List UInt8) : both a b = both b a :=
  List.zipWith_comm_of_comm UInt8.and_comm

theorem both_assoc (a b c : List UInt8) : both (both a b) c = both a (both b c) := by
  induction a generalizing b c with
  | nil => rfl
  | cons x a ih =>
      cases b with
      | nil => rfl
      | cons y b =>
          cases c with
          | nil => rfl
          | cons z c => exact congrArg₂ List.cons (UInt8.and_assoc x y z) (ih b c)

theorem length_both (a b : List UInt8) : (both a b).length = min a.length b.length :=
  List.length_zipWith

theorem length_ofOnes (ones len : Nat) : (ofOnes ones len).length = len := by
  induction len generalizing ones with
  | zero => rfl
  | succ len ih =>
      unfold ofOnes
      split
      · rw [List.length_cons, ih]
      · rw [List.length_cons, ih]

theorem and_full (b : UInt8) : b &&& 255 = b := UInt8.and_neg_one

/-- The byte in which a mask ends, by the number of its ones. -/
theorem lastByte_and : ∀ a < 8, ∀ b < 8, a ≤ b →
    UInt8.ofNat (256 - 2 ^ (8 - a)) &&& UInt8.ofNat (256 - 2 ^ (8 - b)) =
      UInt8.ofNat (256 - 2 ^ (8 - a)) := by decide

/-- The shorter of two masks is the weaker. -/
theorem both_ofOnes {a b : Nat} (h : a ≤ b) (len : Nat) :
    both (ofOnes a len) (ofOnes b len) = ofOnes a len := by
  induction len generalizing a b with
  | zero => rfl
  | succ len ih =>
      unfold ofOnes
      by_cases ha : 8 ≤ a
      · rw [if_pos ha, if_pos (Nat.le_trans ha h)]
        exact congrArg (List.cons _) (ih (Nat.sub_le_sub_right h 8))
      · rw [if_neg ha]
        have hlt := Nat.lt_of_not_le ha
        by_cases hb : 8 ≤ b
        · rw [if_pos hb]
          refine congrArg₂ List.cons ?_ (ih (Nat.zero_le _))
          exact and_full _
        · rw [if_neg hb]
          exact congrArg₂ List.cons (lastByte_and a hlt b (Nat.lt_of_not_le hb) h)
            (ih (Nat.zero_le _))

/-- The bytes the mask is full of stay, -/
theorem getD_both_full {ones len i : Nat} (hi : 8 * (i + 1) ≤ ones) (hlen : i < len)
    (a : List UInt8) : (both a (ofOnes ones len)).getD i 0 = a.getD i 0 := by
  induction len generalizing ones i a with
  | zero => omega
  | succ len ih =>
      rw [ofOnes, if_pos (by omega)]
      cases a with
      | nil => rfl
      | cons x a =>
          cases i with
          | zero => exact and_full _
          | succ i => exact ih (by omega) (by omega) a

/-- and the ones behind it are gone. -/
theorem getD_both_empty {ones i : Nat} (hi : ones ≤ 8 * i) (len : Nat) (a : List UInt8) :
    (both a (ofOnes ones len)).getD i 0 = 0 := by
  induction len generalizing ones i a with
  | zero => cases a <;> rfl
  | succ len ih =>
      cases a with
      | nil => rfl
      | cons x a =>
          cases i with
          | zero =>
              obtain rfl : ones = 0 := by omega
              exact UInt8.and_zero
          | succ i =>
              unfold ofOnes
              split
              · exact ih (by omega) a
              · exact ih (by omega) a

/-- Addresses that agree under a mask and behind it are equal. -/
theorem eq_of_both {ones len : Nat} {a b : List UInt8} (ha : a.length = len) (hb : b.length = len)
    (h : both a (ofOnes ones len) = both b (ofOnes ones len))
    (hrest : ∀ i, ones < 8 * (i + 1) → a.getD i 0 = b.getD i 0) : a = b := by
  refine List.ext_getElem (ha.trans hb.symm) fun i hia hib => ?_
  rw [← List.getD_eq_getElem a 0 hia, ← List.getD_eq_getElem b 0 hib]
  by_cases hi : 8 * (i + 1) ≤ ones
  · rw [← getD_both_full hi (ha ▸ hia) a, ← getD_both_full hi (ha ▸ hia) b, h]
  · exact hrest i (Nat.lt_of_not_le hi)

theorem lastByte_ne : ∀ a < 8, UInt8.ofNat (256 - 2 ^ (8 - a)) ≠ 255 := by decide

theorem lastByte_inj : ∀ a < 8, ∀ b < 8,
    UInt8.ofNat (256 - 2 ^ (8 - a)) = UInt8.ofNat (256 - 2 ^ (8 - b)) → a = b := by decide

/-- A mask is known by its ones. -/
theorem ofOnes_inj {a b len : Nat} (ha : a ≤ 8 * len) (hb : b ≤ 8 * len)
    (h : ofOnes a len = ofOnes b len) : a = b := by
  induction len generalizing a b with
  | zero => omega
  | succ len ih =>
      unfold ofOnes at h
      split at h
      · split at h
        · have := ih (by omega) (by omega) (List.cons.inj h).2
          omega
        · exact absurd (List.cons.inj h).1.symm (lastByte_ne b (by omega))
      · split at h
        · exact absurd (List.cons.inj h).1 (lastByte_ne a (by omega))
        · exact lastByte_inj a (by omega) b (by omega) (List.cons.inj h).1

/-- **Networks with a common address are nested**: the wider one, `n` with `a` ones, holds
the number `m` of the other. -/
theorem nested {a b len : Nat} (h : a ≤ b) {ip n m : List UInt8}
    (hn : both n (ofOnes a len) = both ip (ofOnes a len))
    (hm : both m (ofOnes b len) = both ip (ofOnes b len)) :
    both n (ofOnes a len) = both m (ofOnes a len) := by
  have hwiden : ∀ x, both (both x (ofOnes b len)) (ofOnes a len) = both x (ofOnes a len) := by
    intro x
    rw [both_assoc, both_comm (ofOnes b len), both_ofOnes h]
  rw [hn, ← hwiden ip, ← hm, hwiden m]

end Masks
