import Mathlib

/-!
# What the chain holds

The part of the chain's records the node reads: sessions, plan subscriptions
and the allocations of their accounts.  Amounts are the chain's own integers,
which are not bounded by 64 bits; `int64` and `clampInt64` are the two ways the
node brings one down to an `int64`, and only the second is total.
-/

namespace Dvpnd

/-- The status of a session or a subscription. -/
inductive Status where
  | unspecified
  | active
  | inactivePending
  | inactive
  deriving DecidableEq, Repr

/-- A session as the chain returns it.  `subscription` is present for the
sessions of a plan subscription and absent for the pay-per-session ones. -/
structure ChainSession where
  id : Nat := 0
  accAddress : String := ""
  nodeAddress : String := ""
  downloadBytes : Int := 0
  uploadBytes : Int := 0
  maxBytes : Int := 0
  duration : Int64 := 0
  status : Status := .unspecified
  statusAt : Int := 0
  subscription : Option Nat := none
  deriving DecidableEq

/-- `TotalBytes`. -/
def ChainSession.totalBytes (s : ChainSession) : Int := s.downloadBytes + s.uploadBytes

/-- A plan subscription. -/
structure Subscription where
  id : Nat := 0
  status : Status := .unspecified
  deriving DecidableEq

/-- An account's share of a plan subscription. -/
structure Allocation where
  grantedBytes : Int := 0
  utilisedBytes : Int := 0
  deriving DecidableEq

/-- The integer fits an `int64`. -/
def IsInt64 (v : Int) : Prop := -2 ^ 63 ≤ v ∧ v < 2 ^ 63

instance (v : Int) : Decidable (IsInt64 v) := inferInstanceAs (Decidable (_ ∧ _))

/-- `Int64()`: the chain integer as an `int64`; it panics, here `none`, when the
value does not fit. -/
def int64 (v : Int) : Option Int64 := if IsInt64 v then some (Int64.ofInt v) else none

/-- `clampInt64`: saturate at the largest `int64`, and take a negative value for
zero. -/
def clampInt64 (v : Int) : Int64 :=
  if v < 0 then 0
  else if IsInt64 v then Int64.ofInt v
  else Int64.ofInt (2 ^ 63 - 1)

theorem int64_eq_none_iff {v : Int} : int64 v = none ↔ ¬ IsInt64 v := by
  unfold int64
  split <;> simp_all

/-- A chain integer that fits reads as its own value. -/
theorem toInt_of_int64 {v : Int} {w : Int64} (h : int64 v = some w) : w.toInt = v := by
  unfold int64 at h
  split at h
  · rename_i hv
    cases h
    exact Int64.toInt_ofInt_of_le hv.1 hv.2
  · cases h

theorem toInt_clampInt64 {v : Int} (h : 0 ≤ v) : (clampInt64 v).toInt = min v (2 ^ 63 - 1) := by
  unfold clampInt64
  rw [if_neg (by omega)]
  by_cases hv : IsInt64 v
  · rw [if_pos hv, Int64.toInt_ofInt_of_le hv.1 hv.2]
    have := hv.2
    omega
  · rw [if_neg hv]
    have hbig : 2 ^ 63 ≤ v := by
      unfold IsInt64 at hv
      omega
    rw [Int64.toInt_ofInt_of_le (by decide) (by decide)]
    omega

end Dvpnd
