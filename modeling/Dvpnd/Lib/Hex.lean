import Mathlib

/-!
# Hexadecimal text

Two digits for each byte, as Go's `encoding/hex` has it: it writes lower case and
reads either.  Text is a list of bytes, since Go's strings are.

* `encode`, `decode` — the two directions; `Error` — what a text can be refused for.
* `decode_encode` — **what is written reads back.**
* `encode_of_decode` — **what is read writes back in lower case**, so a text has one
  meaning and a byte string one text.
* `exists_decode_iff` — what is read: an even number of digits, of either case.
-/

namespace Hex

/-! ## Digits -/

/-- A digit, of either case. -/
def IsDigit (b : UInt8) : Prop :=
  (48 ≤ b.toNat ∧ b.toNat ≤ 57) ∨ (97 ≤ b.toNat ∧ b.toNat ≤ 102) ∨ (65 ≤ b.toNat ∧ b.toNat ≤ 70)

instance (b : UInt8) : Decidable (IsDigit b) := inferInstanceAs (Decidable (_ ∨ _))

/-- `reverseHexTable`. -/
def value (b : UInt8) : Option Nat :=
  if 48 ≤ b.toNat ∧ b.toNat ≤ 57 then some (b.toNat - 48)
  else if 97 ≤ b.toNat ∧ b.toNat ≤ 102 then some (b.toNat - 87)
  else if 65 ≤ b.toNat ∧ b.toNat ≤ 70 then some (b.toNat - 55)
  else none

/-- `hextable`. -/
def digit (n : Nat) : UInt8 := UInt8.ofNat (if n < 10 then 48 + n else 87 + n)

/-- The lower case of a byte. -/
def lower (b : UInt8) : UInt8 := if 65 ≤ b.toNat ∧ b.toNat ≤ 90 then b + 32 else b

theorem isSome_value (b : UInt8) : (value b).isSome ↔ IsDigit b := by
  unfold value IsDigit
  split_ifs with h₁ h₂ h₃
  · exact ⟨fun _ => .inl h₁, fun _ => rfl⟩
  · exact ⟨fun _ => .inr (.inl h₂), fun _ => rfl⟩
  · exact ⟨fun _ => .inr (.inr h₃), fun _ => rfl⟩
  · exact ⟨fun h => (Bool.false_ne_true h).elim, fun h => (h.elim h₁ (·.elim h₂ h₃)).elim⟩

theorem value_digit {n : Nat} (h : n < 16) : value (digit n) = some n := by
  have hall : ∀ i : Fin 16, value (digit i) = some i.val := by decide
  exact hall ⟨n, h⟩

/-- The digit of a value is the one that was read, in lower case. -/
theorem digit_of_value {b : UInt8} {n : Nat} (h : value b = some n) :
    n < 16 ∧ digit n = lower b := by
  have hall : ∀ i : Fin 256, ∀ m ∈ value (UInt8.ofNat i),
      m < 16 ∧ digit m = lower (UInt8.ofNat i) := by decide +kernel
  have hb := hall ⟨b.toNat, b.toNat_lt⟩ n
  rw [UInt8.ofNat_toNat] at hb
  exact hb h

/-! ## Encoding and decoding -/

/-- `hex.EncodeToString`. -/
def encode (data : List UInt8) : List UInt8 :=
  data.flatMap fun b => [digit (b.toNat / 16), digit (b.toNat % 16)]

/-- `InvalidByteError` and `ErrLength`. -/
inductive Error where
  | invalidByte (b : UInt8)
  | length
  deriving DecidableEq, Repr

/-- `hex.DecodeString`. -/
def decode : List UInt8 → Except Error (List UInt8)
  | [] => .ok []
  | [p] => if value p = none then .error (.invalidByte p) else .error .length
  | p :: q :: rest =>
      match value p, value q with
      | none, _ => .error (.invalidByte p)
      | some _, none => .error (.invalidByte q)
      | some a, some b => (decode rest).map (UInt8.ofNat (16 * a + b) :: ·)

@[simp] theorem encode_nil : encode [] = [] := rfl

@[simp] theorem encode_cons (b : UInt8) (data : List UInt8) :
    encode (b :: data) = digit (b.toNat / 16) :: digit (b.toNat % 16) :: encode data := rfl

theorem length_encode (data : List UInt8) : (encode data).length = 2 * data.length := by
  induction data with
  | nil => rfl
  | cons b data ih =>
      simp only [encode_cons, List.length_cons, ih]
      omega

theorem decode_encode (data : List UInt8) : decode (encode data) = .ok data := by
  induction data with
  | nil => rfl
  | cons b data ih =>
      have hb := b.toNat_lt
      have hsum : 16 * (b.toNat / 16) + b.toNat % 16 = b.toNat := by omega
      rw [encode_cons, decode, value_digit (by omega), value_digit (by omega), ih]
      simp only [Except.map, hsum, UInt8.ofNat_toNat]

/-- One step of the decoder that goes through. -/
theorem decode_cons_cons {p q : UInt8} {rest data : List UInt8}
    (h : decode (p :: q :: rest) = .ok data) :
    ∃ a b tail, value p = some a ∧ value q = some b ∧ decode rest = .ok tail ∧
      data = UInt8.ofNat (16 * a + b) :: tail := by
  rw [decode] at h
  cases hp : value p with
  | none => rw [hp] at h; cases h
  | some a =>
      cases hq : value q with
      | none => rw [hp, hq] at h; cases h
      | some b =>
          rw [hp, hq] at h
          cases hrest : decode rest with
          | error e => simp only [hrest, Except.map] at h; cases h
          | ok tail =>
              simp only [hrest, Except.map] at h
              cases h
              exact ⟨a, b, tail, rfl, rfl, rfl, rfl⟩

theorem encode_of_decode {s data : List UInt8} (h : decode s = .ok data) :
    encode data = s.map lower := by
  induction s using decode.induct generalizing data with
  | case1 => cases h; rfl
  | case2 p hp => simp [decode, hp] at h
  | case3 p hp => simp [decode, hp] at h
  | case4 p q rest hp => simp [decode, hp] at h
  | case5 p q rest a hq hp => simp [decode, hp, hq] at h
  | case6 p q rest a b _ _ ih =>
      obtain ⟨a', b', tail, ha, hb, htail, rfl⟩ := decode_cons_cons h
      obtain ⟨ha16, hpa⟩ := digit_of_value ha
      obtain ⟨hb16, hqb⟩ := digit_of_value hb
      have hbyte : (UInt8.ofNat (16 * a' + b')).toNat = 16 * a' + b' := by
        rw [UInt8.toNat_ofNat']
        omega
      rw [encode_cons, hbyte, ih htail, show (16 * a' + b') / 16 = a' by omega,
        show (16 * a' + b') % 16 = b' by omega, hpa, hqb]
      rfl

/-- Half as many bytes as digits. -/
theorem length_of_decode {s data : List UInt8} (h : decode s = .ok data) :
    2 * data.length = s.length := by
  rw [← length_encode, encode_of_decode h, List.length_map]

/-- **What is read is an even number of digits.** -/
theorem exists_decode_iff (s : List UInt8) :
    (∃ data, decode s = .ok data) ↔ Even s.length ∧ ∀ b ∈ s, IsDigit b := by
  induction s using decode.induct with
  | case1 => simp [decode]
  | case2 p hp => simp [decode, hp]
  | case3 p hp => simp [decode, hp]
  | case4 p q rest hp =>
      have hnot : ¬ IsDigit p := fun hd => by simpa [hp] using (isSome_value p).2 hd
      simp [decode, hp, hnot]
  | case5 p q rest a hq hp =>
      have hnot : ¬ IsDigit q := fun hd => by simpa [hq] using (isSome_value q).2 hd
      simp [decode, hp, hq, hnot]
  | case6 p q rest a b hq hp ih =>
      have hp' : IsDigit p := (isSome_value p).1 (by rw [hp]; rfl)
      have hq' : IsDigit q := (isSome_value q).1 (by rw [hq]; rfl)
      have hstep : (∃ data, decode (p :: q :: rest) = .ok data) ↔
          ∃ data, decode rest = .ok data := by
        constructor
        · rintro ⟨data, h⟩
          obtain ⟨_, _, tail, -, -, htail, -⟩ := decode_cons_cons h
          exact ⟨tail, htail⟩
        · rintro ⟨tail, htail⟩
          exact ⟨_, by rw [decode, hp, hq, htail]; rfl⟩
      rw [hstep, ih]
      simp [hp', hq', Nat.even_add_one]

end Hex
