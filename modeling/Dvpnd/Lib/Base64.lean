import Mathlib

/-!
# Standard base64

The padded base64 of the standard alphabet, as Go's `base64.StdEncoding` has
it: three bytes become four characters, a last group of one or two bytes is
padded with `=`, and the decoder skips line ends and does not ask for the
unused bits of a last group to be zero.

* `encodeToString`, `decodeString` — the two directions.
* `decodeString_encodeToString` — **the round trip**: what is encoded decodes to
  itself.
* `encodeToString_injective` — so two byte strings never share an encoding.
-/

namespace Base64

/-! ## The alphabet -/

/-- The character of a six-bit value. -/
def digit (n : Nat) : Char :=
  if n < 26 then Char.ofNat (65 + n)
  else if n < 52 then Char.ofNat (97 + (n - 26))
  else if n < 62 then Char.ofNat (48 + (n - 52))
  else if n = 62 then '+'
  else '/'

/-- The six-bit value of a character. -/
def value (c : Char) : Option Nat :=
  if 65 ≤ c.toNat ∧ c.toNat ≤ 90 then some (c.toNat - 65)
  else if 97 ≤ c.toNat ∧ c.toNat ≤ 122 then some (c.toNat - 97 + 26)
  else if 48 ≤ c.toNat ∧ c.toNat ≤ 57 then some (c.toNat - 48 + 52)
  else if c = '+' then some 62
  else if c = '/' then some 63
  else none

theorem value_digit : ∀ n < 64, value (digit n) = some n := by decide

theorem digit_ne : ∀ n < 64, digit n ≠ '=' ∧ digit n ≠ '\r' ∧ digit n ≠ '\n' := by decide

/-! ## Encoding -/

/-- The characters of a byte string. -/
def encode : List UInt8 → List Char
  | [] => []
  | [a] => [digit (a.toNat / 4), digit (a.toNat % 4 * 16), '=', '=']
  | [a, b] =>
      [digit (a.toNat / 4), digit (a.toNat % 4 * 16 + b.toNat / 16), digit (b.toNat % 16 * 4), '=']
  | a :: b :: c :: rest =>
      digit (a.toNat / 4) :: digit (a.toNat % 4 * 16 + b.toNat / 16) ::
        digit (b.toNat % 16 * 4 + c.toNat / 64) :: digit (c.toNat % 64) :: encode rest

/-- `StdEncoding.EncodeToString`. -/
def encodeToString (data : List UInt8) : String := String.ofList (encode data)

/-! ## Decoding -/

/-- Decode groups of four characters; only the last group may be padded. -/
def decode : List Char → Option (List UInt8)
  | [] => some []
  | c₀ :: c₁ :: c₂ :: c₃ :: rest =>
      if c₃ = '=' ∧ rest = [] then
        if c₂ = '=' then
          match value c₀, value c₁ with
          | some x, some y => some [UInt8.ofNat (x * 4 + y / 16)]
          | _, _ => none
        else
          match value c₀, value c₁, value c₂ with
          | some x, some y, some z =>
              some [UInt8.ofNat (x * 4 + y / 16), UInt8.ofNat (y % 16 * 16 + z / 4)]
          | _, _, _ => none
      else
        match value c₀, value c₁, value c₂, value c₃, decode rest with
        | some x, some y, some z, some w, some out =>
            some (UInt8.ofNat (x * 4 + y / 16) :: UInt8.ofNat (y % 16 * 16 + z / 4) ::
              UInt8.ofNat (z % 4 * 64 + w) :: out)
        | _, _, _, _, _ => none
  | _ => none

/-- `StdEncoding.DecodeString`, which reads over line ends. -/
def decodeString (s : String) : Option (List UInt8) :=
  decode (s.toList.filter fun c => c ≠ '\r' ∧ c ≠ '\n')

/-! ## The round trip -/

theorem ofNat_toNat_of_eq {n : Nat} {a : UInt8} (h : n = a.toNat) : UInt8.ofNat n = a := by
  rw [h, UInt8.ofNat_toNat]

theorem decode_encode (data : List UInt8) : decode (encode data) = some data := by
  induction data using encode.induct with
  | case1 => rfl
  | case2 a =>
      have ha := a.toNat_lt
      simp only [encode, decode, and_self, if_true, value_digit (a.toNat / 4) (by omega),
        value_digit (a.toNat % 4 * 16) (by omega)]
      rw [ofNat_toNat_of_eq (a := a) (by omega)]
  | case3 a b =>
      have ha := a.toNat_lt
      have hb := b.toNat_lt
      have hc := (digit_ne (b.toNat % 16 * 4) (by omega)).1
      simp only [encode, decode, and_self, if_true, if_neg hc,
        value_digit (a.toNat / 4) (by omega),
        value_digit (a.toNat % 4 * 16 + b.toNat / 16) (by omega),
        value_digit (b.toNat % 16 * 4) (by omega)]
      rw [ofNat_toNat_of_eq (a := a) (by omega), ofNat_toNat_of_eq (a := b) (by omega)]
  | case4 a b c rest ih =>
      have ha := a.toNat_lt
      have hb := b.toNat_lt
      have hc := c.toNat_lt
      have hd : ¬ (digit (c.toNat % 64) = '=' ∧ encode rest = []) :=
        fun h => (digit_ne (c.toNat % 64) (by omega)).1 h.1
      simp only [encode, decode, if_neg hd, ih, value_digit (a.toNat / 4) (by omega),
        value_digit (a.toNat % 4 * 16 + b.toNat / 16) (by omega),
        value_digit (b.toNat % 16 * 4 + c.toNat / 64) (by omega),
        value_digit (c.toNat % 64) (by omega)]
      rw [ofNat_toNat_of_eq (a := a) (by omega), ofNat_toNat_of_eq (a := b) (by omega),
        ofNat_toNat_of_eq (a := c) (by omega)]

/-- An encoding has no line ends for the decoder to skip. -/
theorem encode_no_line_ends (data : List UInt8) :
    ∀ c ∈ encode data, c ≠ '\r' ∧ c ≠ '\n' := by
  have hpad : ('=' : Char) ≠ '\r' ∧ ('=' : Char) ≠ '\n' := by decide
  have hdig : ∀ n < 64, digit n ≠ '\r' ∧ digit n ≠ '\n' := fun n hn => (digit_ne n hn).2
  induction data using encode.induct with
  | case1 => intro c hc; cases hc
  | case2 a =>
      have ha := a.toNat_lt
      simp only [encode, List.forall_mem_cons, List.not_mem_nil, false_implies, implies_true,
        and_true]
      exact ⟨hdig _ (by omega), hdig _ (by omega), hpad, hpad⟩
  | case3 a b =>
      have ha := a.toNat_lt
      have hb := b.toNat_lt
      simp only [encode, List.forall_mem_cons, List.not_mem_nil, false_implies, implies_true,
        and_true]
      exact ⟨hdig _ (by omega), hdig _ (by omega), hdig _ (by omega), hpad⟩
  | case4 a b c rest ih =>
      have ha := a.toNat_lt
      have hb := b.toNat_lt
      have hc := c.toNat_lt
      simp only [encode, List.forall_mem_cons]
      exact ⟨hdig _ (by omega), hdig _ (by omega), hdig _ (by omega), hdig _ (by omega), ih⟩

/-- **The round trip.**  Decoding undoes encoding. -/
theorem decodeString_encodeToString (data : List UInt8) :
    decodeString (encodeToString data) = some data := by
  rw [decodeString, encodeToString, String.toList_ofList, List.filter_eq_self.2, decode_encode]
  intro c hc
  simpa using encode_no_line_ends data c hc

/-- Two byte strings never share an encoding. -/
theorem encodeToString_injective : Function.Injective encodeToString := by
  intro a b h
  have := decodeString_encodeToString a
  rw [h, decodeString_encodeToString] at this
  exact (Option.some.inj this).symm

example : encodeToString [97] = "YQ==" := by decide

/-! ## What is not base64 -/

/-- Base64 has only the characters of its alphabet, and padding. -/
theorem mem_of_decode {cs : List Char} {data : List UInt8} (h : decode cs = some data) :
    ∀ c ∈ cs, c = '=' ∨ (value c).isSome := by
  induction cs using decode.induct generalizing data with
  | case1 => simp
  | case2 c₀ c₁ c₃ rest hlast x y hy hx => simp [hlast, hx, hy]
  | case3 c₀ c₁ c₃ rest hlast hno => simp [decode, hlast] at h
  | case4 c₀ c₁ c₂ c₃ rest hlast hpad x y z hz hy hx => simp [hlast, hx, hy, hz]
  | case5 c₀ c₁ c₂ c₃ rest hlast hpad hno => simp [decode, hlast, hpad] at h
  | case6 c₀ c₁ c₂ c₃ rest hlast x y z w out hrest hw hz hy hx ih =>
      simpa [hw, hx, hy, hz] using ih hrest
  | case7 c₀ c₁ c₂ c₃ rest hlast hno ih => simp [decode, hlast] at h
  | case8 t hnil hlong => simp [decode] at h

end Base64
