import Dvpnd.Lib.Base64

/-!
# JSON as Go reads and writes it

A value as `encoding/json` has read it, and what `json.Unmarshal` stores of it in a
`[]byte` or a `string`.  A byte slice takes two forms, an array of numbers and a
string in base64, and the decoder tells them apart by the value alone.

* `Value` — the tree.  A number keeps its text, since a number that is not a whole one
  does not fit a byte.
* `unmarshalBytes`, `unmarshalString` — the two targets.
* `ofBytes`, `unmarshalBytes_ofBytes` — the array of a byte string decodes to it.
* `unmarshalBytes_string_of_dash` — **a string with a dash is not base64.**
* `escape`, `encodeString` — how the encoder writes a string when it does not escape HTML.
-/

namespace JSON

/-- A JSON value. -/
inductive Value where
  | null
  | bool (b : Bool)
  | number (literal : String)
  | string (s : String)
  | array (items : List Value)
  | object (fields : List (String × Value))

/-- The bytes of a string. -/
def utf8 (s : String) : List UInt8 := s.toUTF8.data.toList

theorem utf8_ofList (cs : List Char) :
    utf8 (String.ofList cs) = cs.flatMap String.utf8EncodeChar := by
  rw [utf8, String.toUTF8_eq_toByteArray, String.toByteArray_ofList, List.utf8Encode,
    List.data_toByteArray, List.toList_toArray]

/-- An ASCII character is one byte. -/
theorem utf8EncodeChar_ascii {c : Char} (h : c.toNat < 128) :
    String.utf8EncodeChar c = [UInt8.ofNat c.toNat] := by
  have hall : ∀ i : Fin 128, String.utf8EncodeChar (Char.ofNat i) = [UInt8.ofNat i] := by decide
  have hc := hall ⟨c.toNat, h⟩
  rwa [Char.ofNat_toNat] at hc

theorem utf8_ofList_ascii {cs : List Char} (h : ∀ c ∈ cs, c.toNat < 128) :
    utf8 (String.ofList cs) = cs.map fun c => UInt8.ofNat c.toNat := by
  rw [utf8_ofList, List.map_eq_flatMap]
  exact List.flatMap_congr fun c hc => utf8EncodeChar_ascii (h c hc)

/-! ## Numbers -/

/-- `strconv.ParseUint(s, 10, 8)`.  Its value, if every character is a digit, is the
decimal number. -/
def parseUint8 (s : List Char) : Option UInt8 :=
  let v := s.foldl (fun v c => v * 10 + (c.toNat - 48)) 0
  if s ≠ [] ∧ s.all Char.isDigit = true ∧ v < 2 ^ 8 then some (UInt8.ofNat v) else none

theorem parseUint8_repr (b : UInt8) : parseUint8 (Nat.repr b.toNat).toList = some b := by
  have hall : ∀ i : Fin 256, parseUint8 (Nat.repr i).toList = some (UInt8.ofNat i) := by
    decide +kernel
  have hb := hall ⟨b.toNat, b.toNat_lt⟩
  rwa [UInt8.ofNat_toNat] at hb

/-! ## The two targets -/

/-- What an array's element leaves in a new byte: a null leaves it as it is. -/
def unmarshalByte : Value → Option UInt8
  | .null => some 0
  | .number literal => parseUint8 literal.toList
  | _ => none

/-- `json.Unmarshal` into a nil `[]byte`; `none` is an error. -/
def unmarshalBytes : Value → Option (List UInt8)
  | .null => some []
  | .string s => Base64.decodeString s
  | .array items => items.mapM unmarshalByte
  | _ => none

/-- `json.Unmarshal` into an empty `string`. -/
def unmarshalString : Value → Option String
  | .null => some ""
  | .string s => some s
  | _ => none

/-- The array of a byte string's numbers. -/
def ofBytes (data : List UInt8) : Value := .array (data.map fun b => .number (Nat.repr b.toNat))

theorem unmarshalBytes_ofBytes (data : List UInt8) : unmarshalBytes (ofBytes data) = some data := by
  show List.mapM _ _ = _
  induction data with
  | nil => rfl
  | cons b data ih =>
      rw [List.map_cons, List.mapM_cons, ih]
      simp only [unmarshalByte, parseUint8_repr]
      rfl

/-! ## Base64 -/

/-- **A string with a dash is not base64**, so it is decoded as the string it is. -/
theorem unmarshalBytes_string_of_dash {s : String} (h : '-' ∈ s.toList) :
    unmarshalBytes (.string s) = none := by
  cases hdec : unmarshalBytes (.string s) with
  | none => rfl
  | some data =>
      have hmem : '-' ∈ s.toList.filter fun c => c ≠ '\r' ∧ c ≠ '\n' :=
        List.mem_filter.2 ⟨h, by decide⟩
      exact absurd (Base64.mem_of_decode hdec _ hmem) (by decide)

/-! ## Writing a string -/

/-- What the encoder writes for a character, with HTML escaping off.  Control characters below
the blank are escaped, and the two separators JavaScript takes for line ends; the delete
character is not. -/
def escape (c : Char) : List Char :=
  if c = '"' ∨ c = '\\' then ['\\', c]
  else if c.toNat = 0x08 then ['\\', 'b']
  else if c.toNat = 0x0c then ['\\', 'f']
  else if c = '\n' then ['\\', 'n']
  else if c = '\r' then ['\\', 'r']
  else if c = '\t' then ['\\', 't']
  else if c.toNat < 0x20 then
    ['\\', 'u', '0', '0', Nat.digitChar (c.toNat / 16), Nat.digitChar (c.toNat % 16)]
  else if c.toNat = 0x2028 ∨ c.toNat = 0x2029 then
    ['\\', 'u', '2', '0', '2', Nat.digitChar (c.toNat % 16)]
  else [c]

/-- A string in quotes. -/
def encodeString (v : List Char) : List Char := '"' :: v.flatMap escape ++ ['"']

end JSON
