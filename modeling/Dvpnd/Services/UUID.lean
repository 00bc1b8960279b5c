import Dvpnd.Lib.Hex
import Dvpnd.Lib.JSON
import Dvpnd.Services.Clients

/-!
# The UUID of a peer request

The proxy protocols know a client by a UUID, which a peer request carries either as
sixteen numbers or as text (`services/common/uuid.go`).  The bytes are what the
session is filed under, so it matters **that both forms of one UUID give the same
bytes, and that a text has no second reading**.

* `parseUUID`, `uuidFromJSON`, `uuidPeerRequest` — the three readers, each with all
  it can refuse.
* `Canonical`, `parseUUID_ok` — what `ParseUUID` reads, group by group.
* `uuid_exact` — the grammar, the round trips, and the two forms of a request.
-/

namespace Dvpnd

open JSON

/-! ## The readers -/

/-- Why a UUID is refused. -/
inductive UUIDError where
  | missing
  | bytes (got : Nat)
  | kind
  | shape (s : List UInt8)
  | digits (s : List UInt8) (e : Hex.Error)
  deriving DecidableEq

/-- The text of the error; `quote` is the verb `%q`, and `hexText` the text of an error of
`encoding/hex`. -/
def UUIDError.text (quote : List UInt8 → String) (hexText : Hex.Error → String) :
    UUIDError → String
  | .missing => "uuid is missing"
  | .bytes got => s!"uuid must be 16 bytes, got {got}"
  | .kind => "uuid must be a 16-byte array or a string"
  | .shape s => "invalid uuid " ++ quote s
  | .digits s e => "invalid uuid " ++ quote s ++ ": " ++ hexText e

/-- The separator of the groups. -/
def dash : UInt8 := 45

/-- `ParseUUID`. -/
def parseUUID (s : List UInt8) : Except UUIDError (List UInt8) :=
  let parts := s.splitOn dash
  if parts.map List.length ≠ [8, 4, 4, 4, 12] then .error (.shape s)
  else
    match Hex.decode parts.flatten with
    | .error e => .error (.digits s e)
    | .ok decoded => .ok decoded

/-- `UUIDFromJSON`.  A value that is not there is the empty message. -/
def uuidFromJSON (raw : Option Value) : Except UUIDError (List UInt8) :=
  match raw with
  | none => .error .missing
  | some v =>
      match unmarshalBytes v with
      | some asBytes =>
          if asBytes.length ≠ 16 then .error (.bytes asBytes.length) else .ok asBytes
      | none =>
          match unmarshalString v with
          | none => .error .kind
          | some asString => parseUUID (utf8 asString)

/-- The peer request of the proxy protocols, as the JSON decoder gives it. -/
structure UUIDRequest where
  uuid : Option Value
  publicKey : Option String

/-- Why a peer request is refused. -/
inductive UUIDRequestError where
  | malformed (e : String)
  | publicKey
  | missing
  | uuid (e : UUIDError)
  deriving DecidableEq

/-- The text of the error, which names the protocol the node speaks. -/
def UUIDRequestError.text (quote : List UInt8 → String) (hexText : Hex.Error → String)
    (protocol : String) : UUIDRequestError → String
  | .malformed e => s!"invalid {protocol} peer request: {e}"
  | .publicKey => s!"this node runs {protocol}, whose peer request carries a uuid; " ++
      "this request carries public_key, which is what a wireguard client sends"
  | .missing => s!"this node runs {protocol}, whose peer request carries a uuid; none was sent"
  | .uuid e => s!"invalid {protocol} peer request: " ++ e.text quote hexText

/-- `UUIDPeerRequest`. -/
def uuidPeerRequest (raw : Except String UUIDRequest) :
    Except UUIDRequestError (List UInt8) :=
  match raw with
  | .error e => .error (.malformed e)
  | .ok req =>
      if req.uuid.isNone then
        if req.publicKey.isSome then .error .publicKey else .error .missing
      else
        match uuidFromJSON req.uuid with
        | .error e => .error (.uuid e)
        | .ok id => .ok id

/-! ## The canonical text -/

/-- The five groups of a text, joined. -/
def joinGroups (a b c d e : List UInt8) : List UInt8 := [dash].intercalate [a, b, c, d, e]

theorem joinGroups_eq (a b c d e : List UInt8) :
    joinGroups a b c d e = a ++ dash :: (b ++ dash :: (c ++ dash :: (d ++ dash :: e))) := by
  simp [joinGroups, List.intercalate]

/-- A text of five groups of hexadecimal digits, of either case. -/
structure Canonical (s a b c d e : List UInt8) : Prop where
  joined : s = joinGroups a b c d e
  lengths : [a, b, c, d, e].map List.length = [8, 4, 4, 4, 12]
  digits : ∀ x ∈ a ++ b ++ c ++ d ++ e, Hex.IsDigit x

theorem not_isDigit_dash : ¬ Hex.IsDigit dash := by decide

theorem Canonical.splitOn {s a b c d e : List UInt8} (h : Canonical s a b c d e) :
    s.splitOn dash = [a, b, c, d, e] := by
  rw [h.joined, joinGroups]
  refine List.splitOn_intercalate dash (fun l hl hdash => not_isDigit_dash (h.digits _ ?_)) (by simp)
  simp only [List.mem_append]
  simp only [List.mem_cons, List.not_mem_nil, or_false] at hl
  rcases hl with rfl | rfl | rfl | rfl | rfl <;> simp [hdash]

/-- What `ParseUUID` makes of a canonical text: its digits. -/
theorem Canonical.parseUUID {s a b c d e : List UInt8} (h : Canonical s a b c d e) :
    ∃ id, Hex.decode (a ++ b ++ c ++ d ++ e) = .ok id ∧ parseUUID s = .ok id := by
  have hlen : (a ++ b ++ c ++ d ++ e).length = 32 := by
    have hl := h.lengths
    simp only [List.map_cons, List.map_nil, List.cons.injEq] at hl
    simp only [List.length_append]
    omega
  obtain ⟨id, hid⟩ := (Hex.exists_decode_iff _).2 ⟨by rw [hlen]; decide, h.digits⟩
  have hflat : [a, b, c, d, e].flatten = a ++ b ++ c ++ d ++ e := by simp
  refine ⟨id, hid, ?_⟩
  rw [Dvpnd.parseUUID, h.splitOn, if_neg (by simpa using h.lengths), hflat, hid]

/-- **`ParseUUID` reads the canonical texts and no other.** -/
theorem parseUUID_ok {s id : List UInt8} (h : parseUUID s = .ok id) :
    ∃ a b c d e, Canonical s a b c d e ∧ Hex.decode (a ++ b ++ c ++ d ++ e) = .ok id := by
  rw [parseUUID] at h
  split_ifs at h with hparts
  rw [not_not] at hparts
  obtain ⟨a, b, c, d, e, hsplit⟩ : ∃ a b c d e, s.splitOn dash = [a, b, c, d, e] := by
    have hlen := congrArg List.length hparts
    simp only [List.length_map, List.length_cons, List.length_nil] at hlen
    match s.splitOn dash, hlen with
    | [a, b, c, d, e], _ => exact ⟨a, b, c, d, e, rfl⟩
  rw [hsplit] at h hparts
  cases hdec : Hex.decode [a, b, c, d, e].flatten with
  | error e => rw [hdec] at h; cases h
  | ok decoded =>
      rw [hdec] at h
      cases h
      have hflat : [a, b, c, d, e].flatten = a ++ b ++ c ++ d ++ e := by simp
      rw [hflat] at hdec
      refine ⟨a, b, c, d, e, ⟨?_, hparts, ((Hex.exists_decode_iff _).1 ⟨id, hdec⟩).2⟩, hdec⟩
      rw [joinGroups, ← hsplit, List.intercalate_splitOn]

/-! ## Rendering -/

/-- `FormatUUID` writes with the characters of `encoding/hex`. -/
theorem hexEncode_bytes (id : List UInt8) :
    (hexEncode id).map (fun c => UInt8.ofNat c.toNat) = Hex.encode id := by
  have hdigit : ∀ n < 16, UInt8.ofNat (Nat.digitChar n).toNat = Hex.digit n := by decide
  induction id with
  | nil => rfl
  | cons b id ih =>
      have hb := b.toNat_lt
      rw [Hex.encode_cons, ← ih, ← hdigit _ (show b.toNat / 16 < 16 by omega),
        ← hdigit _ (show b.toNat % 16 < 16 by omega)]
      rfl

theorem hexEncode_ascii (id : List UInt8) : ∀ c ∈ hexEncode id, c.toNat < 128 := by
  have hdigit : ∀ n < 16, (Nat.digitChar n).toNat < 128 := by decide
  intro c hc
  obtain ⟨b, -, hb⟩ := List.mem_flatMap.1 hc
  have hlt := b.toNat_lt
  rcases List.mem_cons.1 hb with rfl | hb
  · exact hdigit _ (by omega)
  · cases List.mem_singleton.1 hb
    exact hdigit _ (by omega)

/-- The text of sixteen digits and more, cut into groups. -/
def uuidGroups (h : List UInt8) : List UInt8 :=
  joinGroups (h.take 8) ((h.drop 8).take 4) ((h.drop 12).take 4) ((h.drop 16).take 4) (h.drop 20)

/-- The bytes `FormatUUID` writes. -/
theorem utf8_formatUUID (id : List UInt8) : utf8 (formatUUID id) = uuidGroups (Hex.encode id) := by
  have hascii := hexEncode_ascii id
  rw [formatUUID, utf8_ofList_ascii, uuidGroups, joinGroups_eq, ← hexEncode_bytes]
  · simp [List.map_take, List.map_drop, dash]
  · have hdash : ('-' : Char).toNat < 128 := by decide
    simp only [List.mem_append, List.mem_cons]
    rintro c ((((hc | rfl | hc) | rfl | hc) | rfl | hc) | rfl | hc)
    · exact hascii c (List.mem_of_mem_take hc)
    · exact hdash
    · exact hascii c (List.mem_of_mem_drop (List.mem_of_mem_take hc))
    · exact hdash
    · exact hascii c (List.mem_of_mem_drop (List.mem_of_mem_take hc))
    · exact hdash
    · exact hascii c (List.mem_of_mem_drop (List.mem_of_mem_take hc))
    · exact hdash
    · exact hascii c (List.mem_of_mem_drop hc)

/-- The groups are the text cut where `FormatUUID` cuts it. -/
theorem take_drop_uuidGroups (h : List UInt8) :
    h.take 8 ++ (h.drop 8).take 4 ++ (h.drop 12).take 4 ++ (h.drop 16).take 4 ++ h.drop 20 = h := by
  have hcut : ∀ n, (h.drop n).take 4 ++ h.drop (n + 4) = h.drop n := fun n => by
    rw [← List.drop_drop, List.take_append_drop]
  rw [List.append_assoc, hcut 16, List.append_assoc, hcut 12, List.append_assoc, hcut 8,
    List.take_append_drop]

/-- **What is rendered is canonical.** -/
theorem canonical_formatUUID {id : List UInt8} (h : id.length = 16) :
    Canonical (utf8 (formatUUID id)) ((Hex.encode id).take 8) (((Hex.encode id).drop 8).take 4)
      (((Hex.encode id).drop 12).take 4) (((Hex.encode id).drop 16).take 4)
      ((Hex.encode id).drop 20) where
  joined := utf8_formatUUID id
  lengths := by simp [Hex.length_encode, h]
  digits := by
    rw [take_drop_uuidGroups]
    exact ((Hex.exists_decode_iff _).1 ⟨id, Hex.decode_encode id⟩).2

theorem parseUUID_formatUUID {id : List UInt8} (h : id.length = 16) :
    parseUUID (utf8 (formatUUID id)) = .ok id := by
  obtain ⟨id', hdec, hparse⟩ := (canonical_formatUUID h).parseUUID
  rw [take_drop_uuidGroups, Hex.decode_encode] at hdec
  cases hdec
  exact hparse

theorem length_of_parseUUID {s id : List UInt8} (h : parseUUID s = .ok id) : id.length = 16 := by
  obtain ⟨a, b, c, d, e, hcan, hdec⟩ := parseUUID_ok h
  have hlen := Hex.length_of_decode hdec
  have hl := hcan.lengths
  simp only [List.map_cons, List.map_nil, List.cons.injEq] at hl
  simp only [List.length_append] at hlen
  omega

/-- Cutting the digits gives back the groups they came from. -/
theorem uuidGroups_append {a b c d : List UInt8} (e : List UInt8) (ha : a.length = 8)
    (hb : b.length = 4) (hc : c.length = 4) (hd : d.length = 4) :
    uuidGroups (a ++ (b ++ (c ++ (d ++ e)))) = joinGroups a b c d e := by
  have hafter : ∀ {l x rest : List UInt8} {n : Nat}, l.drop n = x ++ rest → x.length = 4 →
      l.drop (n + 4) = rest := fun hl hx => by
    rw [← List.drop_drop, hl, List.drop_left' hx]
  have h₈ : (a ++ (b ++ (c ++ (d ++ e)))).drop 8 = b ++ (c ++ (d ++ e)) := List.drop_left' ha
  have h₁₂ := hafter h₈ hb
  have h₁₆ := hafter h₁₂ hc
  have h₂₀ := hafter h₁₆ hd
  rw [uuidGroups, List.take_left' ha, h₈, List.take_left' hb, h₁₂, List.take_left' hc, h₁₆,
    List.take_left' hd, h₂₀]

theorem map_joinGroups (a b c d e : List UInt8) : (joinGroups a b c d e).map Hex.lower =
    joinGroups (a.map Hex.lower) (b.map Hex.lower) (c.map Hex.lower) (d.map Hex.lower)
      (e.map Hex.lower) := by
  have hdash : Hex.lower dash = dash := by decide
  simp [joinGroups_eq, hdash]

/-- **What is read is rendered in lower case.** -/
theorem formatUUID_of_parseUUID {s id : List UInt8} (h : parseUUID s = .ok id) :
    utf8 (formatUUID id) = s.map Hex.lower := by
  obtain ⟨a, b, c, d, e, hcan, hdec⟩ := parseUUID_ok h
  have hl := hcan.lengths
  simp only [List.map_cons, List.map_nil, List.cons.injEq, and_true] at hl
  obtain ⟨ha, hb, hc, hd, -⟩ := hl
  rw [utf8_formatUUID, Hex.encode_of_decode hdec, hcan.joined, map_joinGroups]
  simp only [List.map_append, List.append_assoc]
  exact uuidGroups_append _ (by rw [List.length_map, ha]) (by rw [List.length_map, hb])
    (by rw [List.length_map, hc]) (by rw [List.length_map, hd])

/-! ## The two forms of a request -/

/-- A text is never taken for base64. -/
theorem unmarshalBytes_formatUUID (id : List UInt8) :
    unmarshalBytes (.string (formatUUID id)) = none := by
  refine unmarshalBytes_string_of_dash ?_
  simp [formatUUID]

theorem uuidFromJSON_ofBytes {id : List UInt8} (h : id.length = 16) :
    uuidFromJSON (some (ofBytes id)) = .ok id := by
  rw [uuidFromJSON, unmarshalBytes_ofBytes]
  simp only [h, ne_eq, not_true_eq_false, if_false]

theorem uuidFromJSON_formatUUID {id : List UInt8} (h : id.length = 16) :
    uuidFromJSON (some (.string (formatUUID id))) = .ok id := by
  rw [uuidFromJSON, unmarshalBytes_formatUUID]
  exact parseUUID_formatUUID h

/-- **A UUID has one text, in either case, and two forms in a request.**  `ParseUUID` reads
five groups of hexadecimal digits and nothing else; what it reads is rendered in lower
case, what is rendered reads back, and a request may carry the bytes or the text. -/
theorem uuid_exact :
    (∀ s, (∃ id, parseUUID s = .ok id) ↔ ∃ a b c d e, Canonical s a b c d e) ∧
    (∀ s id, parseUUID s = .ok id → utf8 (formatUUID id) = s.map Hex.lower) ∧
    ∀ id : List UInt8, id.length = 16 →
      parseUUID (utf8 (formatUUID id)) = .ok id ∧
      uuidFromJSON (some (ofBytes id)) = .ok id ∧
      unmarshalBytes (.string (formatUUID id)) = none ∧
      uuidFromJSON (some (.string (formatUUID id))) = .ok id ∧
      (uuidFromJSON (some (ofBytes id))).map Key.of =
        (uuidFromJSON (some (.string (formatUUID id)))).map Key.of := by
  refine ⟨fun s => ⟨?_, ?_⟩, fun s id => formatUUID_of_parseUUID, fun id h => ?_⟩
  · rintro ⟨id, h⟩
    obtain ⟨a, b, c, d, e, hcan, -⟩ := parseUUID_ok h
    exact ⟨a, b, c, d, e, hcan⟩
  · rintro ⟨a, b, c, d, e, hcan⟩
    obtain ⟨id, -, h⟩ := hcan.parseUUID
    exact ⟨id, h⟩
  · refine ⟨parseUUID_formatUUID h, uuidFromJSON_ofBytes h, unmarshalBytes_formatUUID id,
      uuidFromJSON_formatUUID h, ?_⟩
    rw [uuidFromJSON_ofBytes h, uuidFromJSON_formatUUID h]

/-- Sixteen bytes and their text. -/
theorem uuid_exact_counting :
    parseUUID (utf8 (formatUUID [0, 1, 2, 3, 4, 5, 6, 7, 8, 9, 10, 11, 12, 13, 14, 255])) =
      .ok [0, 1, 2, 3, 4, 5, 6, 7, 8, 9, 10, 11, 12, 13, 14, 255] :=
  (uuid_exact.2.2 [0, 1, 2, 3, 4, 5, 6, 7, 8, 9, 10, 11, 12, 13, 14, 255] (by decide)).1

end Dvpnd
