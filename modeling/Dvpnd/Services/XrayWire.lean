import Dvpnd.Lib.JSON
import Dvpnd.Lib.Protobuf

/-!
# The requests of xray's API

`services/xray/wire.go`: the requests the node sends to xray, written by hand field by field.  A
message is a string of bytes inside the next one, four levels deep, and empty texts are left out.

* `addUserRequest`, `removeUserRequest`, `queryStatsRequest` — the requests.
* `readAlterInboundRequest` and the like — what xray reads, by the schema of each message.
* `requests_read_back` — **xray reads the tag, the user and the account the node wrote**, with
  any of the texts empty.
-/

namespace Dvpnd.XRay

open Parsing Protobuf
open JSON (utf8)

/-! ## Requests -/

/-- `appendString`. -/
def appendString (b : List UInt8) (num : Nat) (s : String) : List UInt8 :=
  if s = "" then b else b ++ tag num .bytes ++ delimited (utf8 s)

/-- `appendMessage`. -/
def appendMessage (b : List UInt8) (num : Nat) (m : List UInt8) : List UInt8 :=
  b ++ tag num .bytes ++ delimited m

/-- `appendBool`. -/
def appendBool (b : List UInt8) (num : Nat) (v : Bool) : List UInt8 :=
  if !v then b else b ++ tag num .varint ++ varint 1

/-- `typedMessage`. -/
def typedMessage (typeName : String) (value : List UInt8) : List UInt8 :=
  appendMessage (appendString [] 1 typeName) 2 value

/-- `vlessAccount`. -/
def vlessAccount (id flow encryption : String) : List UInt8 :=
  appendString (appendString (appendString [] 1 id) 2 flow) 3 encryption

/-- `user`. -/
def user (email : String) (account : List UInt8) : List UInt8 :=
  appendMessage (appendString [] 2 email) 3 account

/-- `alterInboundRequest`. -/
def alterInboundRequest (tag : String) (operation : List UInt8) : List UInt8 :=
  appendMessage (appendString [] 1 tag) 2 operation

/-- `typeAddUserOperation`. -/
def typeAddUserOperation : String := "xray.app.proxyman.command.AddUserOperation"

/-- `typeRemoveUserOperation`. -/
def typeRemoveUserOperation : String := "xray.app.proxyman.command.RemoveUserOperation"

/-- `typeVLESSAccount`. -/
def typeVLESSAccount : String := "xray.proxy.vless.Account"

/-- `addUserRequest`. -/
def addUserRequest (tag email uuid flow : String) : List UInt8 :=
  let account := typedMessage typeVLESSAccount (vlessAccount uuid flow "none")
  let operation := appendMessage [] 1 (user email account)
  alterInboundRequest tag (typedMessage typeAddUserOperation operation)

/-- `removeUserRequest`. -/
def removeUserRequest (tag email : String) : List UInt8 :=
  let operation := appendString [] 1 email
  alterInboundRequest tag (typedMessage typeRemoveUserOperation operation)

/-- `queryStatsRequest`. -/
def queryStatsRequest (pattern : String) (reset : Bool) : List UInt8 :=
  appendBool (appendString [] 1 pattern) 2 reset

/-! ## What xray reads -/

/-- `xray.common.serial.TypedMessage`. -/
structure TypedMessage where
  type : String
  value : List UInt8

/-- `xray.proxy.vless.Account`. -/
structure Account where
  id : String
  flow : String
  encryption : String

/-- `xray.common.protocol.User`. -/
structure User where
  level : Nat
  email : String
  account : Option TypedMessage

/-- `xray.app.proxyman.command.AddUserOperation`. -/
structure AddUserOperation where
  user : Option User

/-- `xray.app.proxyman.command.RemoveUserOperation`. -/
structure RemoveUserOperation where
  email : String

/-- `xray.app.proxyman.command.AlterInboundRequest`. -/
structure AlterInboundRequest where
  tag : String
  operation : Option TypedMessage

/-- `xray.app.stats.command.QueryStatsRequest`. -/
structure QueryStatsRequest where
  pattern : String
  reset : Bool

/-- A message inside another. -/
def readInner {α : Type} (read : List UInt8 → Except Error α) :
    Option (List UInt8) → Except Error (Option α)
  | none => return none
  | some b => do
      let a ← read b
      return some a

/-- `string type = 1; bytes value = 2;` -/
def readTypedMessage (b : List UInt8) : Except Error TypedMessage := do
  let fields ← readMessage b.length b
  let type ← getString 1 fields
  return ⟨type, getBytes 2 fields⟩

/-- `string id = 1; string flow = 2; string encryption = 3;` -/
def readAccount (b : List UInt8) : Except Error Account := do
  let fields ← readMessage b.length b
  let id ← getString 1 fields
  let flow ← getString 2 fields
  let encryption ← getString 3 fields
  return ⟨id, flow, encryption⟩

/-- `uint32 level = 1; string email = 2; TypedMessage account = 3;` -/
def readUser (b : List UInt8) : Except Error User := do
  let fields ← readMessage b.length b
  let email ← getString 2 fields
  let account ← readInner readTypedMessage (getMessage 3 fields)
  return ⟨getUint32 1 fields, email, account⟩

/-- `User user = 1;` -/
def readAddUserOperation (b : List UInt8) : Except Error AddUserOperation := do
  let fields ← readMessage b.length b
  let user ← readInner readUser (getMessage 1 fields)
  return ⟨user⟩

/-- `string email = 1;` -/
def readRemoveUserOperation (b : List UInt8) : Except Error RemoveUserOperation := do
  let fields ← readMessage b.length b
  let email ← getString 1 fields
  return ⟨email⟩

/-- `string tag = 1; TypedMessage operation = 2;` -/
def readAlterInboundRequest (b : List UInt8) : Except Error AlterInboundRequest := do
  let fields ← readMessage b.length b
  let tag ← getString 1 fields
  let operation ← readInner readTypedMessage (getMessage 2 fields)
  return ⟨tag, operation⟩

/-- `string pattern = 1; bool reset = 2;` -/
def readQueryStatsRequest (b : List UInt8) : Except Error QueryStatsRequest := do
  let fields ← readMessage b.length b
  let pattern ← getString 1 fields
  return ⟨pattern, getBool 2 fields⟩

/-! ## The round trip -/

/-- What `appendString` writes, as fields. -/
def stringFields (num : Nat) (s : String) : List Field :=
  if s = "" then [] else [⟨num, .bytes (utf8 s)⟩]

theorem written_appendString {b : List UInt8} {fields : List Field} (h : Written b fields)
    (num : Nat) (s : String) (hpos : 1 ≤ num) (hlt : num < 2 ^ 29)
    (hlen : (appendString b num s).length < 2 ^ 64) :
    Written (appendString b num s) (fields ++ stringFields num s) := by
  unfold appendString stringFields at *
  split
  · simpa using h
  · rename_i hs
    rw [if_neg hs] at hlen
    rw [List.append_assoc]
    refine h.add (.bytes hpos hlt ?_)
    simp only [delimited, List.length_append] at hlen
    omega

theorem written_appendMessage {b : List UInt8} {fields : List Field} (h : Written b fields)
    {num : Nat} (hpos : 1 ≤ num) (hlt : num < 2 ^ 29) {m : List UInt8}
    (hlen : (appendMessage b num m).length < 2 ^ 64) :
    Written (appendMessage b num m) (fields ++ [⟨num, .bytes m⟩]) := by
  unfold appendMessage at *
  rw [List.append_assoc]
  refine h.add (.bytes hpos hlt ?_)
  simp only [delimited, List.length_append] at hlen
  omega

/-- What is appended is no shorter, nor is the message around another. -/
theorem length_le_appendString (b : List UInt8) (num : Nat) (s : String) :
    b.length ≤ (appendString b num s).length := by
  unfold appendString
  split
  · exact le_rfl
  · simp

theorem length_le_appendMessage (b : List UInt8) (num : Nat) (m : List UInt8) :
    b.length ≤ (appendMessage b num m).length ∧ m.length ≤ (appendMessage b num m).length := by
  simp only [appendMessage, delimited, List.length_append]
  omega

theorem text_utf8 (s : String) : text (utf8 s) = .ok s := by
  have hvalid : (⟨(utf8 s).toArray⟩ : ByteArray).IsValidUTF8 := s.isValidUTF8
  rw [text, String.fromUTF8?, dif_pos hvalid]
  rfl

theorem payloads_stringFields (n num : Nat) (s : String) :
    payloads n (stringFields num s) = if num = n ∧ s ≠ "" then [utf8 s] else [] := by
  unfold stringFields
  split
  · simp [payloads, *]
  · by_cases h : num = n
    · simp [payloads, *]
    · simp [payloads, *]

theorem payloads_bytes (n num : Nat) (b : List UInt8) :
    payloads n [⟨num, .bytes b⟩] = if num = n then [b] else [] := by
  by_cases h : num = n
  · simp [payloads, h]
  · simp [payloads, h]

theorem numbers_stringFields (n num : Nat) (s : String) : numbers n (stringFields num s) = [] := by
  unfold stringFields
  split
  · rfl
  · rfl

theorem numbers_bytes (n num : Nat) (b : List UInt8) : numbers n [⟨num, .bytes b⟩] = [] := rfl

theorem payloads_varint (n num v : Nat) : payloads n [⟨num, .varint v⟩] = [] := rfl

/-- The field of a text is that text, also when it is empty and left out. -/
theorem getString_eq (num : Nat) (s : String) {fields : List Field}
    (h : payloads num fields = if s ≠ "" then [utf8 s] else []) : getString num fields = .ok s := by
  rw [getString, h]
  split
  · simp [text_utf8]
  · rename_i hs
    rw [not_not.1 hs]
    rfl

/-! ### Message by message -/

theorem ok_bind {α β : Type} (a : α) (f : α → Except Error β) : (.ok a >>= f) = f a := rfl

variable {id flow encryption email name : String} {m : List UInt8}

/-- A text and a message behind it, the form most messages have. -/
theorem written_text_message {num num' : Nat} (hnum : 1 ≤ num ∧ num < 2 ^ 29)
    (hnum' : 1 ≤ num' ∧ num' < 2 ^ 29)
    (h : (appendMessage (appendString [] num name) num' m).length < 2 ^ 64) :
    Written (appendMessage (appendString [] num name) num' m)
      (stringFields num name ++ [⟨num', .bytes m⟩]) := by
  have hstring := (length_le_appendMessage (appendString [] num name) num' m).1
  have htext := written_appendString written_nil num name hnum.1 hnum.2 (hstring.trans_lt h)
  exact written_appendMessage htext hnum'.1 hnum'.2 h

theorem read_typedMessage (h : (typedMessage name m).length < 2 ^ 64) :
    readTypedMessage (typedMessage name m) = .ok ⟨name, m⟩ := by
  have hwritten := written_text_message (by decide) (by decide) h
  have hvalue : getBytes 2 (stringFields 1 name ++ [⟨2, .bytes m⟩]) = m := by
    simp [getBytes, payloads_stringFields, payloads_bytes]
  rw [readTypedMessage, typedMessage, hwritten.read le_rfl, ok_bind,
    getString_eq 1 name (by simp [payloads_stringFields, payloads_bytes]), ok_bind, hvalue]
  rfl

theorem read_vlessAccount (h : (vlessAccount id flow encryption).length < 2 ^ 64) :
    readAccount (vlessAccount id flow encryption) = .ok ⟨id, flow, encryption⟩ := by
  have hfirst := length_le_appendString (appendString [] 1 id) 2 flow
  have hsecond := length_le_appendString (appendString (appendString [] 1 id) 2 flow) 3 encryption
  have hid := written_appendString written_nil 1 id (by decide) (by decide)
    ((hfirst.trans hsecond).trans_lt h)
  have hflow := written_appendString hid 2 flow (by decide) (by decide)
    (hsecond.trans_lt h)
  have hwritten := written_appendString hflow 3 encryption (by decide) (by decide) h
  rw [readAccount, vlessAccount, hwritten.read le_rfl, ok_bind,
    getString_eq 1 id (by simp [payloads_stringFields]), ok_bind,
    getString_eq 2 flow (by simp [payloads_stringFields]), ok_bind,
    getString_eq 3 encryption (by simp [payloads_stringFields])]
  rfl

theorem read_user {account : TypedMessage} (h : (user email m).length < 2 ^ 64)
    (hm : readTypedMessage m = .ok account) :
    readUser (user email m) = .ok ⟨0, email, some account⟩ := by
  have hwritten := written_text_message (by decide) (by decide) h
  have haccount : getMessage 3 (stringFields 2 email ++ [⟨3, .bytes m⟩]) = some m := by
    simp [getMessage, payloads_stringFields, payloads_bytes]
  have hlevel : getUint32 1 (stringFields 2 email ++ [⟨3, .bytes m⟩]) = 0 := by
    simp [getUint32, numbers_stringFields, numbers_bytes]
  rw [readUser, user, hwritten.read le_rfl, ok_bind,
    getString_eq 2 email (by simp [payloads_stringFields, payloads_bytes]), ok_bind, haccount,
    readInner, hm, hlevel]
  rfl

theorem read_alterInboundRequest {operation : TypedMessage}
    (h : (alterInboundRequest name m).length < 2 ^ 64) (hm : readTypedMessage m = .ok operation) :
    readAlterInboundRequest (alterInboundRequest name m) = .ok ⟨name, some operation⟩ := by
  have hwritten := written_text_message (by decide) (by decide) h
  have hoperation : getMessage 2 (stringFields 1 name ++ [⟨2, .bytes m⟩]) = some m := by
    simp [getMessage, payloads_stringFields, payloads_bytes]
  rw [readAlterInboundRequest, alterInboundRequest, hwritten.read le_rfl, ok_bind,
    getString_eq 1 name (by simp [payloads_stringFields, payloads_bytes]), ok_bind, hoperation,
    readInner, hm]
  rfl

theorem read_addUserOperation {u : User} (h : (appendMessage [] 1 m).length < 2 ^ 64)
    (hm : readUser m = .ok u) :
    readAddUserOperation (appendMessage [] 1 m) = .ok ⟨some u⟩ := by
  have hwritten := written_appendMessage written_nil (by decide) (by decide) h
  have huser : getMessage 1 ([] ++ [⟨1, .bytes m⟩]) = some m := by
    simp [getMessage, payloads_bytes]
  rw [readAddUserOperation, hwritten.read le_rfl, ok_bind, huser, readInner, hm]
  rfl

theorem read_removeUserOperation (h : (appendString [] 1 email).length < 2 ^ 64) :
    readRemoveUserOperation (appendString [] 1 email) = .ok ⟨email⟩ := by
  have hwritten := written_appendString written_nil 1 email (by decide) (by decide) h
  rw [readRemoveUserOperation, hwritten.read le_rfl, ok_bind,
    getString_eq 1 email (by simp [payloads_stringFields])]
  rfl

theorem read_queryStatsRequest {reset : Bool} (h : (queryStatsRequest name reset).length < 2 ^ 64) :
    readQueryStatsRequest (queryStatsRequest name reset) = .ok ⟨name, reset⟩ := by
  have hlen : (appendString [] 1 name).length ≤ (queryStatsRequest name reset).length := by
    cases reset with
    | false => exact le_rfl
    | true => simp [queryStatsRequest, appendBool]
  have hpattern := written_appendString written_nil 1 name (by decide) (by decide)
    (hlen.trans_lt h)
  cases reset with
  | false =>
      have hreset : getBool 2 ([] ++ stringFields 1 name) = false := by
        simp [getBool, numbers_stringFields]
      rw [readQueryStatsRequest, queryStatsRequest, appendBool, if_pos (by decide), hpattern.read le_rfl,
        ok_bind, getString_eq 1 name (by simp [payloads_stringFields]), hreset]
      rfl
  | true =>
      have henc : Field.Encodes ⟨2, .varint 1⟩ (tag 2 .varint ++ varint 1) :=
        .varint (by decide) (by decide) (by decide)
      have hwritten := hpattern.add henc
      have hreset : getBool 2 ([] ++ stringFields 1 name ++ [⟨2, .varint 1⟩]) = true := by
        rw [getBool, numbers_append]
        simp [numbers]
      rw [readQueryStatsRequest, queryStatsRequest, appendBool, if_neg (by decide),
        List.append_assoc, hwritten.read le_rfl, ok_bind,
        getString_eq 1 name (by simp [payloads_stringFields, payloads_varint]), hreset]
      rfl

/-- **xray reads what the node wrote.**  The request is a slice, whose length is a machine
integer; the strings are any texts, of any length that fits. -/
theorem requests_read_back (tag email uuid flow pattern : String) (reset : Bool) :
    ((addUserRequest tag email uuid flow).length < 2 ^ 64 → ∃ operation account,
      readAlterInboundRequest (addUserRequest tag email uuid flow) =
        .ok ⟨tag, some ⟨"xray.app.proxyman.command.AddUserOperation", operation⟩⟩ ∧
      readAddUserOperation operation =
        .ok ⟨some ⟨0, email, some ⟨"xray.proxy.vless.Account", account⟩⟩⟩ ∧
      readAccount account = .ok ⟨uuid, flow, "none"⟩) ∧
    ((removeUserRequest tag email).length < 2 ^ 64 → ∃ operation,
      readAlterInboundRequest (removeUserRequest tag email) =
        .ok ⟨tag, some ⟨"xray.app.proxyman.command.RemoveUserOperation", operation⟩⟩ ∧
      readRemoveUserOperation operation = .ok ⟨email⟩) ∧
    ((queryStatsRequest pattern reset).length < 2 ^ 64 →
      readQueryStatsRequest (queryStatsRequest pattern reset) = .ok ⟨pattern, reset⟩) := by
  refine ⟨fun h => ?_, fun h => ?_, read_queryStatsRequest⟩
  · -- each message is inside the next, so all of them are as short as the request
    have htyped := (length_le_appendMessage _ _ _).2.trans_lt h
    have hoperation := (length_le_appendMessage _ _ _).2.trans_lt htyped
    have huser := (length_le_appendMessage _ _ _).2.trans_lt hoperation
    have hwrapped := (length_le_appendMessage _ _ _).2.trans_lt huser
    have haccount := (length_le_appendMessage _ _ _).2.trans_lt hwrapped
    exact ⟨_, _, read_alterInboundRequest h (read_typedMessage htyped),
      read_addUserOperation hoperation (read_user huser (read_typedMessage hwrapped)),
      read_vlessAccount haccount⟩
  · have htyped := (length_le_appendMessage _ _ _).2.trans_lt h
    have hoperation := (length_le_appendMessage _ _ _).2.trans_lt htyped
    exact ⟨_, read_alterInboundRequest h (read_typedMessage htyped),
      read_removeUserOperation hoperation⟩

/-- A user without a name or a flow. -/
theorem requests_read_back_unnamed : ∃ operation account,
    readAlterInboundRequest (addUserRequest "proxy" "" "a3482e88" "") =
      .ok ⟨"proxy", some ⟨"xray.app.proxyman.command.AddUserOperation", operation⟩⟩ ∧
    readAddUserOperation operation =
      .ok ⟨some ⟨0, "", some ⟨"xray.proxy.vless.Account", account⟩⟩⟩ ∧
    readAccount account = .ok ⟨"a3482e88", "", "none"⟩ :=
  (requests_read_back "proxy" "" "a3482e88" "" "" false).1 (by decide +kernel)

end Dvpnd.XRay
