import Dvpnd.Lib.Steps
import Dvpnd.Services.UUID

/-!
# Who the Hysteria2 server lets in

The Hysteria2 server posts the password of each new client to the node
(`services/hysteria/hysteria.go`, `handleAuth`), which looks it up in `byAuth`.  A peer is
entered there under the text `FormatUUID` gives its bytes, while the request that
brought those bytes may have spelt them otherwise.

`AddPeer` and `RemovePeer` each write twice, in `byAuth` under the service's lock and in
the set of peers after it, and the hook can read between the two; the node's admission
lock keeps two such calls apart.

* `handleAuth` — the hook.
* `Hook`, `step` — the two records and the call under way, write by write.
* `Hook.Inv`, `Inv.step` — **`byAuth` holds exactly the peers that are entered**, at every
  point of a call.
* `auth_spelling` — **a client is let in by the lower-case text and by no other spelling
  its request may have used**, and no password lets in a client that is not entered.
* `auth_spelling_upper` — a request in upper case is accepted and its client refused.
-/

namespace Dvpnd.Hysteria.Auth

open JSON

/-! ## The hook -/

/-- `ParsePeerRequest`. -/
def parsePeerRequest (raw : Except String UUIDRequest) : Except UUIDRequestError (List UInt8) :=
  uuidPeerRequest raw

/-- `authResponse`. -/
structure AuthResponse where
  ok : Bool
  id : String := ""
  deriving DecidableEq

/-- What the hook answers: an HTTP error, or a response. -/
inductive AuthAnswer where
  | error (status : Nat) (text : String)
  | response (res : AuthResponse)
  deriving DecidableEq

/-- `handleAuth`.  The body is the `auth` the decoder finds in it, if it can read it. -/
def handleAuth (method : String) (body : Option String) (s : Clients) : AuthAnswer :=
  if method ≠ "POST" then .error 405 "POST only"
  else
    match body with
    | none => .error 400 "bad request"
    | some auth =>
        match s.names auth with
        | none => .response { ok := false }
        | some key => .response { ok := true, id := key.text }

/-- The hook lets in exactly the names it holds. -/
theorem handleAuth_post (auth : String) (s : Clients) :
    handleAuth "POST" (some auth) s = .response
      (match s.names auth with
        | none => { ok := false }
        | some key => { ok := true, id := key.text }) := by
  rw [handleAuth, if_neg (by decide)]
  cases s.names auth <;> rfl

/-! ## The calls, write by write -/

/-- The call between its two writes, if there is one. -/
inductive Call where
  | idle
  | putting (data : List UInt8) (h : checkPeerData data = none)
  | deleting (data : List UInt8)

/-- The service's records, and the call under way. -/
structure Hook where
  clients : Clients
  call : Call

/-- What the calls do. -/
inductive Act where
  | addPeer (data : List UInt8)
  | removePeer (data : List UInt8)
  | finish

/-- One write.  A call begins when no other is under way. -/
def step (s : Hook) : Act → Option Hook
  | .addPeer data =>
      match s.call with
      | .idle =>
          match h : checkPeerData data with
          | some _ => some s
          | none => some ⟨s.clients.record data, .putting data h⟩
      | _ => none
  | .removePeer data =>
      match s.call with
      | .idle =>
          match checkPeerData data with
          | some _ => some s
          | none => some ⟨s.clients.strike data, .deleting data⟩
      | _ => none
  | .finish =>
      match s.call with
      | .idle => none
      | .putting data h => some ⟨s.clients.put data h, .idle⟩
      | .deleting data => some ⟨s.clients.delete data, .idle⟩

/-- `NewHysteria`. -/
def start : Hook := ⟨Clients.empty, .idle⟩

/-- The states of a run of calls. -/
def Reached (s : Hook) : Prop := Steps.Reach step (fun _ _ => True) start s

/-! ## What `byAuth` holds -/

/-- The peer is entered: its addition has made its first write, and no removal has since. -/
def Hook.Entered (s : Hook) (data : List UInt8) : Prop :=
  match s.call with
  | .idle => Key.of data ∈ s.clients.peers.keys
  | .putting d _ => data = d ∨ Key.of data ∈ s.clients.peers.keys
  | .deleting d => data ≠ d ∧ Key.of data ∈ s.clients.peers.keys

/-- Each name is that of a peer, and the peers that are entered have theirs. -/
structure Hook.Inv (s : Hook) : Prop where
  named : ∀ {name key}, s.clients.names name = some key →
    ∃ data, checkPeerData data = none ∧ formatUUID data = name ∧ Key.of data = key
  entered : ∀ {data}, checkPeerData data = none →
    (s.clients.names (formatUUID data) = some (Key.of data) ↔ s.Entered data)

/-- What a write can be. -/
theorem step_cases {s s' : Hook} {a : Act} (h : step s a = some s') :
    s' = s ∨
    (s.call = .idle ∧ ∃ data h, s' = ⟨s.clients.record data, .putting data h⟩) ∨
    (s.call = .idle ∧ ∃ data, s' = ⟨s.clients.strike data, .deleting data⟩) ∨
    (∃ data h, s.call = .putting data h ∧
      s' = ⟨s.clients.put data h, .idle⟩) ∨
    ∃ data, s.call = .deleting data ∧
      s' = ⟨s.clients.delete data, .idle⟩ := by
  cases a with
  | addPeer data =>
      cases hcall : s.call with
      | idle =>
          simp only [step, hcall] at h
          split at h
          · exact .inl (Option.some.inj h).symm
          · exact .inr (.inl ⟨rfl, data, _, (Option.some.inj h).symm⟩)
      | putting d hd => simp only [step, hcall] at h; cases h
      | deleting d => simp only [step, hcall] at h; cases h
  | removePeer data =>
      cases hcall : s.call with
      | idle =>
          simp only [step, hcall] at h
          split at h
          · exact .inl (Option.some.inj h).symm
          · exact .inr (.inr (.inl ⟨rfl, data, (Option.some.inj h).symm⟩))
      | putting d hd => simp only [step, hcall] at h; cases h
      | deleting d => simp only [step, hcall] at h; cases h
  | finish =>
      cases hcall : s.call with
      | idle => simp only [step, hcall] at h; cases h
      | putting d hd =>
          simp only [step, hcall] at h
          exact .inr (.inr (.inr (.inl ⟨d, hd, rfl, (Option.some.inj h).symm⟩)))
      | deleting d =>
          simp only [step, hcall] at h
          exact .inr (.inr (.inr (.inr ⟨d, rfl, (Option.some.inj h).symm⟩)))

theorem start_inv : start.Inv where
  named h := by cases h
  entered _ := ⟨(nomatch ·), fun h => absurd h (Finset.notMem_empty _)⟩

/-- The first write of a call changes one name, and which of the peers is entered changes with it. -/
theorem Hook.Inv.write {s s' : Hook} {d : List UInt8} {v : Option Key} (hi : s.Inv)
    (hnames : s'.clients.names = Function.update s.clients.names (formatUUID d) v)
    (hv : v = none ∨ checkPeerData d = none ∧ v = some (Key.of d))
    (hself : v = some (Key.of d) ↔ s'.Entered d)
    (hothers : ∀ data, data ≠ d → (s'.Entered data ↔ s.Entered data)) : s'.Inv := by
  refine ⟨fun {name key} hname => ?_, fun {data} hdata => ?_⟩
  · rw [hnames] at hname
    by_cases hn : name = formatUUID d
    · rw [hn, Function.update_self] at hname
      rcases hv with rfl | ⟨hok, rfl⟩
      · cases hname
      · exact ⟨d, hok, hn.symm, Option.some.inj hname⟩
    · rw [Function.update_of_ne hn] at hname
      exact hi.named hname
  · rw [hnames]
    by_cases hn : data = d
    · rw [hn, Function.update_self]
      exact hself
    · have hname : formatUUID data ≠ formatUUID d := fun heq => hn (formatUUID_injective heq)
      rw [Function.update_of_ne hname, hothers data hn]
      exact hi.entered hdata

/-- **Every write keeps `byAuth` in step with the peers that are entered.** -/
theorem Hook.Inv.step {s s' : Hook} {a : Act} (hi : s.Inv) (h : step s a = some s') : s'.Inv := by
  rcases step_cases h with rfl | ⟨hcall, d, hd, rfl⟩ | ⟨hcall, d, rfl⟩ | ⟨d, hd, hcall, rfl⟩ |
    ⟨d, hcall, rfl⟩
  · exact hi
  · -- the first write of an addition
    refine hi.write rfl (.inr ⟨hd, rfl⟩) (by simp [Entered]) fun data hn => ?_
    simp [Entered, hcall, hn, Clients.record]
  · -- the first write of a removal
    refine hi.write rfl (.inl rfl) (by simp [Entered]) fun data hn => ?_
    simp [Entered, hcall, hn, Clients.strike]
  · -- the set of peers follows
    refine ⟨hi.named, fun {data} hdata => ?_⟩
    have hold := hi.entered hdata
    rw [Entered, hcall] at hold
    refine Iff.trans hold ?_
    simp [Entered, Clients.put, Users.put, Key.of_injective.eq_iff]
  · refine ⟨hi.named, fun {data} hdata => ?_⟩
    have hold := hi.entered hdata
    rw [Entered, hcall] at hold
    refine Iff.trans hold ?_
    simp [Entered, Clients.delete, Users.delete, Key.of_injective.eq_iff]

theorem Reached.inv {s : Hook} (h : Reached s) : s.Inv :=
  Steps.Reach.invariant start_inv (fun hi _ hs => hi.step hs) h

/-! ## Requests and passwords -/

/-- A request that is accepted brings sixteen bytes. -/
theorem check_of_uuidFromJSON {v : Option Value} {data : List UInt8}
    (h : uuidFromJSON v = .ok data) : checkPeerData data = none := by
  suffices hlen : data.length = 16 by rw [checkPeerData, if_neg (not_not.2 hlen)]
  unfold uuidFromJSON at h
  split at h
  · cases h
  · split at h
    · split_ifs at h with hlen
      cases h
      exact not_not.1 hlen
    · split at h
      · cases h
      · exact length_of_parseUUID h

/-- What is accepted is what `UUIDFromJSON` reads. -/
theorem uuidFromJSON_of_parsePeerRequest {req : UUIDRequest} {data : List UInt8}
    (h : parsePeerRequest (.ok req) = .ok data) : uuidFromJSON req.uuid = .ok data := by
  unfold parsePeerRequest uuidPeerRequest at h
  dsimp only at h
  split_ifs at h
  cases hid : uuidFromJSON req.uuid with
  | error e => rw [hid] at h; cases h
  | ok id => rw [hid] at h; cases h; rfl

/-- The text of some bytes is read as those bytes, so no accepted spelling of a peer is the
text of another. -/
theorem eq_of_formatUUID {data d : List UInt8} {text : String}
    (h : uuidFromJSON (some (.string text)) = .ok data) (hd : checkPeerData d = none)
    (htext : formatUUID d = text) : data = d := by
  have hlen : d.length = 16 := by
    by_contra hne
    rw [checkPeerData, if_pos hne] at hd
    cases hd
  rw [← htext, uuidFromJSON_formatUUID hlen] at h
  exact (Except.ok.inj h).symm

/-- An addition of accepted data succeeds. -/
theorem addPeer_eq {data : List UInt8} (h : checkPeerData data = none) (c : Except String Nat)
    (s : Clients) : hysteria.addPeer data c s = (.ok [], s.add data h) := by
  simp only [hysteria]
  split
  · rename_i e he
    rw [h] at he
    cases he
  · rfl

/-- **The password is the lower-case text.**  Whatever string a request named its UUID by,
once the peer is added the hook lets in a client with that string as its password exactly
when it is the text `FormatUUID` gives, and then under the peer's session key.  And at
every point of every run, a password lets a client in exactly when it is the text of a
peer that is entered. -/
theorem auth_spelling {s : Hook} (hs : Reached s) :
    (∀ text publicKey data c, s.call = .idle →
      parsePeerRequest (.ok ⟨some (.string text), publicKey⟩) = .ok data →
      (hysteria.addPeer data c s.clients).1 = .ok [] ∧
      handleAuth "POST" (some text) (hysteria.addPeer data c s.clients).2 =
        .response (if text = formatUUID data then { ok := true, id := (Key.of data).text }
          else { ok := false })) ∧
    ∀ method body id, handleAuth method body s.clients = .response { ok := true, id := id } ↔
      method = "POST" ∧ ∃ data, checkPeerData data = none ∧ body = some (formatUUID data) ∧
        id = (Key.of data).text ∧ s.Entered data := by
  have hi := hs.inv
  refine ⟨fun text publicKey data c _ hreq => ?_, fun method body id => ⟨fun h => ?_, ?_⟩⟩
  · have hread := uuidFromJSON_of_parsePeerRequest hreq
    have hcheck := check_of_uuidFromJSON hread
    rw [addPeer_eq hcheck c s.clients, handleAuth_post]
    refine ⟨rfl, ?_⟩
    by_cases htext : text = formatUUID data
    · simp [htext]
    · rw [if_neg htext, Clients.add_names, Function.update_of_ne htext]
      cases hname : s.clients.names text with
      | none => rfl
      | some key =>
          obtain ⟨d, hd, hformat, -⟩ := hi.named hname
          rw [eq_of_formatUUID hread hd hformat] at htext
          exact absurd hformat.symm htext
  · unfold handleAuth at h
    split_ifs at h with hmethod
    cases body with
    | none => cases h
    | some auth =>
        cases hname : s.clients.names auth with
        | none => simp [hname] at h
        | some key =>
            simp only [hname, AuthAnswer.response.injEq, AuthResponse.mk.injEq, true_and] at h
            obtain ⟨data, hdata, rfl, rfl⟩ := hi.named hname
            exact ⟨not_not.1 hmethod, data, hdata, rfl, h.symm, (hi.entered hdata).1 hname⟩
  · rintro ⟨rfl, data, hdata, rfl, rfl, hentered⟩
    rw [handleAuth_post, (hi.entered hdata).2 hentered]

/-- A UUID as an operating system may print it. -/
def upperText : String := "3F2504E0-4F89-41D3-9A0C-0305E82C3301"

/-- Its bytes. -/
def upperData : List UInt8 :=
  [0x3f, 0x25, 0x04, 0xe0, 0x4f, 0x89, 0x41, 0xd3, 0x9a, 0x0c, 0x03, 0x05, 0xe8, 0x2c, 0x33, 0x01]

/-- In a new service, the request in lower case is accepted and its client let in. -/
theorem auth_spelling_lower :
    handleAuth "POST" (some (formatUUID upperData))
        (hysteria.addPeer upperData (.ok 200) start.clients).2 =
      .response { ok := true, id := (Key.of upperData).text } := by
  have h := ((auth_spelling .start).1 (formatUUID upperData) none upperData (.ok 200) rfl
    (by decide +kernel)).2
  rwa [if_pos rfl] at h

/-- **A request in upper case is accepted, and its client refused**; so is one in base64. -/
theorem auth_spelling_upper :
    parsePeerRequest (.ok ⟨some (.string upperText), none⟩) = .ok upperData ∧
    handleAuth "POST" (some upperText) (hysteria.addPeer upperData (.ok 200) start.clients).2 =
      .response { ok := false } ∧
    parsePeerRequest (.ok ⟨some (.string (Key.of upperData).text), none⟩) = .ok upperData ∧
    handleAuth "POST" (some (Key.of upperData).text)
        (hysteria.addPeer upperData (.ok 200) start.clients).2 =
      .response { ok := false } := by
  decide +kernel

end Dvpnd.Hysteria.Auth
