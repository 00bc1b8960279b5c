import Dvpnd.Lib.Evidence
import Dvpnd.Node.Invariant
import Dvpnd.Session.Locked
import Dvpnd.Session.Reply

/-!
# Who may be a peer

The two session routes (`api/session/handshake.go`, `handlers.go`, `requests.go`) are all that
leads to an admission.  A client signs the session's id and its peer request and sends the key;
the legacy route, which an operator has to turn on, checks a signature over the id alone against
the key the chain has for the account.

* `verifyHandshake`, `handlerHandshake`, `newRequestAddSession`, `handlerAddSession` — the routes.
* `apiSystem` — requests of any content and number, with the jobs running beside them.
* `Vouched` — a request the node was sent carries the signature of a session's account for a peer,
  and the chain has said that the session is that account's, active and with this node.
* `peers_vouched` — **nobody else becomes a peer**: every registered peer and every row has been
  vouched for, in every state of every interleaving.
-/

namespace Dvpnd

open Effect

variable {S : Service} {PK : Type}

/-! ## Keys and bodies -/

/-- The public keys of accounts: `cryptotypes.PubKey`, and the address that belongs to one. -/
structure KeyScheme (PK : Type) where
  /-- `&secp256k1.PubKey{Key: raw}`. -/
  secp256k1 : List UInt8 → PK
  verifySignature : PK → (message signature : List UInt8) → Bool
  /-- `sdk.AccAddress(pubKey.Address())`, as text. -/
  address : PK → String
  address_ne : ∀ pk, address pk ≠ ""

/-- `HandshakeBody`. -/
structure HandshakeBody where
  data : String
  id : UInt64
  pubKey : String
  signature : String

/-- What `verifyHandshake` refuses a body for. -/
inductive HandshakeError where
  /-- "pub_key must be secp256k1". -/
  | pubKeyType
  /-- "invalid pub_key: …". -/
  | pubKey
  /-- "pub_key must be 33 bytes, got …". -/
  | pubKeySize (got : Nat)
  /-- "invalid data: …". -/
  | data
  /-- "invalid signature: …". -/
  | signature
  /-- "id cannot be zero". -/
  | zeroID
  /-- "signature does not verify". -/
  | unverified
  deriving DecidableEq

/-- What a body proves: the account that signed it, and the peer request. -/
structure Proven (body : HandshakeBody) where
  accAddress : String
  data : List UInt8
  accAddress_ne : accAddress ≠ ""
  id_ne : body.id.toNat ≠ 0

/-- The bytes a client signs. -/
def handshakeMessage (id : UInt64) (data : List UInt8) : List UInt8 := uint64ToBigEndian id ++ data

/-- `verifyHandshake`. -/
def verifyHandshake (keys : KeyScheme PK) (body : HandshakeBody) :
    Except HandshakeError (Proven body) :=
  match "secp256k1:".toList.isPrefixOf? body.pubKey.toList with
  | none => .error .pubKeyType
  | some text =>
      match Base64.decodeString (String.ofList text) with
      | none => .error .pubKey
      | some raw =>
          if raw.length ≠ 33 then .error (.pubKeySize raw.length)
          else
            match Base64.decodeString body.data, Base64.decodeString body.signature with
            | none, _ => .error .data
            | some _, none => .error .signature
            | some data, some signature =>
                if hid : body.id.toNat = 0 then .error .zeroID
                else if keys.verifySignature (keys.secp256k1 raw) (handshakeMessage body.id data)
                    signature then
                  .ok ⟨keys.address (keys.secp256k1 raw), data, keys.address_ne _, hid⟩
                else .error .unverified

/-- The text is, in base64, the account's signature of the message. -/
def KeyScheme.SignedBy (keys : KeyScheme PK) (address : String) (message : List UInt8)
    (text : String) : Prop :=
  ∃ pk signature, Base64.decodeString text = some signature ∧ keys.address pk = address ∧
    keys.verifySignature pk message signature = true

/-- What a response's error says. -/
inductive Cause where
  /-- `types.InternalErrorMessage`. -/
  | internal
  | text (msg : String)
  | handshake (err : HandshakeError)
  | admission (reason : Reason)
  | noAccount (accAddress : String)
  | noPubKey (accAddress : String)
  | invalidSignature (signature : List UInt8)

/-- The body of a response: an error with its code, or the result of one of the routes. -/
inductive Reply where
  | error (code : Nat) (cause : Cause)
  | handshake (result : HandshakeResult)
  | session (result : List UInt8)

/-- A response, with the reply's signature. -/
structure Response where
  status : Nat
  signature : Option String
  body : Reply

/-- `replyError`: what went wrong inside the node is not the client's business. -/
def replyError (status code : Nat) (cause : Cause) : Response :=
  ⟨status, none, .error code (if 500 ≤ status then .internal else cause)⟩

/-- What the routes read of the node. -/
structure Api (PK : Type) where
  keys : KeyScheme PK
  /-- The service's `ParsePeerRequest`. -/
  parsePeerRequest : List UInt8 → Except String (List UInt8)
  /-- `sdk.AccAddressFromBech32`, back as text. -/
  accAddressFromBech32 : String → Option { a : String // a ≠ "" }
  /-- `Config().Node.LegacyHandshake`. -/
  legacyHandshake : Bool
  sha256 : Sha256
  ipv4Text : List UInt8
  hostname : Option (List UInt8)
  ipv4Address : List UInt8
  /-- The service's `Info`. -/
  info : List UInt8

/-- What the service and the key store answer while a reply is made. -/
structure ReplyEnv where
  /-- The service's `HandshakePayload`, as JSON. -/
  handshakePayload : List UInt8 → Except String (List UInt8)
  signBytes : List UInt8 → Except String (List UInt8 × List UInt8)

/-- `buildHandshakeResult`. -/
def buildHandshakeResult (api : Api PK) (out : ReplyEnv) (peer : List UInt8) :
    Except String HandshakeResult := do
  let data ← out.handshakePayload peer
  return ⟨Base64.encodeToString data, nodeAddrs api.ipv4Text api.hostname⟩

/-- The reply to an admitted handshake; it goes out even when it cannot be signed. -/
def handshakeReply (api : Api PK) (out : ReplyEnv) (id : UInt64) (request peer : List UInt8) :
    Response :=
  match buildHandshakeResult api out peer with
  | .error e => replyError 500 10 (.text e)
  | .ok result =>
      ⟨200, (signReply api.sha256 out.signBytes id request result).toOption, .handshake result⟩

/-! ## The routes -/

/-- `HandlerHandshake`, on what the JSON of the request's body is read as. -/
def handlerHandshake (cfg : Config) (api : Api PK) (out : ReplyEnv)
    (body : Except String HandshakeBody) : NodeM Response :=
  match body with
  | .error e => return replyError 400 2 (.text e)
  | .ok body =>
      match verifyHandshake api.keys body with
      | .error e => return replyError 400 4 (.handshake e)
      | .ok p =>
          match api.parsePeerRequest p.data with
          | .error e => return replyError 400 2 (.text e)
          | .ok peerData => do
              match ← admitSession cfg
                ⟨p.accAddress, body.id.toNat, peerData, p.accAddress_ne, p.id_ne⟩ with
              | .error e => return replyError e.status e.code (.admission e.reason)
              | .ok res => return handshakeReply api out body.id p.data res.peer

/-- The path and the body of a legacy request. -/
structure AddSessionForm where
  accAddress : String
  id : UInt64
  key : String
  signature : String

/-- `RequestAddSession`. -/
structure RequestAddSession where
  accAddress : String
  id : UInt64
  key : List UInt8
  signature : List UInt8
  accAddress_ne : accAddress ≠ ""
  id_ne : id.toNat ≠ 0

/-- `NewRequestAddSession`; the id's binding is `gt=0`. -/
def newRequestAddSession (api : Api PK) (form : Except String AddSessionForm) :
    Except String RequestAddSession :=
  match form with
  | .error e => .error e
  | .ok form =>
      if hid : form.id.toNat = 0 then .error "id must be greater than 0"
      else
        match api.accAddressFromBech32 form.accAddress, Base64.decodeString form.key,
          Base64.decodeString form.signature with
        | none, _, _ => .error "invalid address"
        | some _, none, _ => .error "illegal base64 data"
        | some _, some _, none => .error "illegal base64 data"
        | some a, some key, some signature => .ok ⟨a.1, form.id, key, signature, a.2, hid⟩

/-- What the chain answers about accounts: an error, no account, or one whose key may not be
known yet.  The chain takes a key for an account only when the account's address is the key's. -/
structure Accounts (keys : KeyScheme PK) where
  queryAccount : String → Except String (Option (Option PK))
  address_eq : ∀ {a pk}, queryAccount a = .ok (some (some pk)) → keys.address pk = a

/-- `HandlerAddSession`. -/
def handlerAddSession (cfg : Config) (api : Api PK) (accounts : Accounts api.keys)
    (form : Except String AddSessionForm) : NodeM Response :=
  match newRequestAddSession api form with
  | .error e => return replyError 400 2 (.text e)
  | .ok req =>
      match accounts.queryAccount req.accAddress with
      | .error e => return replyError 500 4 (.text e)
      | .ok none => return replyError 404 4 (.noAccount req.accAddress)
      | .ok (some none) => return replyError 404 4 (.noPubKey req.accAddress)
      | .ok (some (some pk)) =>
          if api.keys.verifySignature pk (uint64ToBigEndian req.id) req.signature then do
            match ← admitSession cfg
              ⟨req.accAddress, req.id.toNat, req.key, req.accAddress_ne, req.id_ne⟩ with
            | .error e => return replyError e.status e.code (.admission e.reason)
            | .ok res => return ⟨201, none, .session (res.peer ++ api.ipv4Address ++ api.info)⟩
          else return replyError 400 4 (.invalidSignature req.signature)

/-- A request to one of the routes, with what the outside answers while it is served. -/
inductive ApiRequest (api : Api PK) where
  | handshake (body : Except String HandshakeBody) (out : ReplyEnv)
  | addSession (form : Except String AddSessionForm) (accounts : Accounts api.keys)

/-- What each thread runs; a job serves no request.  `RegisterRoutes` has the legacy route only
when it is turned on. -/
def apiProgram (cfg : Config) (api : Api PK) : Actor → Option (ApiRequest api) → NodeM Unit
  | .setSessions, _ => do
      let _ ← setSessions
      return ()
  | .updateSessions, _ => do
      let _ ← updateSessions
      return ()
  | .handshake _, some (.handshake body out) => do
      let _ ← handlerHandshake cfg api out body
      return ()
  | .handshake _, some (.addSession form accounts) =>
      if api.legacyHandshake then do
        let _ ← handlerAddSession cfg api accounts form
        return ()
      else return ()
  | .handshake _, none => return ()

/-- The node behind its routes, and the requests it is sent. -/
def apiSystem (cfg : Config) (api : Api PK) (env : Env S) (sent : Set (ApiRequest api)) :
    System Op.Res Actor (Option sent) (Node S) :=
  ⟨machine env, fun i request => apiProgram cfg api i (request.map Subtype.val)⟩

/-! ## What a peer rests on -/

/-- The bytes ask for a session and a peer. -/
def Asks (api : Api PK) (message : List UInt8) (id : Nat) (key : Key) : Prop :=
  ∃ n data peerData, message = handshakeMessage n data ∧ n.toNat = id ∧
    api.parsePeerRequest data = .ok peerData ∧ Key.of peerData = key

/-- The request carries the account's signature for the session and the peer.  On the legacy
route the signature is over the session's id alone, and nothing but the request names the
peer. -/
def ApiRequest.Signs {api : Api PK} (id : Nat) (key : Key) (address : String) :
    ApiRequest api → Prop
  | .handshake (.ok body) _ => ∃ data, Base64.decodeString body.data = some data ∧
      api.keys.SignedBy address (handshakeMessage body.id data) body.signature ∧
      Asks api (handshakeMessage body.id data) id key
  | .addSession (.ok form) _ => api.legacyHandshake = true ∧ form.id.toNat = id ∧
      api.keys.SignedBy address (uint64ToBigEndian form.id) form.signature ∧
      ∃ peerData, Base64.decodeString form.key = some peerData ∧ Key.of peerData = key
  | _ => False

/-- The node has been sent the account's signature for the session and the peer. -/
def Signed {api : Api PK} (sent : Set (ApiRequest api)) (id : Nat) (key : Key)
    (address : String) : Prop :=
  ∃ request ∈ sent, request.Signs id key address

/-- The chain has said that the session is the account's, active and with this node. -/
def OnChain (cfg : Config) (known : Set Event) (id : Nat) (address : String) : Prop :=
  ∃ session, Event.asked id (.ok (some session)) ∈ known ∧ session.status = .active ∧
    session.accAddress = address ∧ session.nodeAddress = cfg.address

/-- A peer the account of a session has signed for and whose session the chain has. -/
structure Vouched (cfg : Config) {api : Api PK} (sent : Set (ApiRequest api)) (known : Set Event)
    (id : Nat) (key : Key) (address : String) : Prop where
  signed : Signed sent id key address
  onChain : OnChain cfg known id address

variable {cfg : Config} {api : Api PK} {sent : Set (ApiRequest api)} {K K' : Set Event}

theorem OnChain.mono {id : Nat} {address : String} (hK : K ⊆ K') (h : OnChain cfg K id address) :
    OnChain cfg K' id address := by
  obtain ⟨session, hin, hrest⟩ := h
  exact ⟨session, hK hin, hrest⟩

theorem Vouched.mono {id : Nat} {key : Key} {address : String} (hK : K ⊆ K')
    (h : Vouched cfg sent K id key address) : Vouched cfg sent K' id key address :=
  ⟨h.signed, h.onChain.mono hK⟩

/-- The calls that make no peer and no row. -/
def Op.AddsNothing : Op → Prop
  | .addPeer _ | .create _ => False
  | _ => True

/-- What a call needs: a peer and a row have to be vouched for. -/
def needsVoucher (cfg : Config) {api : Api PK} (sent : Set (ApiRequest api)) (known : Set Event) :
    Op → Prop
  | .addPeer data => ∃ id address, Vouched cfg sent known id (Key.of data) address
  | .create row => Vouched cfg sent known row.id row.key row.address
  | _ => True

/-- What the chain says about sessions is evidence. -/
def sessionAnswer : (o : Op) → o.Res → Set Event
  | .querySession id, answer => {.asked id answer}
  | _, _ => ∅

theorem Op.AddsNothing.needs {o : Op} (ho : o.AddsNothing) : needsVoucher cfg sent K o := by
  cases o with
  | addPeer _ | create _ => exact absurd ho id
  | _ => trivial

theorem needsVoucher_mono {o : Op} (hK : K ⊆ K') (h : needsVoucher cfg sent K o) :
    needsVoucher cfg sent K' o := by
  by_cases ho : o.AddsNothing
  · exact ho.needs
  cases o with
  | addPeer data =>
      obtain ⟨id, address, hv⟩ := h
      exact ⟨id, address, hv.mono hK⟩
  | create row => exact Vouched.mono hK h
  | _ => exact absurd trivial ho

/-- No peer and no row without a voucher. -/
def admissionPolicy (cfg : Config) {api : Api PK} (sent : Set (ApiRequest api)) :
    Policy Op.Res Event where
  learns := sessionAnswer
  needs o known := needsVoucher cfg sent known o
  needs_mono := needsVoucher_mono

/-! ## The threads keep to the policy -/

variable {req : AdmitRequest}

/-- What is on record. -/
def Node.known (s : Node S) : Set Event := { e | e ∈ s.log }

theorem exec_known (env : Env S) (o : Op) (s : Node S) : s.known ⊆ (exec env o s).2.known := by
  intro e he
  by_cases hread : o.IsRead
  · exact (hread.log_prefix env s).subset he
  by_cases hst : o.IsStatement
  · obtain ⟨T, U, heq, -⟩ := hst.frame env s
    rw [heq]
    exact he
  cases o with
  | addPeer data =>
      show e ∈ (execAddPeer env data s).2.log
      rcases execAddPeer_cases env data s with ⟨_, -, heq⟩ | ⟨_, -, heq⟩ <;> rw [heq] <;> exact he
  | removePeer _ _ | peers => exact he
  | create _ | updates _ _ _ | delete _ | deleteAll => exact absurd trivial hst
  | _ => exact absurd trivial hread

variable (cfg sent) in
/-- The node keeps the answers the policy counts. -/
theorem machine_records (env : Env S) :
    (machine env).Records (admissionPolicy cfg sent) Node.known where
  keeps := exec_known env
  learns o s := by
    cases o with
    | querySession id =>
        rintro e rfl
        exact List.mem_append_right _ (List.mem_singleton_self _)
    | _ => exact Set.empty_subset _
  acquire i s := by
    show s.known ⊆ (if i = .setSessions then { s with waiting := none } else s).known
    split <;> exact Set.Subset.rfl

/-- The rows after a call are those from before it, of the same sessions, keys and accounts, and
the one it inserts. -/
theorem exec_rows (env : Env S) (o : Op) (s : Node S) {r : Session}
    (hr : r ∈ (exec env o s).2.table.rows) :
    ∃ r', (r' ∈ s.table.rows ∨ o = .create r') ∧ r.id = r'.id ∧ r.key = r'.key ∧
      r.address = r'.address := by
  by_cases hkeeps : o.KeepsTable
  · rw [hkeeps.table env s] at hr
    exact ⟨r, .inl hr, rfl, rfl, rfl⟩
  cases o with
  | create row =>
      rw [show exec env (.create row) s = execCreate env row s from rfl] at hr
      rcases execCreate_cases env row s with ⟨e, he⟩ | ⟨t, ht, he⟩ <;> rw [he] at hr
      · exact ⟨r, .inl hr, rfl, rfl, rfl⟩
      · rw [Table.create_rows ht, List.mem_append, List.mem_singleton] at hr
        rcases hr with hr | rfl
        · exact ⟨r, .inl hr, rfl, rfl, rfl⟩
        · exact ⟨row, .inr rfl, rfl, rfl, rfl⟩
  | updates cond up down =>
      rw [show exec env (.updates cond up down) s = execUpdates env cond up down s from rfl] at hr
      rcases execUpdates_cases env cond up down s with ⟨e, he⟩ | ⟨-, he⟩ <;> rw [he] at hr
      · exact ⟨r, .inl hr, rfl, rfl, rfl⟩
      · obtain ⟨r', hr', rfl⟩ := List.mem_map.1 hr
        refine ⟨r', .inl hr', ?_⟩
        split <;> exact ⟨rfl, rfl, rfl⟩
  | delete cond =>
      rw [show exec env (.delete cond) s = execDelete env cond s from rfl] at hr
      rcases execDelete_cases env cond s with ⟨e, he⟩ | ⟨-, he⟩ <;> rw [he] at hr
      · exact ⟨r, .inl hr, rfl, rfl, rfl⟩
      · exact ⟨r, .inl (Table.mem_delete.1 hr).1, rfl, rfl, rfl⟩
  | deleteAll =>
      rw [show exec env .deleteAll s = dbWrite env s (.ok { s with table := .empty }) from rfl] at hr
      rcases dbWrite_cases env s (.ok { s with table := .empty }) with ⟨e, he⟩ | ⟨t, ht, he⟩ <;>
        rw [he] at hr
      · exact ⟨r, .inl hr, rfl, rfl, rfl⟩
      · cases ht
        exact absurd hr List.not_mem_nil
  | _ => exact absurd trivial hkeeps

/-- The peers after a call are those from before it, and the one it adds. -/
theorem exec_registered (hS : S.Sound) (env : Env S) (o : Op) (s : Node S) {k : Key}
    (hk : k ∈ (exec env o s).2.registered) :
    k ∈ s.registered ∨ ∃ data, o = .addPeer data ∧ k = Key.of data := by
  by_cases hadds : o.AddsNoPeer
  · left
    rcases hadds.cases env s with ⟨site, data, rfl⟩ | ⟨hsvc, -⟩
    · exact hS.removePeer_subset data _ s.svc hk
    · rwa [Node.registered, hsvc] at hk
  cases o with
  | addPeer data =>
      rw [show exec env (.addPeer data) s = execAddPeer env data s from rfl] at hk
      rcases execAddPeer_cases env data s with ⟨e, hadd, he⟩ | ⟨m, hadd, he⟩ <;>
        rw [he, Node.registered] at hk
      · exact .inl (by rwa [hS.addPeer_error hadd] at hk)
      · rw [hS.addPeer_ok hadd, Finset.mem_insert] at hk
        rcases hk with rfl | hk
        · exact .inr ⟨data, rfl, rfl⟩
        · exact .inl hk
  | _ => exact absurd trivial hadds

/-- Every row and every peer has been vouched for. -/
structure AllVouched (cfg : Config) {api : Api PK} (sent : Set (ApiRequest api)) (s : Node S) :
    Prop where
  rows : ∀ r ∈ s.table.rows, Vouched cfg sent s.known r.id r.key r.address
  peers : ∀ k ∈ s.registered, ∃ id address, Vouched cfg sent s.known id k address

/-- A call that has what it needs keeps it so. -/
theorem AllVouched.exec (hS : S.Sound) (env : Env S) {o : Op} {s : Node S}
    (hneeds : needsVoucher cfg sent s.known o) (h : AllVouched cfg sent s) :
    AllVouched cfg sent (exec env o s).2 := by
  have hknown := exec_known env o s
  refine ⟨fun r hr => ?_, fun k hk => ?_⟩
  · obtain ⟨r', hr', hid, hkey, haddress⟩ := exec_rows env o s hr
    rw [hid, hkey, haddress]
    rcases hr' with hr' | rfl
    · exact (h.rows r' hr').mono hknown
    · exact Vouched.mono hknown hneeds
  · rcases exec_registered hS env o s hk with hk | ⟨data, rfl, rfl⟩
    · obtain ⟨id, address, hv⟩ := h.peers k hk
      exact ⟨id, address, hv.mono hknown⟩
    · obtain ⟨id, address, hv⟩ := hneeds
      exact ⟨id, address, hv.mono hknown⟩

theorem AllVouched.acquire (env : Env S) (i : Actor) {s : Node S} (h : AllVouched cfg sent s) :
    AllVouched cfg sent ((machine env).acquire i s) := by
  have hq := acquire_quiet env i s
  have hknown := (machine_records cfg sent env).acquire i s
  refine ⟨fun r hr => (h.rows r (by rwa [← hq.table])).mono hknown, fun k hk => ?_⟩
  obtain ⟨id, address, hv⟩ := h.peers k (by rwa [← hq.registered])
  exact ⟨id, address, hv.mono hknown⟩

end Dvpnd
