import Dvpnd.Context

/-!
# Admission: the handshake that adds a peer

`admit` (`api/session/admit.go`) checks a session on the chain, enforces its byte
caps, evicts any earlier peer of the account, adds the peer to the service and
records the session.  The cheap checks and the chain queries run first, without
a lock; everything that reads or changes the peer set and the table then runs
under the admission lock.
-/

namespace Dvpnd

open Effect

/-! ## Requests, answers and errors -/

/-- What the node is configured with. -/
structure Config where
  maxPeers : Nat
  address : String
  deriving DecidableEq, Repr

/-- A session admission that has been authenticated.  Both handshakes refuse a
zero session id, and the account address is the one a public key or a valid
bech32 text stands for. -/
structure AdmitRequest where
  accAddress : String
  id : Nat
  peerData : List UInt8
  accAddress_ne : accAddress ≠ ""
  id_ne : id ≠ 0

/-- `PeerKey`. -/
def AdmitRequest.peerKey (req : AdmitRequest) : Key := Key.of req.peerData

/-- What an admission error says. -/
inductive Reason where
  | maxPeers (limit : Nat)
  | sessionExists (id : Nat)
  | keyExists (key : Key)
  | internal (err : Err)
  | noSession (id : Nat)
  | sessionStatus (status : Status) (id : Nat)
  | accountMismatch (expected got : String)
  | nodeMismatch (expected got : String)
  | bytesUsed (id : Nat) (max : Int)
  | noSubscription (id : Nat)
  | subscriptionStatus (status : Status) (id : Nat)
  | noAllocation (id : Nat) (accAddress : String)
  | allocationUsed (granted utilised : Int)
  deriving DecidableEq

/-- `apiError`: the HTTP status and the code of the response envelope. -/
structure ApiError where
  status : Nat
  code : Nat
  reason : Reason
  deriving DecidableEq

/-- What the chain says about a session, gathered before the lock is taken.
`remainingBytes` is the cap from the session's own `max_bytes`, 0 being none;
`alloc` is the account's allocation on a plan subscription. -/
structure Admission where
  session : ChainSession
  subscriptionID : Nat := 0
  remainingBytes : Int64 := 0
  alloc : Option Allocation := none
  deriving DecidableEq

structure AdmitResult where
  session : ChainSession
  peer : List UInt8
  deriving DecidableEq

/-! ## The checks -/

/-- `sessionExists`. -/
def sessionExists (cond : Session) : NodeM (Except Err Bool) := do
  match ← call (.count cond) with
  | .error e => return .error e
  | .ok n => return .ok (decide (0 < n))

/-- `checkCapacity`: refuse a handshake when the node is full or already holds
the session or the key. -/
def checkCapacity (cfg : Config) (req : AdmitRequest) : NodeM (Option ApiError) := do
  let count ← call .peerCount
  if cfg.maxPeers ≤ count then
    return some ⟨400, 1, .maxPeers cfg.maxPeers⟩
  else
    match ← sessionExists { id := req.id } with
    | .error e => return some ⟨500, 3, .internal e⟩
    | .ok true => return some ⟨409, 3, .sessionExists req.id⟩
    | .ok false =>
        match ← sessionExists { key := req.peerKey } with
        | .error e => return some ⟨500, 3, .internal e⟩
        | .ok true => return some ⟨409, 3, .keyExists req.peerKey⟩
        | .ok false => return none

/-- The cap from the session's own `max_bytes`: refused when it is used up, 0
when there is none. -/
def sessionCap (session : ChainSession) : Except ApiError Int64 :=
  if 0 < session.maxBytes then
    let diff := session.maxBytes - session.totalBytes
    if ¬ 0 < diff then .error ⟨400, 8, .bytesUsed session.id session.maxBytes⟩
    else .ok (clampInt64 diff)
  else .ok 0

/-- The part of `queryAdmission` that only a plan-subscription session goes
through. -/
def queryPlan (req : AdmitRequest) (a : Admission) (subscriptionID : Nat) :
    NodeM (Except ApiError Admission) := do
  match ← call (.querySubscription subscriptionID) with
  | .error e => return .error ⟨500, 6, .internal (.external e)⟩
  | .ok none => return .error ⟨404, 6, .noSubscription subscriptionID⟩
  | .ok (some subscription) =>
      if subscription.status ≠ .active then
        return .error ⟨400, 6, .subscriptionStatus subscription.status subscription.id⟩
      else
        match ← call (.queryAllocation subscription.id req.accAddress) with
        | .error e => return .error ⟨500, 8, .internal (.external e)⟩
        | .ok none => return .error ⟨404, 8, .noAllocation subscription.id req.accAddress⟩
        | .ok (some alloc) =>
            return .ok { a with subscriptionID := subscriptionID, alloc := some alloc }

/-- `queryAdmission`: ask the chain whether the session may be served here, and
under which byte caps. -/
def queryAdmission (cfg : Config) (req : AdmitRequest) : NodeM (Except ApiError Admission) := do
  match ← call (.querySession req.id) with
  | .error e => return .error ⟨500, 5, .internal (.external e)⟩
  | .ok none => return .error ⟨404, 5, .noSession req.id⟩
  | .ok (some session) =>
      if session.status ≠ .active then
        return .error ⟨404, 5, .sessionStatus session.status session.id⟩
      else if session.accAddress ≠ req.accAddress then
        return .error ⟨400, 5, .accountMismatch req.accAddress session.accAddress⟩
      else if session.nodeAddress ≠ cfg.address then
        return .error ⟨400, 7, .nodeMismatch cfg.address session.nodeAddress⟩
      else
        match sessionCap session with
        | .error e => return .error e
        | .ok cap =>
            match session.subscription with
            | none => return .ok { session := session, remainingBytes := cap }
            | some id => queryPlan req { session := session, remainingBytes := cap } id

/-! ## The locked part -/

/-- The condition both queries of the account's rows use. -/
def accountRows (req : AdmitRequest) (a : Admission) : Session :=
  { subscription := a.subscriptionID, address := req.accAddress }

/-- The bytes the peer may use: the session's own cap, and for a plan
subscription what its allocation has left once the bytes this node has served
and not yet reported are counted. -/
def remainingBytes (req : AdmitRequest) (a : Admission) : NodeM (Except ApiError Int64) :=
  match a.alloc with
  | none => return .ok a.remainingBytes
  | some alloc => do
      match ← call (.find (accountRows req a) none) with
      | .error e => return .error ⟨500, 8, .internal e⟩
      | .ok items =>
          let utilised := items.foldl (fun u item => u + item.servedBytes.toInt) alloc.utilisedBytes
          if alloc.grantedBytes ≤ utilised then
            return .error ⟨400, 8, .allocationUsed alloc.grantedBytes utilised⟩
          else
            let left := clampInt64 (alloc.grantedBytes - utilised)
            if a.remainingBytes = 0 ∨ left < a.remainingBytes then return .ok left
            else return .ok a.remainingBytes

/-- Drop the earlier peers of the account, up to the first that cannot be
dropped. -/
def evict : List Session → NodeM (Option Err)
  | [] => return none
  | item :: rest => do
      match ← removePeerIfExists .eviction item.key with
      | some e => return some e
      | none => evict rest

/-- The row an admission records. -/
def admittedRow (req : AdmitRequest) (a : Admission) (available : Int64) : Session where
  id := req.id
  subscription := a.subscriptionID
  key := req.peerKey
  address := req.accAddress
  available := available
  download := clampInt64 a.session.downloadBytes
  upload := clampInt64 a.session.uploadBytes
  baseDownload := clampInt64 a.session.downloadBytes
  baseUpload := clampInt64 a.session.uploadBytes
  baseDuration := a.session.duration

/-- Add the peer and record its session; a peer whose row cannot be written
comes out again. -/
def addAndRecord (req : AdmitRequest) (a : Admission) (available : Int64) :
    NodeM (Except ApiError AdmitResult) := do
  match ← call (.addPeer req.peerData) with
  | .error e => return .error ⟨500, 10, .internal (.external e)⟩
  | .ok peer =>
      match ← call (.create (admittedRow req a available)) with
      | some e => do
          let _ ← call (.removePeer .rollback req.peerData)
          return .error ⟨500, 10, .internal e⟩
      | none => return .ok ⟨a.session, peer⟩

/-- Evict the account's earlier peers, then add the new one. -/
def evictAndAdd (req : AdmitRequest) (a : Admission) (available : Int64) :
    NodeM (Except ApiError AdmitResult) := do
  match ← call (.find (accountRows req a) none) with
  | .error e => return .error ⟨500, 9, .internal e⟩
  | .ok items =>
      match ← evict items with
      | some e => return .error ⟨500, 9, .internal e⟩
      | none => addAndRecord req a available

/-- The part of `admit` that runs under the admission lock. -/
def admitLocked (cfg : Config) (req : AdmitRequest) (a : Admission) :
    NodeM (Except ApiError AdmitResult) := do
  match ← checkCapacity cfg req with
  | some e => return .error e
  | none =>
      match ← remainingBytes req a with
      | .error e => return .error e
      | .ok available => evictAndAdd req a available

/-- `admit`, under another name as Lean keeps that word for a tactic. -/
def admitSession (cfg : Config) (req : AdmitRequest) : NodeM (Except ApiError AdmitResult) := do
  match ← checkCapacity cfg req with
  | some e => return .error e
  | none =>
      match ← queryAdmission cfg req with
      | .error e => return .error e
      | .ok a => Prog.withLock (admitLocked cfg req a)

end Dvpnd
