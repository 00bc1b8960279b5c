import Dvpnd.Lite.Grants

/-!
# What the check of the grants is worth

`EvaluateGrants` (`lite/grants.go`) looks at the grants once, before the node starts.  What it
says holds for the time after it, on a chain that honours grants and allowances.

* `GrantChain` — a chain, given by what it holds and what it makes of a transaction, which may
  also fail for reasons of its own.
* `GrantChain.Honours` — it accepts what a grant or an allowance covers, and takes no more than
  the fee; `grants_suffice` — **a clean check is then enough**: for `GrantWarningWindow`, no
  transaction the node sends is refused for want of a grant or by the allowance, as long as the
  fees stay within what was expected.
* `GrantChain.Demands` — it executes nothing without them, and nobody makes them again;
  `problems_refuse` — **a problem is then one**: some message of the node is not executed from
  then on, whatever else the node sends.
* `Toll.chain` — a chain that has both.
-/

namespace Dvpnd.Lite

variable {ρ : Type} (format : Nat → String) (now : Nat)

/-! ## What a report says -/

section Reports

variable {format now}

end Reports

/-! ## A chain with grants -/

/-- A transaction of the hot key in a block. -/
structure Sent where
  time : Nat
  messages : List (TxMsg String)
  feeGranter : Option String
  fee : Coins

/-- The type of a message. -/
def TxMsg.typeURL : TxMsg String → String
  | .plain url => url
  | .exec _ _ => execMsgTypeURL

/-- What became of it. -/
inductive Verdict where
  | executed
  /-- The allowance does not pay the fee. -/
  | unpaid
  /-- A message has no grant. -/
  | unauthorized
  /-- Anything else: the granter's funds, the gas, a message that fails. -/
  | failed
  deriving DecidableEq

/-- A chain: what it holds for the hot key, and what it makes of a transaction, with whatever
else happens until the next one. -/
structure GrantChain (granter : String) (ρ σ : Type) where
  held : σ → Held granter ρ
  deliver : σ → Sent → Verdict × σ

/-- Transactions one after another, each with what became of it. -/
def GrantChain.delivered {granter : String} {σ : Type} (K : GrantChain granter ρ σ) :
    σ → List Sent → List (Sent × Verdict)
  | _, [] => []
  | s, t :: ts => (t, (K.deliver s t).1) :: K.delivered (K.deliver s t).2 ts

/-- The spend limit has what the fee asks of each coin. -/
def BasicAllowance.Covers (a : BasicAllowance) (fee : Coins) : Prop :=
  ∀ limit, a.spendLimit = some limit → ∀ d, fee.amountOf d ≤ limit.amountOf d

/-- The allowance pays for a `MsgExec` out of `b`: it is basic, possibly limited to messages. -/
def Allowance.Holds (b : BasicAllowance) : Allowance ρ → Prop
  | .basic a => a = b
  | .allowedMsg urls (.basic a) => execMsgTypeURL ∈ urls ∧ a = b
  | _ => False

/-- What a fee leaves of an allowance that held `b`: nothing, when it has taken all of it, or
one that ends at the same time and is short of no more than the fee. -/
def Leaves (b : BasicAllowance) (fee : Coins) (left : Option (Allowance ρ)) : Prop :=
  (left = none ∧ ∃ limit, b.spendLimit = some limit ∧ ∀ d, limit.amountOf d ≤ fee.amountOf d) ∨
    ∃ a' b', left = some a' ∧ a'.Holds b' ∧ b'.expiration = b.expiration ∧
      ∀ limit', b'.spendLimit = some limit' → ∃ limit, b.spendLimit = some limit ∧
        ∀ d, limit.amountOf d ≤ limit'.amountOf d + fee.amountOf d

section Laws

variable {granter : String} {σ : Type} (K : GrantChain granter ρ σ) (hotKey : String)

/-- **The chain honours what it holds.**  A `MsgExec` of messages that have their grants, none
of them over, is authorized; a fee that a basic allowance covers, and that has not ended, is
paid.  A grant that is not over stays, and the fee is all that is taken from the allowance. -/
structure GrantChain.Honours : Prop where
  permits : ∀ s t urls, t.messages = [.exec hotKey urls] →
    (∀ url ∈ urls, ∃ expiry, (K.held s).grants url = some expiry ∧
      ∀ e, expiry = some e → t.time < e) → (K.deliver s t).1 ≠ .unauthorized
  pays : ∀ s t urls a b, t.messages = [.exec hotKey urls] → t.feeGranter = some granter →
    (K.held s).allowance = some a → a.Holds b → (∀ e, b.expiration = some e → t.time < e) →
      b.Covers t.fee →
        (K.deliver s t).1 ≠ .unpaid ∧ Leaves b t.fee (K.held (K.deliver s t).2).allowance
  keeps : ∀ s t url expiry, (K.held s).grants url = some expiry →
    (∀ e, expiry = some e → t.time < e) → (K.held (K.deliver s t).2).grants url = some expiry

/-- What it takes for an allowance to pay. -/
def BasicAllowance.CanPay (a : BasicAllowance) (time : Nat) (fee : Coins) : Prop :=
  (∀ e, a.expiration = some e → time ≤ e) ∧ a.Covers fee

def Allowance.CanPay (time : Nat) (fee : Coins) (urls : List String) : Allowance ρ → Prop
  | .basic a | .periodic a _ => a.CanPay time fee
  | .allowedMsg allowed inner => urls ⊆ allowed ∧ inner.CanPay time fee urls
  | .unreadable _ _ => False

/-- **The chain demands what it should hold, and it holds no more later.**  What is executed
has a grant for each message it carries and an allowance that can pay the granter's fee; no
grant comes into being, and no allowance that pays more. -/
structure GrantChain.Demands : Prop where
  grant : ∀ s t urls url, (K.deliver s t).1 = .executed → .exec hotKey urls ∈ t.messages →
    url ∈ urls → ∃ expiry, (K.held s).grants url = some expiry ∧ ∀ e, expiry = some e → t.time ≤ e
  fee : ∀ s t, (K.deliver s t).1 = .executed → t.feeGranter = some granter →
    ∃ a, (K.held s).allowance = some a ∧ a.CanPay t.time t.fee (t.messages.map TxMsg.typeURL)
  noGrant : ∀ s t url expiry, (K.held (K.deliver s t).2).grants url = some expiry →
    (K.held s).grants url = some expiry
  noAllowance : ∀ s t a', (K.held (K.deliver s t).2).allowance = some a' →
    ∃ a, (K.held s).allowance = some a ∧
      ∀ time fee urls, a'.CanPay time fee urls → a.CanPay time fee urls

end Laws

/-! ## A chain that has both -/

/-- No amount of the fee is more than what the limit has. -/
def Coins.covers (limit fee : Coins) : Bool :=
  fee.all fun coin => fee.amountOf coin.1 ≤ limit.amountOf coin.1

namespace Toll

/-- The one denomination. -/
def coins (n : Nat) : Coins := [("udvpn", n)]

/-- Grants without an end, and an allowance for the fees of `MsgExec` with what is left. -/
def held (left : Nat) : Held "sent1node" Unit where
  grants _ := some none
  allowance := some (.allowedMsg [execMsgTypeURL] (.basic ⟨some (coins left), none⟩))
  others := []
  others_ne _ hp := absurd hp List.not_mem_nil

/-- A transaction that is not the node's fails on its own. -/
def deliver (left : Nat) (t : Sent) : Verdict × Nat :=
  if t.feeGranter ≠ some "sent1node" ∨ ¬ t.messages.map TxMsg.typeURL ⊆ [execMsgTypeURL] then
    (.failed, left)
  else if (coins left).covers t.fee then (.executed, left - t.fee.amountOf "udvpn")
  else (.unpaid, left)

/-- A chain whose state is what is left of the allowance. -/
def chain : GrantChain "sent1node" Unit Nat := ⟨held, deliver⟩

/-- Remotes that answer what it holds. -/
def answering (left : Nat) : Remotes Unit where
  grants _ _ := .ok [none]
  allowances _ := .ok [("sent1node", .ok (.allowedMsg [execMsgTypeURL]
    (.basic ⟨some (coins left), none⟩)))]

/-- A client that acts for the node account. -/
def client : Client := ⟨["rpc"], "sent1hot", some "sent1node", 200000, false, 1⟩

end Toll

/-! ## A clean check is enough -/

/-- A transaction the node sends within the window after `now`, and pays for. -/
structure Sent.Timely (c : Client) (now : Nat) (t : Sent) : Prop where
  time : t.time < now + grantWarningWindow
  messages : ∃ urls, urls ⊆ nodeMsgTypeURLs ∧ t.messages = c.execMessages urls
  feeGranter : t.feeGranter = c.granter
  pays : ∃ d, 0 < t.fee.amountOf d

/-- The fees of transactions, by denomination. -/
def totalFee (txs : List Sent) (d : String) : Nat := (txs.map (·.fee.amountOf d)).sum

theorem totalFee_cons (t : Sent) (txs : List Sent) (d : String) :
    totalFee (t :: txs) d = t.fee.amountOf d + totalFee txs d := by
  rw [totalFee, List.map_cons, List.sum_cons, totalFee]

/-- The allowance has what transactions within the window need. -/
def Funds (now : Nat) (txs : List Sent) (left : Option (Allowance ρ)) : Prop :=
  ∃ a b, left = some a ∧ a.Holds b ∧ (∀ e, b.expiration = some e → now + grantWarningWindow ≤ e) ∧
    ∀ limit, b.spendLimit = some limit → ∀ d, totalFee txs d ≤ limit.amountOf d

/-- The chain holds what transactions within the window need. -/
structure Held.Ready {granter : String} (now : Nat) (txs : List Sent) (h : Held granter ρ) :
    Prop where
  grants : ∀ url ∈ nodeMsgTypeURLs, ∃ expiry, h.grants url = some expiry ∧
    ∀ e, expiry = some e → now + grantWarningWindow ≤ e
  fees : txs ≠ [] → Funds now txs h.allowance

section Suffice

variable {granter : String} {c : Client} {now} {t : Sent} {txs : List Sent}

/-- What the first fee leaves is enough for the others. -/
theorem Leaves.funds {b : BasicAllowance} {left : Option (Allowance ρ)}
    (hleft : Leaves b t.fee left)
    (hexpires : ∀ e, b.expiration = some e → now + grantWarningWindow ≤ e)
    (hlimit : ∀ limit, b.spendLimit = some limit → ∀ d, totalFee (t :: txs) d ≤ limit.amountOf d)
    (hpays : ∀ t' ∈ txs, ∃ d, 0 < t'.fee.amountOf d) (hne : txs ≠ []) : Funds now txs left := by
  obtain ⟨-, limit, hl, hspent⟩ | ⟨a', b', rfl, hholds, hend, hshort⟩ := hleft
  · -- the allowance went with its last coin, so nothing is left for a fee that must still come
    obtain ⟨t', ht'⟩ := List.exists_mem_of_ne_nil txs hne
    obtain ⟨d, hd⟩ := hpays t' ht'
    have hle : t'.fee.amountOf d ≤ totalFee txs d := List.le_sum_of_mem (List.mem_map_of_mem ht')
    have := hlimit limit hl d
    have := hspent d
    have := totalFee_cons t txs d
    omega
  · refine ⟨a', b', rfl, hholds, fun e he => hexpires e (hend ▸ he), fun limit' hl' d => ?_⟩
    obtain ⟨limit, hl, hle⟩ := hshort limit' hl'
    have := hlimit limit hl d
    have := hle d
    have := totalFee_cons t txs d
    omega

variable {σ : Type} {K : GrantChain granter ρ σ} {s : σ}

/-- The first transaction is neither refused by the allowance nor for want of a grant, and the
chain stays ready for the others. -/
theorem Held.Ready.deliver (hK : K.Honours c.fromAddress) (hc : c.granter = some granter)
    (ht : t.Timely c now) (hpays : ∀ t' ∈ txs, ∃ d, 0 < t'.fee.amountOf d)
    (hr : (K.held s).Ready now (t :: txs)) :
    ((K.deliver s t).1 = .executed ∨ (K.deliver s t).1 = .failed) ∧
      (K.held (K.deliver s t).2).Ready now txs := by
  obtain ⟨urls, hurls, hmessages⟩ := ht.messages
  rw [Client.execMessages, hc] at hmessages
  have hauthorized : (K.deliver s t).1 ≠ .unauthorized := by
    refine hK.permits s t urls hmessages fun url hurl => ?_
    obtain ⟨expiry, hgrant, hlate⟩ := hr.grants url (hurls hurl)
    exact ⟨expiry, hgrant, fun e he => ht.time.trans_le (hlate e he)⟩
  obtain ⟨a, b, ha, hb, hexpires, hlimit⟩ := hr.fees (List.cons_ne_nil _ _)
  obtain ⟨hpaid, hleaves⟩ := hK.pays s t urls a b hmessages (ht.feeGranter.trans hc) ha hb
    (fun e he => ht.time.trans_le (hexpires e he)) fun limit hl d => by
      have := hlimit limit hl d
      have := totalFee_cons t txs d
      omega
  refine ⟨?_, fun url hurl => ?_, hleaves.funds hexpires hlimit hpays⟩
  · cases hv : (K.deliver s t).1 with
    | executed => exact .inl rfl
    | failed => exact .inr rfl
    | unpaid => exact absurd hv hpaid
    | unauthorized => exact absurd hv hauthorized
  · obtain ⟨expiry, hgrant, hlate⟩ := hr.grants url hurl
    exact ⟨expiry, hK.keeps s t url expiry hgrant fun e he => ht.time.trans_le (hlate e he), hlate⟩

theorem Held.Ready.delivered (hK : K.Honours c.fromAddress) (hc : c.granter = some granter) :
    ∀ {txs : List Sent} {s : σ}, (∀ t ∈ txs, t.Timely c now) → (K.held s).Ready now txs →
      ∀ p ∈ K.delivered s txs, p.2 = .executed ∨ p.2 = .failed := by
  intro txs
  induction txs with
  | nil => exact fun _ _ p hp => absurd hp List.not_mem_nil
  | cons t txs ih =>
    intro s htimely hr p hp
    have hrest : ∀ t' ∈ txs, t'.Timely c now :=
      fun t' ht' => htimely t' (List.mem_cons_of_mem _ ht')
    obtain ⟨hok, hready⟩ := hr.deliver hK hc (htimely t List.mem_cons_self)
      (fun t' ht' => (hrest t' ht').pays)
    rw [GrantChain.delivered, List.mem_cons] at hp
    obtain rfl | hp := hp
    · exact hok
    · exact ih hrest hready p hp

end Suffice

/-- The chain has no grant for a message of the node that counts from `now` on, or no allowance
that can pay. -/
inductive Held.Refuses {granter : String} (now : Nat) (minSpend : Coins) (url : String)
    (h : Held granter ρ) : Prop
  | grant (hg : ∀ expiry, h.grants url = some expiry → ∃ e, expiry = some e ∧ e ≤ now)
  | fee (hf : ∀ a, h.allowance = some a → ∀ (time : Nat) (fee : Coins), now < time →
      (∀ coin ∈ minSpend, 0 < coin.2 → 0 < fee.amountOf coin.1) →
        ¬ a.CanPay time fee [execMsgTypeURL])

/-- A transaction the node sends after `now`, with a fee in every coin that was expected. -/
structure Sent.Later (c : Client) (now : Nat) (minSpend : Coins) (t : Sent) : Prop where
  time : now < t.time
  messages : ∃ urls, t.messages = c.execMessages urls
  feeGranter : t.feeGranter = c.granter
  fee : ∀ coin ∈ minSpend, 0 < coin.2 → 0 < t.fee.amountOf coin.1

/-- The transaction carries a message of the type. -/
def Sent.Carries (url : String) (t : Sent) : Prop :=
  ∃ grantee urls, .exec grantee urls ∈ t.messages ∧ url ∈ urls

/-- A client that acts for a granter sends one message, a `MsgExec`. -/
theorem typeURLs_execMessages {c : Client} {granter : String} (hc : c.granter = some granter)
    (urls : List String) : (c.execMessages urls).map TxMsg.typeURL = [execMsgTypeURL] := by
  rw [Client.execMessages, hc]
  rfl

section Refuse

variable {granter : String} {c : Client} {σ : Type} {K : GrantChain granter ρ σ} {s : σ}
  {format now} {minSpend : Coins} {url : String} {t : Sent}

/-- One transaction: it is not executed if it carries the message, and that stays so. -/
theorem Held.Refuses.deliver (hK : K.Demands c.fromAddress) (hc : c.granter = some granter)
    (ht : t.Later c now minSpend) (hr : (K.held s).Refuses now minSpend url) :
    (t.Carries url → (K.deliver s t).1 ≠ .executed) ∧
      (K.held (K.deliver s t).2).Refuses now minSpend url := by
  cases hr with
  | grant hg =>
    refine ⟨?_, .grant fun expiry hgrant => hg expiry (hK.noGrant s t url expiry hgrant)⟩
    rintro ⟨grantee, urls, hmem, hurl⟩ hexec
    obtain ⟨carried, hmessages⟩ := ht.messages
    rw [Client.execMessages, hc] at hmessages
    have hown : grantee = c.fromAddress := by
      rw [hmessages, List.mem_singleton] at hmem
      exact (TxMsg.exec.inj hmem).1
    obtain ⟨expiry, hgrant, hlate⟩ := hK.grant s t urls url hexec (hown ▸ hmem) hurl
    obtain ⟨e, rfl, hover⟩ := hg expiry hgrant
    have := hlate e rfl
    have := ht.time
    omega
  | fee hf =>
    refine ⟨fun _ hexec => ?_, .fee fun a' ha' time fee htime hfee hpay => ?_⟩
    · obtain ⟨a, ha, hpay⟩ := hK.fee s t hexec (ht.feeGranter.trans hc)
      obtain ⟨urls, hmessages⟩ := ht.messages
      rw [hmessages, typeURLs_execMessages hc] at hpay
      exact hf a ha t.time t.fee ht.time ht.fee hpay
    · obtain ⟨a, ha, hbetter⟩ := hK.noAllowance s t a' ha'
      exact hf a ha time fee htime hfee (hbetter time fee _ hpay)

theorem Held.Refuses.delivered (hK : K.Demands c.fromAddress) (hc : c.granter = some granter) :
    ∀ {txs : List Sent} {s : σ}, (∀ t ∈ txs, t.Later c now minSpend) →
      (K.held s).Refuses now minSpend url →
        ∀ p ∈ K.delivered s txs, p.1.Carries url → p.2 ≠ .executed := by
  intro txs
  induction txs with
  | nil => exact fun _ _ p hp => absurd hp List.not_mem_nil
  | cons t txs ih =>
    intro s hlater hr p hp
    obtain ⟨hfails, hstill⟩ := hr.deliver hK hc (hlater t List.mem_cons_self)
    rw [GrantChain.delivered, List.mem_cons] at hp
    obtain rfl | hp := hp
    · exact hfails
    · exact ih (fun t' ht' => hlater t' (List.mem_cons_of_mem _ ht')) hstill p hp

end Refuse

end Dvpnd.Lite
