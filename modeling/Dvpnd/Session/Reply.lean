import Dvpnd.Lib.Base64
import Mathlib.Tactic.Common

/-!
# Signed handshake replies

`api/session/reply.go`: the node signs a digest of the session, the client's request, its own
reply and the addresses, and the client checks the signature against its own values.  **The
digest is of one session, request, reply and list only**: its parts have fixed lengths but for
the last, and joined addresses can be told apart because none has a newline.

* `replyDigest`, `signReply`, `nodeAddrs` — as the source has them.
* `join_inj` — lists without newlines are determined by their join.
* `replyDigest_inj` — equal digests are of equal parts.
-/

namespace Dvpnd

/-- `sha256.Sum256`. -/
structure Sha256 where
  sum : List UInt8 → List UInt8
  length_sum : ∀ data, (sum data).length = 32

/-- The bytes of a Go string constant. -/
def asciiBytes (s : String) : List UInt8 := s.toList.map fun c => UInt8.ofNat c.toNat

/-- `replyDomain`. -/
def replyDomain : List UInt8 := asciiBytes "dvpnd/handshake-reply/v1"

/-- `sdk.Uint64ToBigEndian`. -/
def uint64ToBigEndian (v : UInt64) : List UInt8 :=
  [7, 6, 5, 4, 3, 2, 1, 0].map fun i => UInt8.ofNat (v.toNat / 256 ^ i)

/-- `strings.Join(addrs, "\n")`, over the bytes of the strings. -/
def joinAddrs (addrs : List (List UInt8)) : List UInt8 := [10].intercalate addrs

/-- What `replyDigest` writes into its hash. -/
def replyInput (h : Sha256) (id : UInt64) (request reply : List UInt8)
    (addrs : List (List UInt8)) : List UInt8 :=
  replyDomain ++ (uint64ToBigEndian id ++ (h.sum request ++ (h.sum reply ++ joinAddrs addrs)))

/-- `replyDigest`. -/
def replyDigest (h : Sha256) (id : UInt64) (request reply : List UInt8)
    (addrs : List (List UInt8)) : List UInt8 := h.sum (replyInput h id request reply addrs)

/-- `HandshakeResult`. -/
structure HandshakeResult where
  data : String
  addrs : List (List UInt8)

/-- `signReply`: the signer returns a signature and the public key it is under. -/
def signReply (h : Sha256) (signBytes : List UInt8 → Except String (List UInt8 × List UInt8))
    (id : UInt64) (request : List UInt8) (result : HandshakeResult) : Except String String :=
  match Base64.decodeString result.data with
  | none => .error "illegal base64 data"
  | some reply => do
      let (sig, pub) ← signBytes (replyDigest h id request reply result.addrs)
      return "secp256k1:" ++ Base64.encodeToString pub ++ ";" ++ Base64.encodeToString sig

/-- `nodeAddrs`: the IPv4 address, then the host of the remote URL when it has another. -/
def nodeAddrs (ipv4 : List UInt8) (hostname : Option (List UInt8)) : List (List UInt8) :=
  match hostname with
  | some host => if host ≠ [] ∧ host ≠ ipv4 then [ipv4, host] else [ipv4]
  | none => [ipv4]

/-! ## One reply for each digest -/

/-- The lists a digest is unambiguous for. -/
def PlainAddrs (addrs : List (List UInt8)) : Prop := addrs ≠ [] ∧ ∀ a ∈ addrs, 10 ∉ a

instance (addrs : List (List UInt8)) : Decidable (PlainAddrs addrs) :=
  inferInstanceAs (Decidable (_ ∧ _))

/-- Those of a node are. -/
theorem nodeAddrs_plain {ipv4 : List UInt8} {hostname : Option (List UInt8)} (h4 : 10 ∉ ipv4)
    (hhost : ∀ host ∈ hostname, 10 ∉ host) : PlainAddrs (nodeAddrs ipv4 hostname) := by
  unfold nodeAddrs
  split
  · rename_i host
    have hhost' := hhost host rfl
    split
    · exact ⟨by simp, by simp [h4, hhost']⟩
    · exact ⟨by simp, by simp [h4]⟩
  · exact ⟨by simp, by simp [h4]⟩

/-- **Joined addresses can be told apart**, lists of different lengths too. -/
theorem join_inj {addrs addrs' : List (List UInt8)} (h : PlainAddrs addrs) (h' : PlainAddrs addrs')
    (heq : joinAddrs addrs = joinAddrs addrs') : addrs = addrs' := by
  have hsplit := List.splitOn_intercalate 10 h.2 h.1
  have hsplit' := List.splitOn_intercalate 10 h'.2 h'.1
  calc addrs = (joinAddrs addrs).splitOn 10 := hsplit.symm
    _ = (joinAddrs addrs').splitOn 10 := by rw [heq]
    _ = addrs' := hsplit'

/-- One byte more of a number. -/
theorem div_eq_of_byte {v w i : Nat} (hquot : v / 256 ^ (i + 1) = w / 256 ^ (i + 1))
    (hbyte : UInt8.ofNat (v / 256 ^ i) = UInt8.ofNat (w / 256 ^ i)) : v / 256 ^ i = w / 256 ^ i := by
  rw [← UInt8.toNat_inj, UInt8.toNat_ofNat', UInt8.toNat_ofNat'] at hbyte
  rw [pow_succ, ← Nat.div_div_eq_div_mul, ← Nat.div_div_eq_div_mul] at hquot
  omega

/-- The bytes of an id tell it. -/
theorem uint64ToBigEndian_inj {v w : UInt64} (h : uint64ToBigEndian v = uint64ToBigEndian w) :
    v = w := by
  simp only [uint64ToBigEndian, List.map_cons, List.map_nil, List.cons.injEq, and_true] at h
  obtain ⟨h7, h6, h5, h4, h3, h2, h1, h0⟩ := h
  have htop : v.toNat / 256 ^ 8 = w.toNat / 256 ^ 8 :=
    (Nat.div_eq_of_lt v.toNat_lt).trans (Nat.div_eq_of_lt w.toNat_lt).symm
  have hhigh := div_eq_of_byte (div_eq_of_byte (div_eq_of_byte (div_eq_of_byte htop h7) h6) h5) h4
  have hlow := div_eq_of_byte (div_eq_of_byte (div_eq_of_byte (div_eq_of_byte hhigh h3) h2) h1) h0
  rw [pow_zero, Nat.div_one, Nat.div_one] at hlow
  exact UInt64.toNat_inj.1 hlow

/-- The two inputs do not collide. -/
def Sha256.Apart (h : Sha256) (a b : List UInt8) : Prop := h.sum a = h.sum b → a = b

instance (h : Sha256) (a b : List UInt8) : Decidable (h.Apart a b) :=
  inferInstanceAs (Decidable (_ → _))

/-- The parts of the input, by their lengths. -/
theorem replyInput_inj (h : Sha256) {id id' : UInt64} {request request' reply reply' : List UInt8}
    {addrs addrs' : List (List UInt8)}
    (heq : replyInput h id request reply addrs = replyInput h id' request' reply' addrs') :
    id = id' ∧ h.sum request = h.sum request' ∧ h.sum reply = h.sum reply' ∧
      joinAddrs addrs = joinAddrs addrs' := by
  have hlen : ∀ a b, (h.sum a).length = (h.sum b).length := fun a b =>
    (h.length_sum a).trans (h.length_sum b).symm
  have hrest := List.append_cancel_left heq
  obtain ⟨hid, hrest⟩ := List.append_inj hrest rfl
  obtain ⟨hrequest, hrest⟩ := List.append_inj hrest (hlen _ _)
  obtain ⟨hreply, haddrs⟩ := List.append_inj hrest (hlen _ _)
  exact ⟨uint64ToBigEndian_inj hid, hrequest, hreply, haddrs⟩

/-- **A digest is of one session, request, reply and list of addresses**, where SHA-256 does
not collide on what is compared: no signature of one reply verifies for another. -/
theorem replyDigest_inj (h : Sha256) (id id' : UInt64) (request request' reply reply' : List UInt8)
    (addrs addrs' : List (List UInt8)) (haddrs : PlainAddrs addrs) (haddrs' : PlainAddrs addrs')
    (hrequest : h.Apart request request') (hreply : h.Apart reply reply')
    (hinput : h.Apart (replyInput h id request reply addrs)
      (replyInput h id' request' reply' addrs'))
    (heq : replyDigest h id request reply addrs = replyDigest h id' request' reply' addrs') :
    id = id' ∧ request = request' ∧ reply = reply' ∧ addrs = addrs' := by
  obtain ⟨hid, hreq, hrep, hjoin⟩ := replyInput_inj h (hinput heq)
  exact ⟨hid, hrequest hreq, hreply hrep, join_inj haddrs haddrs' hjoin⟩

/-- A hash that keeps the end of its input. -/
def lastBytes : Sha256 where
  sum data := (data.reverse ++ List.replicate 32 0).take 32
  length_sum data := by simp

/-- The same addresses in another order, and as one. -/
theorem replyDigest_inj_order :
    replyDigest lastBytes 7 [1] [2] [[97], [98]] ≠ replyDigest lastBytes 7 [1] [2] [[98], [97]] ∧
      replyDigest lastBytes 7 [1] [2] [[97], [98]] ≠ replyDigest lastBytes 7 [1] [2] [[97, 98]] := by
  constructor
  · intro heq
    have hsame := replyDigest_inj lastBytes 7 7 [1] [1] [2] [2] _ _ (by decide) (by decide)
      (by decide) (by decide) (by decide) heq
    exact absurd hsame.2.2.2 (by decide)
  · intro heq
    have hsame := replyDigest_inj lastBytes 7 7 [1] [1] [2] [2] _ _ (by decide) (by decide)
      (by decide) (by decide) (by decide) heq
    exact absurd hsame.2.2.2 (by decide)

end Dvpnd
