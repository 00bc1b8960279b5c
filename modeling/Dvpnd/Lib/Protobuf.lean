import Dvpnd.Lib.Parsing
import Mathlib.Data.List.Forall2
import Mathlib.Tactic.Ring

/-!
# The wire format of protocol buffers

The functions of `protowire` that read the format, and the format itself as a grammar: which
bytes are a varint, a tag, a value of a wire type and a sequence of fields.

* `consumeVarint`, `consumeTag`, `consumeBytes`, `consumeFieldValue` — the readers, with groups
  skipped down to a limit of nesting.
* `IsVarint`, `IsTag`, `IsValue`, `Fields` — the grammar.  Varints may be longer than needed, and
  groups are nested to any depth, which the relations keep count of.
* `takes_consumeFieldValue` — **every value is skipped as a whole**, if its groups are nested no
  deeper than the limit; otherwise it is refused.
* `varint`, `readMessage` — writing a number, and reading a whole message as its fields;
  `Written.read` is the round trip.
-/

namespace Protobuf

open Parsing

/-- The errors of the library, and two of this model: a text that is not UTF-8, and a loop that
is still running when its fuel is gone. -/
inductive Error where
  | truncated
  | fieldNumber
  | overflow
  | reserved
  | endGroup
  | recursionDepth
  | invalidUTF8
  | outOfFuel
  deriving DecidableEq

/-! ## Numbers -/

/-- One byte. -/
def next : Parser Error UInt8 := fun b =>
  match b with
  | [] => .error .truncated
  | x :: rest => .ok (x, rest)

/-- As many bytes. -/
def take (n : Nat) : Parser Error (List UInt8) := fun b =>
  if n ≤ b.length then .ok (b.take n, b.drop n) else .error .truncated

/-- The bytes of a varint from one on that `n` more may follow; the tenth has one bit. -/
def consumeVarintAt : Nat → Parser Error Nat
  | 0 => do
      let y ← next
      if y < 2 then return y.toNat
      throw .overflow
  | n + 1 => do
      let y ← next
      if y < 128 then return y.toNat
      let v ← consumeVarintAt n
      return y.toNat - 128 + 128 * v

/-- `ConsumeVarint`. -/
def consumeVarint : Parser Error Nat := consumeVarintAt 9

/-- `ConsumeBytes`. -/
def consumeBytes : Parser Error (List UInt8) := do
  let n ← consumeVarint
  take n

/-- `Type`. -/
inductive WireType where
  | varint
  | fixed64
  | bytes
  | startGroup
  | endGroup
  | fixed32
  | reserved6
  | reserved7
  deriving DecidableEq

/-- Its number. -/
def WireType.code : WireType → Nat
  | .varint => 0
  | .fixed64 => 1
  | .bytes => 2
  | .startGroup => 3
  | .endGroup => 4
  | .fixed32 => 5
  | .reserved6 => 6
  | .reserved7 => 7

/-- The type of a number below eight. -/
def WireType.ofCode : Nat → WireType
  | 0 => .varint
  | 1 => .fixed64
  | 2 => .bytes
  | 3 => .startGroup
  | 4 => .endGroup
  | 5 => .fixed32
  | 6 => .reserved6
  | _ => .reserved7

/-- `ConsumeTag`. -/
def consumeTag : Parser Error (Nat × WireType) := do
  let x ← consumeVarint
  if 2 ^ 31 - 1 < x / 8 ∨ x / 8 < 1 then throw .fieldNumber
  return (x / 8, .ofCode (x % 8))

/-! ## Values -/

/-- `consumeFieldValueD`, with what skips a group. -/
def consumeFieldValueWith (group : Nat → Int → Parser Error Unit) (num : Nat) (typ : WireType)
    (depth : Int) : Parser Error Unit :=
  match typ with
  | .varint => do let _ ← consumeVarint
  | .fixed32 => do let _ ← take 4
  | .fixed64 => do let _ ← take 8
  | .bytes => do let _ ← consumeBytes
  | .startGroup => if depth < 0 then throw .recursionDepth else group num depth
  | .endGroup => throw .endGroup
  | .reserved6 => throw .reserved
  | .reserved7 => throw .reserved

/-- The loop of `consumeFieldValueD` over the fields of a group. -/
def consumeGroup : Nat → Nat → Int → Parser Error Unit
  | 0, _, _ => throw .outOfFuel
  | fuel + 1, num, depth => do
      let tag ← consumeTag
      if tag.2 = .endGroup then
        if num ≠ tag.1 then throw .endGroup else return ()
      else
        consumeFieldValueWith (consumeGroup fuel) tag.1 tag.2 (depth - 1)
        consumeGroup fuel num depth

/-- `DefaultRecursionLimit`. -/
def defaultRecursionLimit : Int := 10000

/-- `ConsumeFieldValue`. -/
def consumeFieldValue (fuel num : Nat) (typ : WireType) : Parser Error Unit :=
  consumeFieldValueWith (consumeGroup fuel) num typ defaultRecursionLimit

/-! ## What the readers depend on -/

theorem reads_next : Reads next := by
  intro b a rest h
  cases b with
  | nil => cases h
  | cons x xs =>
      cases h
      exact ⟨[a], rfl, fun _ => rfl⟩

theorem advances_next : Advances next := by
  intro b a rest h
  cases b with
  | nil => cases h
  | cons x xs =>
      cases h
      simp

theorem ends_next (n : Nat) : Ends .outOfFuel n next := by
  intro b _ h
  cases b with
  | nil => cases h
  | cons x xs => cases h

theorem accepts_take (b : List UInt8) : Accepts (take b.length) b b := by
  intro rest
  simp [StateT.run, take]

theorem reads_take (n : Nat) : Reads (take n) := by
  intro b a rest h
  simp only [StateT.run, take] at h
  split at h
  · rename_i hle
    cases h
    refine ⟨b.take n, (List.take_append_drop n b).symm, ?_⟩
    have haccepts := accepts_take (b.take n)
    rwa [List.length_take, Nat.min_eq_left hle] at haccepts
  · cases h

theorem ends_take (m n : Nat) : Ends .outOfFuel n (take m) := by
  intro b _ h
  simp only [StateT.run, take] at h
  split at h
  · cases h
  · cases h

theorem reads_consumeVarintAt (n : Nat) : Reads (consumeVarintAt n) := by
  induction n with
  | zero =>
      refine reads_next.bind fun y => ?_
      split
      · exact reads_pure _
      · exact reads_throw _
  | succ n ih =>
      refine reads_next.bind fun y => ?_
      split
      · exact reads_pure _
      · exact ih.bind fun v => reads_pure _

theorem advances_consumeVarint : Advances consumeVarint := by
  refine advances_next.bind fun y => ?_
  split
  · exact reads_pure _
  · exact (reads_consumeVarintAt 8).bind fun v => reads_pure _

theorem ends_consumeVarintAt (m n : Nat) : Ends .outOfFuel n (consumeVarintAt m) := by
  induction m with
  | zero =>
      refine (ends_next n).bind reads_next fun y => ?_
      split
      · exact ends_pure _
      · exact ends_throw (by decide)
  | succ m ih =>
      refine (ends_next n).bind reads_next fun y => ?_
      split
      · exact ends_pure _
      · exact ih.bind (reads_consumeVarintAt m) fun v => ends_pure _

theorem reads_consumeVarint : Reads consumeVarint := reads_consumeVarintAt 9

theorem reads_consumeBytes : Reads consumeBytes := reads_consumeVarint.bind reads_take

theorem ends_consumeBytes (n : Nat) : Ends .outOfFuel n consumeBytes :=
  (ends_consumeVarintAt 9 n).bind reads_consumeVarint fun m => ends_take m n

theorem length_of_consumeBytes {b a rest : List UInt8} (h : consumeBytes.run b = .ok (a, rest)) :
    a.length ≤ b.length := by
  obtain ⟨n, mid, hlen, htake⟩ := run_bind_ok h
  have hmid := reads_consumeVarint.length_le hlen
  simp only [StateT.run, take] at htake
  split at htake
  · cases htake
    rw [List.length_take]
    omega
  · cases htake

theorem reads_tagOf (x : Nat) :
    Reads (do
      if 2 ^ 31 - 1 < x / 8 ∨ x / 8 < 1 then throw Error.fieldNumber
      return (x / 8, WireType.ofCode (x % 8)) : Parser Error (Nat × WireType)) := by
  split
  · exact reads_throw _
  · exact reads_pure _

theorem reads_consumeTag : Reads consumeTag := reads_consumeVarint.bind reads_tagOf

theorem advances_consumeTag : Advances consumeTag := advances_consumeVarint.bind reads_tagOf

theorem ends_consumeTag (n : Nat) : Ends .outOfFuel n consumeTag := by
  refine (ends_consumeVarintAt 9 n).bind reads_consumeVarint fun x => ?_
  split
  · exact ends_throw (by decide)
  · exact ends_pure _

theorem reads_consumeFieldValueWith {group : Nat → Int → Parser Error Unit}
    (hgroup : ∀ num depth, Reads (group num depth)) (num : Nat) (typ : WireType) (depth : Int) :
    Reads (consumeFieldValueWith group num typ depth) := by
  cases typ with
  | varint => exact reads_consumeVarint.bind fun _ => reads_pure _
  | fixed64 => exact (reads_take 8).bind fun _ => reads_pure _
  | bytes => exact reads_consumeBytes.bind fun _ => reads_pure _
  | startGroup =>
      dsimp only [consumeFieldValueWith]
      split
      · exact reads_throw _
      · exact hgroup num depth
  | fixed32 => exact (reads_take 4).bind fun _ => reads_pure _
  | endGroup => exact reads_throw _
  | reserved6 => exact reads_throw _
  | reserved7 => exact reads_throw _

theorem reads_consumeGroup (fuel num : Nat) (depth : Int) : Reads (consumeGroup fuel num depth) := by
  induction fuel generalizing num depth with
  | zero => exact reads_throw _
  | succ fuel ih =>
      refine reads_consumeTag.bind fun tag => ?_
      split
      · split
        · exact reads_throw _
        · exact reads_pure _
      · exact (reads_consumeFieldValueWith ih _ _ _).bind fun _ => ih num depth

theorem reads_consumeFieldValue (fuel num : Nat) (typ : WireType) :
    Reads (consumeFieldValue fuel num typ) :=
  reads_consumeFieldValueWith (reads_consumeGroup fuel) _ _ _

theorem ends_consumeFieldValueWith {group : Nat → Int → Parser Error Unit} {n : Nat}
    (hgroup : ∀ num depth, Ends .outOfFuel n (group num depth)) (num : Nat) (typ : WireType)
    (depth : Int) : Ends .outOfFuel n (consumeFieldValueWith group num typ depth) := by
  cases typ with
  | varint => exact (ends_consumeVarintAt 9 n).bind reads_consumeVarint fun _ => ends_pure _
  | fixed64 => exact (ends_take 8 n).bind (reads_take 8) fun _ => ends_pure _
  | bytes => exact (ends_consumeBytes n).bind reads_consumeBytes fun _ => ends_pure _
  | startGroup =>
      dsimp only [consumeFieldValueWith]
      split
      · exact ends_throw (by decide)
      · exact hgroup num depth
  | fixed32 => exact (ends_take 4 n).bind (reads_take 4) fun _ => ends_pure _
  | endGroup => exact ends_throw (by decide)
  | reserved6 => exact ends_throw (by decide)
  | reserved7 => exact ends_throw (by decide)

/-- A round takes a byte of the tag at least, so the fuel outlasts the bytes. -/
theorem ends_consumeGroup (n num : Nat) (depth : Int) :
    Ends .outOfFuel n (consumeGroup (n + 1) num depth) := by
  induction n generalizing num depth with
  | zero =>
      intro b hb
      rw [List.length_eq_zero_iff.1 (Nat.le_zero.1 hb)]
      rintro ⟨⟩
  | succ n ih =>
      refine (ends_consumeTag (n + 1)).bind_lt advances_consumeTag fun tag => ?_
      split
      · split
        · exact ends_throw (by decide)
        · exact ends_pure _
      · exact (ends_consumeFieldValueWith ih _ _ _).bind
          (reads_consumeFieldValueWith (reads_consumeGroup (n + 1)) _ _ _) fun _ => ih num depth

theorem ends_consumeFieldValue (n num : Nat) (typ : WireType) :
    Ends .outOfFuel n (consumeFieldValue (n + 1) num typ) :=
  ends_consumeFieldValueWith (ends_consumeGroup n) _ _ _

/-! ## The grammar -/

/-- The bytes of a varint of which `n` more than one are allowed. -/
inductive VarintAt : Nat → Nat → List UInt8 → Prop
  | tenth {y : UInt8} : y < 2 → VarintAt 0 y.toNat [y]
  | last {n : Nat} {y : UInt8} : y < 128 → VarintAt (n + 1) y.toNat [y]
  | more {n v : Nat} {y : UInt8} {b : List UInt8} : ¬ y < 128 → VarintAt n v b →
      VarintAt (n + 1) (y.toNat - 128 + 128 * v) (y :: b)

/-- The bytes of a varint: seven bits each, the lowest first, ten bytes at most. -/
def IsVarint (v : Nat) (b : List UInt8) : Prop := VarintAt 9 v b

theorem run_next (y : UInt8) (rest : List UInt8) : next.run (y :: rest) = .ok (y, rest) := rfl

theorem accepts_consumeVarintAt {n v : Nat} {b : List UInt8} (h : VarintAt n v b) :
    Accepts (consumeVarintAt n) b v := by
  induction h with
  | @tenth y hy =>
      intro rest
      simp only [consumeVarintAt, List.cons_append, List.nil_append]
      rw [run_bind_of_ok (run_next y rest), if_pos hy]
      rfl
  | @last n y hy =>
      intro rest
      simp only [consumeVarintAt, List.cons_append, List.nil_append]
      rw [run_bind_of_ok (run_next y rest), if_pos hy]
      rfl
  | @more n v y b hy _ ih =>
      intro rest
      simp only [consumeVarintAt, List.cons_append]
      rw [run_bind_of_ok (run_next y (b ++ rest)), if_neg hy, run_bind_of_ok (ih rest)]
      rfl

theorem accepts_consumeVarint {v : Nat} {b : List UInt8} (h : IsVarint v b) :
    Accepts consumeVarint b v :=
  accepts_consumeVarintAt h

theorem IsVarint.ne_nil {v : Nat} {b : List UInt8} (h : IsVarint v b) : b ≠ [] := by
  cases h with
  | last hy => simp
  | more hy h => simp

/-- The bytes of a tag. -/
structure IsTag (num : Nat) (typ : WireType) (b : List UInt8) : Prop where
  pos : 1 ≤ num
  lt : num < 2 ^ 29
  varint : IsVarint (num * 8 + typ.code) b

theorem WireType.code_lt (typ : WireType) : typ.code < 8 := by
  cases typ <;> decide

theorem WireType.ofCode_code (typ : WireType) : ofCode typ.code = typ := by
  cases typ <;> rfl

theorem accepts_consumeTag {num : Nat} {typ : WireType} {b : List UInt8} (h : IsTag num typ b) :
    Accepts consumeTag b (num, typ) := by
  have hcode := typ.code_lt
  have hnum : (num * 8 + typ.code) / 8 = num := by omega
  have htyp : (num * 8 + typ.code) % 8 = typ.code := by omega
  have hvalid : ¬ (2 ^ 31 - 1 < num ∨ num < 1) := by
    have := h.pos
    have := h.lt
    omega
  intro rest
  rw [consumeTag, run_bind_of_ok (accepts_consumeVarint h.varint rest), hnum, htyp,
    WireType.ofCode_code, if_neg hvalid]
  rfl

/-- The bytes of a value that is not a group. -/
inductive IsPlain : WireType → List UInt8 → Prop
  | varint {v : Nat} {b : List UInt8} : IsVarint v b → IsPlain .varint b
  | fixed32 {b : List UInt8} : b.length = 4 → IsPlain .fixed32 b
  | fixed64 {b : List UInt8} : b.length = 8 → IsPlain .fixed64 b
  | bytes {l b : List UInt8} : IsVarint b.length l → IsPlain .bytes (l ++ b)

/-- The bytes of fields, with groups nested at most as deep. -/
inductive Fields : Nat → List UInt8 → Prop
  | nil (d : Nat) : Fields d []
  | plain {d num : Nat} {typ : WireType} {t v rest : List UInt8} : IsTag num typ t →
      IsPlain typ v → Fields d rest → Fields d (t ++ (v ++ rest))
  | group {d num : Nat} {t body e rest : List UInt8} : IsTag num .startGroup t → Fields d body →
      IsTag num .endGroup e → Fields (d + 1) rest → Fields (d + 1) (t ++ ((body ++ e) ++ rest))

/-- The bytes of the value of a field, with groups nested at most as deep. -/
inductive IsValue : Nat → Nat → WireType → List UInt8 → Prop
  | plain {d num : Nat} {typ : WireType} {v : List UInt8} : IsPlain typ v → IsValue d num typ v
  | group {d num : Nat} {body e : List UInt8} : Fields d body → IsTag num .endGroup e →
      IsValue (d + 1) num .startGroup (body ++ e)

theorem IsValue.varint {d num : Nat} {v : List UInt8} (h : IsValue d num .varint v) :
    ∃ n, IsVarint n v := by
  cases h with
  | plain h =>
      cases h with
      | varint hv => exact ⟨_, hv⟩

theorem IsValue.bytes {d num : Nat} {v : List UInt8} (h : IsValue d num .bytes v) :
    ∃ l b, v = l ++ b ∧ IsVarint b.length l := by
  cases h with
  | plain h =>
      cases h with
      | bytes hl => exact ⟨_, _, rfl, hl⟩

/-- The bytes of a field. -/
def IsField (d : Nat) (b : List UInt8) : Prop :=
  ∃ num typ t v, IsTag num typ t ∧ IsValue d num typ v ∧ b = t ++ v

theorem accepts_consumeBytes {l b : List UInt8} (h : IsVarint b.length l) :
    Accepts consumeBytes (l ++ b) b :=
  (accepts_consumeVarint h).bind (accepts_take b)

theorem IsPlain.ne_endGroup {typ : WireType} {v : List UInt8} (h : IsPlain typ v) :
    typ ≠ .endGroup := by
  rintro rfl
  cases h

theorem accepts_plain (group : Nat → Int → Parser Error Unit) (num : Nat) (depth : Int)
    {typ : WireType} {v : List UInt8} (h : IsPlain typ v) :
    Accepts (consumeFieldValueWith group num typ depth) v () := by
  cases h with
  | varint hv => exact (accepts_consumeVarint hv).bind_pure _
  | fixed32 hlen =>
      have htake := accepts_take v
      rw [hlen] at htake
      exact htake.bind_pure _
  | fixed64 hlen =>
      have htake := accepts_take v
      rw [hlen] at htake
      exact htake.bind_pure _
  | bytes hl => exact (accepts_consumeBytes hl).bind_pure _

theorem IsTag.ne_nil {num : Nat} {typ : WireType} {t : List UInt8} (h : IsTag num typ t) :
    t ≠ [] :=
  h.varint.ne_nil

/-- One round of the loop over a group: a field that is taken, and the loop behind it. -/
theorem takes_round {ok : Prop} {fuel num num' : Nat} {depth : Int} {typ : WireType}
    {t v rest : List UInt8} (ht : IsTag num' typ t) (htyp : typ ≠ .endGroup)
    (hv : Takes ok (consumeFieldValueWith (consumeGroup fuel) num' typ (depth - 1)) v ())
    (hrest : Takes ok (consumeGroup fuel num depth) rest ()) :
    Takes ok (consumeGroup (fuel + 1) num depth) (t ++ (v ++ rest)) () := by
  refine (accepts_consumeTag ht).takes.bind ?_
  rw [if_neg htyp]
  exact hv.bind hrest

/-- The loop over a group takes its fields and its end.  The induction is on the fields; a group
among them is one level further down, and each field takes one round. -/
theorem takes_consumeGroup {d : Nat} {body : List UInt8} (h : Fields d body) {num : Nat}
    {e : List UInt8} (he : IsTag num .endGroup e) (fuel : Nat) (depth : Int) :
    Takes (d ≤ depth ∧ (body ++ e).length ≤ fuel) (consumeGroup fuel num depth) (body ++ e) () := by
  induction fuel generalizing d body num e depth with
  | zero =>
      refine .inr ⟨fun hok => ?_, fun rest => ⟨_, rfl⟩⟩
      have hpos := List.length_pos_iff.2 he.ne_nil
      simp only [List.length_append] at hok
      omega
  | succ fuel ih =>
      cases h with
      | nil d =>
          refine Accepts.takes fun rest => ?_
          rw [consumeGroup, List.nil_append, run_bind_of_ok (accepts_consumeTag he rest), if_pos rfl,
            if_neg (by simp)]
          rfl
      | @plain d num' typ t v rest ht hv hrest =>
          have hpos := List.length_pos_iff.2 ht.ne_nil
          rw [List.append_assoc, List.append_assoc]
          refine takes_round ht hv.ne_endGroup (accepts_plain _ _ _ hv).takes
            ((ih hrest he depth).mono fun hok => ?_)
          simp only [List.length_append] at hok ⊢
          omega
      | @group d num' t body' e' rest ht hbody he' hrest =>
          have hpos := List.length_pos_iff.2 ht.ne_nil
          rw [List.append_assoc, List.append_assoc]
          refine takes_round ht (by decide) ?_ ((ih hrest he depth).mono fun hok => ?_)
          · dsimp only [consumeFieldValueWith]
            split
            · exact .inr ⟨by omega, fun rest => ⟨_, rfl⟩⟩
            · refine (ih hbody he' (depth - 1)).mono fun hok => ?_
              simp only [List.length_append] at hok ⊢
              omega
          · simp only [List.length_append] at hok ⊢
            omega

/-- **A value is skipped as a whole**, unless its groups are nested too deep or the fuel ends. -/
theorem takes_consumeFieldValue {d num : Nat} {typ : WireType} {v : List UInt8}
    (h : IsValue d num typ v) (fuel : Nat) :
    Takes (d ≤ defaultRecursionLimit + 1 ∧ v.length ≤ fuel) (consumeFieldValue fuel num typ) v () := by
  cases h with
  | plain h => exact (accepts_plain _ _ _ h).takes
  | group hbody he =>
      exact (takes_consumeGroup hbody he fuel defaultRecursionLimit).mono
        (by simp only [Nat.cast_add, Nat.cast_one]; omega)

/-! ## Messages -/

/-- The bytes of a number, from one on that `n` more may follow. -/
def varintAt : Nat → Nat → List UInt8
  | 0, v => [UInt8.ofNat v]
  | n + 1, v =>
      if v < 128 then [UInt8.ofNat v] else UInt8.ofNat (v % 128 + 128) :: varintAt n (v / 128)

/-- `AppendVarint`, the bytes appended. -/
def varint (v : Nat) : List UInt8 := varintAt 9 v

/-- `AppendTag`, the bytes appended. -/
def tag (num : Nat) (typ : WireType) : List UInt8 := varint (num * 8 + typ.code)

/-- `AppendBytes`, the bytes appended. -/
def delimited (b : List UInt8) : List UInt8 := varint b.length ++ b

theorem varintAt_spec {n v : Nat} (h : v < 2 ^ (7 * n + 1)) : VarintAt n v (varintAt n v) := by
  induction n generalizing v with
  | zero =>
      have hv : (UInt8.ofNat v).toNat = v := UInt8.toNat_ofNat_of_lt' (show _ < 256 by omega)
      have hlt : UInt8.ofNat v < 2 := UInt8.lt_iff_toNat_lt.2 (by rw [hv]; exact h)
      have htenth := VarintAt.tenth hlt
      rwa [hv] at htenth
  | succ n ih =>
      unfold varintAt
      split
      · rename_i hsmall
        have hv : (UInt8.ofNat v).toNat = v := UInt8.toNat_ofNat_of_lt' (show _ < 256 by omega)
        have hlt : UInt8.ofNat v < 128 := UInt8.lt_iff_toNat_lt.2 (by rw [hv]; exact hsmall)
        have hlast := VarintAt.last (n := n) hlt
        rwa [hv] at hlast
      · have hy : (UInt8.ofNat (v % 128 + 128)).toNat = v % 128 + 128 :=
          UInt8.toNat_ofNat_of_lt' (show _ < 256 by omega)
        have hge : ¬ UInt8.ofNat (v % 128 + 128) < 128 := by
          rw [UInt8.lt_iff_toNat_lt, hy]
          exact Nat.not_lt.2 (Nat.le_add_left _ _)
        have hpow : 2 ^ (7 * (n + 1) + 1) = 128 * 2 ^ (7 * n + 1) := by ring
        have hmore := VarintAt.more hge (ih (v := v / 128) (by omega))
        have hvalue : v % 128 + 128 - 128 + 128 * (v / 128) = v := by omega
        rwa [hy, hvalue] at hmore

theorem isVarint_varint {v : Nat} (h : v < 2 ^ 64) : IsVarint v (varint v) := varintAt_spec h

theorem accepts_delimited {b : List UInt8} (h : b.length < 2 ^ 64) :
    Accepts consumeBytes (delimited b) b :=
  accepts_consumeBytes (isVarint_varint h)

theorem isTag_tag {num : Nat} (hpos : 1 ≤ num) (hlt : num < 2 ^ 29) (typ : WireType) :
    IsTag num typ (tag num typ) := by
  have hcode := typ.code_lt
  exact ⟨hpos, hlt, isVarint_varint (by omega)⟩

/-- The value of a field; of a group its fields are left out. -/
inductive Value where
  | varint (v : Nat)
  | fixed64 (b : List UInt8)
  | bytes (b : List UInt8)
  | group
  | fixed32 (b : List UInt8)
  deriving DecidableEq

/-- A field. -/
structure Field where
  num : Nat
  value : Value
  deriving DecidableEq

/-- A field from the front. -/
def readField (fuel : Nat) : Parser Error Field := do
  let tag ← consumeTag
  match tag.2 with
  | .varint =>
      let v ← consumeVarint
      return ⟨tag.1, .varint v⟩
  | .fixed64 =>
      let b ← take 8
      return ⟨tag.1, .fixed64 b⟩
  | .bytes =>
      let b ← consumeBytes
      return ⟨tag.1, .bytes b⟩
  | .fixed32 =>
      let b ← take 4
      return ⟨tag.1, .fixed32 b⟩
  | typ =>
      consumeFieldValue fuel tag.1 typ
      return ⟨tag.1, .group⟩

/-- One more field. -/
def readInto (fuel : Nat) (fields : List Field) : Parser Error (List Field) := do
  let field ← readField fuel
  return fields ++ [field]

/-- The fields of a message. -/
def readMessage (fuel : Nat) (b : List UInt8) : Except Error (List Field) :=
  consumeAll (readInto fuel) .outOfFuel fuel [] b

/-- A number or a string of bytes as a field. -/
inductive Field.Encodes : Field → List UInt8 → Prop
  | varint {num v : Nat} : 1 ≤ num → num < 2 ^ 29 → v < 2 ^ 64 →
      Encodes ⟨num, .varint v⟩ (tag num .varint ++ varint v)
  | bytes {num : Nat} {b : List UInt8} : 1 ≤ num → num < 2 ^ 29 → b.length < 2 ^ 64 →
      Encodes ⟨num, .bytes b⟩ (tag num .bytes ++ delimited b)

theorem Field.Encodes.accepts {field : Field} {b : List UInt8} (h : field.Encodes b) (fuel : Nat) :
    Accepts (readField fuel) b field := by
  cases h with
  | varint hpos hlt hv =>
      refine (accepts_consumeTag (isTag_tag hpos hlt _)).bind ?_
      exact (accepts_consumeVarint (isVarint_varint hv)).bind_pure _
  | bytes hpos hlt hb =>
      refine (accepts_consumeTag (isTag_tag hpos hlt _)).bind ?_
      exact (accepts_delimited hb).bind_pure _

theorem Field.Encodes.ne_nil {field : Field} {b : List UInt8} (h : field.Encodes b) : b ≠ [] := by
  cases h with
  | varint hpos hlt _ => simp [(isTag_tag hpos hlt _).ne_nil]
  | bytes hpos hlt _ => simp [(isTag_tag hpos hlt _).ne_nil]

theorem accepts_readInto {field : Field} {b : List UInt8} (h : field.Encodes b) (fuel : Nat)
    (fields : List Field) : Accepts (readInto fuel fields) b (fields ++ [field]) :=
  (h.accepts fuel).bind_pure _

/-- The bytes of fields written one after the other. -/
def Written (b : List UInt8) (fields : List Field) : Prop :=
  ∃ parts, List.Forall₂ Field.Encodes fields parts ∧ b = parts.flatten

theorem written_nil : Written [] [] := ⟨[], .nil, rfl⟩

theorem Written.add {b part : List UInt8} {fields : List Field} {field : Field}
    (h : Written b fields) (hfield : field.Encodes part) : Written (b ++ part) (fields ++ [field]) := by
  obtain ⟨parts, henc, rfl⟩ := h
  exact ⟨parts ++ [part], List.rel_append henc (.cons hfield .nil), by simp⟩

/-- **What is written is read back.** -/
theorem Written.read {b : List UInt8} {fields : List Field} (h : Written b fields) {fuel : Nat}
    (hfuel : b.length ≤ fuel) : readMessage fuel b = .ok fields := by
  obtain ⟨parts, henc, rfl⟩ := h
  have hchain := chain_foldl henc hfuel
    (fun hfield => ⟨hfield.ne_nil, fun _ => accepts_readInto hfield fuel⟩) []
  rw [readMessage, consumeAll_chain hchain hfuel, List.foldl_append_eq_append, ← List.flatMap_def,
    List.flatMap_singleton', List.nil_append]

/-! ### The fields of a schema -/

/-- The strings of bytes under a number, in their order. -/
def payloads (num : Nat) (fields : List Field) : List (List UInt8) :=
  fields.filterMap fun field =>
    match field.value with
    | .bytes b => if field.num = num then some b else none
    | _ => none

/-- The numbers under a number, in their order. -/
def numbers (num : Nat) (fields : List Field) : List Nat :=
  fields.filterMap fun field =>
    match field.value with
    | .varint v => if field.num = num then some v else none
    | _ => none

/-- A text must be UTF-8. -/
def text (b : List UInt8) : Except Error String :=
  match String.fromUTF8? ⟨b.toArray⟩ with
  | some s => .ok s
  | none => .error .invalidUTF8

/-- A field of type `string`: the last one counts, and none is the empty one. -/
def getString (num : Nat) (fields : List Field) : Except Error String := do
  let texts ← (payloads num fields).mapM text
  return texts.getLastD ""

/-- A field of type `bytes`. -/
def getBytes (num : Nat) (fields : List Field) : List UInt8 := (payloads num fields).getLastD []

/-- A field of type `uint32`. -/
def getUint32 (num : Nat) (fields : List Field) : Nat := (numbers num fields).getLastD 0 % 2 ^ 32

/-- A field of type `bool`. -/
def getBool (num : Nat) (fields : List Field) : Bool := (numbers num fields).getLastD 0 != 0

/-- A field that is a message: when it comes more than once, the messages are merged, which is
what reading them in one string does. -/
def getMessage (num : Nat) (fields : List Field) : Option (List UInt8) :=
  match payloads num fields with
  | [] => none
  | parts => some parts.flatten

@[simp] theorem payloads_append (num : Nat) (fs fs' : List Field) :
    payloads num (fs ++ fs') = payloads num fs ++ payloads num fs' :=
  List.filterMap_append

@[simp] theorem numbers_append (num : Nat) (fs fs' : List Field) :
    numbers num (fs ++ fs') = numbers num fs ++ numbers num fs' :=
  List.filterMap_append

end Protobuf
