import Dvpnd.Lib.Draws
import Dvpnd.Services.Subnets

/-!
# Drawing an AmneziaWG configuration

`WithDefaultValues` of `services/amneziawg/types/config.go` with the functions it draws with,
`utils/rand.go` and the keys of `services/wireguard/types/crypto.go`.  Nothing checks what is
drawn before it is written to the operator's file; `Validate` sees it when the node starts.

* `withDefaultValues` — the draws in the order of the source, the three loops among them.
* `validatePaddings_none`, `validateHeaders_none` — what the validator asks of the parameters,
  as the ranges the generator draws from.
* `drawn_valid` — **whatever is drawn passes `Validate`**, unless the two keys derive one IPv6
  network.
-/

namespace Dvpnd

open Draws

/-! ## Keys and ports -/

/-- `NewPreSharedKey`. -/
def newPreSharedKey : Gen (List UInt8) := block 32

/-- `NewPrivateKey`. -/
def newPrivateKey : Gen (List UInt8) := do
  let key ← newPreSharedKey
  let key := key.modify 0 (· &&& 248)
  return key.modify 31 fun b => (b &&& 127) ||| 64

/-- `RandomPort`. -/
def randomPort : Gen UInt16 := do
  let n ← int (2 ^ 16 - 2 ^ 10)
  return UInt16.ofNat (n + 2 ^ 10)

theorem gives_newPrivateKey : Gives newPrivateKey (·.length = 32) :=
  (gives_block 32).bind fun key hkey => gives_pure (by simpa using hkey)

/-- Only the first 1024 ports are left out, zero among them. -/
theorem gives_randomPort : Gives randomPort (· ≠ 0) := by
  refine (gives_int _).bind fun n hn => gives_pure ?_
  intro hzero
  have hnat := congrArg UInt16.toNat hzero
  rw [UInt16.toNat_ofNat'] at hnat
  simp at hnat
  omega

/-- The text of a key reads back. -/
theorem keyFromString_encodeToString {key : List UInt8} (h : key.length = 32) :
    keyFromString (Base64.encodeToString key) = .ok key := by
  simp [keyFromString, Base64.decodeString_encodeToString, h]

namespace AmneziaWG

/-! ## Parameters -/

/-- `randomUint16`. -/
def randomUint16 (min max : UInt16) : Gen UInt16 := do
  let n ← int (max - min + 1).toNat
  return min + UInt16.ofNat n

/-- `randomUint32`: four bytes, the highest first. -/
def randomUint32 (min max : UInt32) : Gen UInt32 := do
  let b ← block 4
  let n := b.foldl (fun v x => v * 256 + x.toNat) 0
  return min + UInt32.ofNat n % (max - min + 1)

/-- One round of `randomHandshakePaddings`. -/
def nextPadding (min s1 : UInt16) : Gen (Unit ⊕ UInt16 × UInt16) := do
  let s2 ← randomUint16 min 150
  if s1.toUInt32 + 56 ≠ s2.toUInt32 then return .inr (s1, s2)
  return .inl ()

/-- `randomHandshakePaddings`. -/
def randomHandshakePaddings (fuel : Nat) (min : UInt16) : Gen (UInt16 × UInt16) := do
  let s1 ← randomUint16 min 150
  repeatUntil (fun _ => nextPadding min s1) fuel ()

/-- One round of `randomHeaders`; `seen` holds the headers. -/
def nextHeader (headers : List UInt32) : Gen (List UInt32 ⊕ List UInt32) :=
  if headers.length < 4 then do
    let h ← randomUint32 5 ((1 : UInt32) <<< 31)
    if h ∈ headers then return .inl headers
    return .inl (headers ++ [h])
  else return .inr headers

/-- `randomHeaders`. -/
def randomHeaders (fuel : Nat) : Gen (UInt32 × UInt32 × UInt32 × UInt32) := do
  let headers ← repeatUntil nextHeader fuel []
  return (headers.getD 0 0, headers.getD 1 0, headers.getD 2 0, headers.getD 3 0)

/-- `Obfuscation.Generate`. -/
def Obfuscation.generate (fuel : Nat) (o : Obfuscation) : Gen Obfuscation := do
  let (s1, s2) ← randomHandshakePaddings fuel 15
  let (h1, h2, h3, h4) ← randomHeaders fuel
  return { o with
    jc := 4, jmin := 40, jmax := 70, s1 := s1, s2 := s2, s3 := 0, s4 := 0
    h1 := h1, h2 := h2, h3 := h3, h4 := h4 }

/-- The loop of `V3.Generate` for a port that is not the default tier's. -/
def nextPort (defaultPort port : UInt16) : Gen (UInt16 ⊕ UInt16) :=
  if port = 0 ∨ port = defaultPort then do
    let p ← randomPort
    return .inl p
  else return .inr port

/-- `V3.Generate`. -/
def V3.generate (fuel : Nat) (v : V3) (defaultPort : UInt16) : Gen V3 := do
  let key ← newPrivateKey
  let header ← newPreSharedKey
  let port ← repeatUntil (nextPort defaultPort) fuel v.listenPort
  let (s1, s2) ← randomHandshakePaddings fuel 16
  let s3 ← randomUint16 16 64
  let s4 ← randomUint16 16 32
  let (h1, h2, h3, h4) ← randomHeaders fuel
  return { v with
    enabled := true, interface := "awg1", listenPort := port
    privateKey := Base64.encodeToString key, headerProtectionKey := Base64.encodeToString header
    s1 := s1, s2 := s2, s3 := s3, s4 := s4, h1 := h1, h2 := h2, h3 := h3, h4 := h4
    randomTrailers := true, contentPaddingAddition := "0-64" }

/-- The zero value of the parameters. -/
def Params.zero : Params := ⟨0, 0, 0, 0, 0, 0, 0, 0⟩

/-- `NewConfig`. -/
def newConfig : Config where
  interface := ""
  listenPort := 0
  privateKey := ""
  uplink := ""
  enableIPv6 := false
  ipv4Subnet := ""
  ipv6Subnet := ""
  obfuscation := { Params.zero with jc := 0, jmin := 0, jmax := 0 }
  v3 := some { Params.zero with
    enabled := false, interface := "", listenPort := 0, privateKey := "", ipv4Subnet := ""
    ipv6Subnet := "", headerProtectionKey := "", randomTrailers := false
    contentPaddingAddition := "" }

/-- `WithDefaultValues`.  Without a section for the 3.1 tier the call on it panics. -/
def Config.withDefaultValues (fuel : Nat) (c : Config) : Gen Config := do
  let key ← newPrivateKey
  let port ← randomPort
  let obfuscation ← c.obfuscation.generate fuel
  match c.v3 with
  | none => failure
  | some v =>
      let v3 ← v.generate fuel port
      return { c with
        interface := "awg0", listenPort := port, enableIPv6 := true
        privateKey := Base64.encodeToString key, obfuscation := obfuscation, v3 := some v3 }

/-! ## What is drawn -/

theorem gives_randomUint16 {min max : UInt16} (h : min ≤ max) (hmax : max < 65535) :
    Gives (randomUint16 min max) fun v => min ≤ v ∧ v ≤ max := by
  refine (gives_int _).bind fun n hn => gives_pure ?_
  rw [UInt16.le_iff_toNat_le] at h
  rw [UInt16.lt_iff_toNat_lt] at hmax
  have hmax : max.toNat < 65535 := hmax
  have hsize : (max - min + 1).toNat = max.toNat - min.toNat + 1 := by
    rw [UInt16.toNat_add, UInt16.toNat_sub_of_le _ _ (UInt16.le_iff_toNat_le.2 h), UInt16.toNat_one]
    omega
  rw [hsize] at hn
  rw [UInt16.le_iff_toNat_le, UInt16.le_iff_toNat_le, UInt16.toNat_add, UInt16.toNat_ofNat']
  omega

theorem gives_randomUint32 : Gives (randomUint32 5 ((1 : UInt32) <<< 31)) (4 < ·) := by
  refine (gives_block 4).bind fun b _ => gives_pure ?_
  rw [UInt32.lt_iff_toNat_lt, UInt32.toNat_add, UInt32.toNat_mod]
  have hsize : ((1 : UInt32) <<< 31 - 5 + 1).toNat = 2 ^ 31 - 4 := by decide
  rw [hsize]
  have hlt := Nat.mod_lt (UInt32.ofNat (b.foldl (fun v x => v * 256 + x.toNat) 0)).toNat
    (show 0 < 2 ^ 31 - 4 by decide)
  show 4 < _
  have h5 : (5 : UInt32).toNat = 5 := rfl
  omega

/-- The two handshake prefixes. -/
structure Paddings (min : UInt16) (s : UInt16 × UInt16) : Prop where
  s1 : min ≤ s.1 ∧ s.1 ≤ 150
  s2 : min ≤ s.2 ∧ s.2 ≤ 150
  apart : s.1.toUInt32 + 56 ≠ s.2.toUInt32

theorem gives_randomHandshakePaddings (fuel : Nat) {min : UInt16} (h : min ≤ 150) :
    Gives (randomHandshakePaddings fuel min) (Paddings min) := by
  refine (gives_randomUint16 h (by decide)).bind fun s1 hs1 => ?_
  refine gives_repeatUntil (I := fun _ => True) (fun _ _ => ?_) fuel trivial
  refine (gives_randomUint16 h (by decide)).bind fun s2 hs2 => ?_
  split
  · rename_i hapart
    exact gives_pure ⟨hs1, hs2, hapart⟩
  · exact gives_pure trivial

/-- The headers drawn so far: above four, each once, and no more than there are message
types. -/
structure Headers (headers : List UInt32) : Prop where
  above : ∀ h ∈ headers, 4 < h
  nodup : headers.Nodup
  length : headers.length ≤ 4

theorem gives_nextHeader {headers : List UInt32} (h : Headers headers) :
    Gives (nextHeader headers) (Sum.elim Headers fun hs => Headers hs ∧ hs.length = 4) := by
  unfold nextHeader
  split
  · rename_i hshort
    refine gives_randomUint32.bind fun v hv => ?_
    split
    · exact gives_pure h
    · rename_i hnew
      refine gives_pure ⟨?_, ?_, ?_⟩
      · simpa [or_imp, forall_and] using ⟨h.above, hv⟩
      · rw [← List.concat_eq_append]
        exact h.nodup.concat hnew
      · rw [List.length_append]
        exact hshort
  · rename_i hlong
    exact gives_pure ⟨h, Nat.le_antisymm h.length (Nat.not_lt.1 hlong)⟩

theorem gives_randomHeaders (fuel : Nat) :
    Gives (randomHeaders fuel) fun (h1, h2, h3, h4) => Headers [h1, h2, h3, h4] := by
  refine (gives_repeatUntil (fun _ => gives_nextHeader) fuel (s := [])
    ⟨by simp, by simp, by simp⟩).bind fun headers hheaders => gives_pure ?_
  obtain ⟨hheaders, hlen⟩ := hheaders
  match headers, hlen with
  | [h1, h2, h3, h4], _ => exact hheaders

/-- The port of the 3.1 tier is drawn until it is another one. -/
theorem gives_nextPort (fuel : Nat) (defaultPort port : UInt16) :
    Gives (repeatUntil (nextPort defaultPort) fuel port) fun p => ¬ (p = 0 ∨ p = defaultPort) := by
  refine gives_repeatUntil (I := fun _ => True) (fun p _ => ?_) fuel trivial
  unfold nextPort
  split
  · exact gives_randomPort.bind fun p _ => gives_pure trivial
  · rename_i hother
    exact gives_pure hother

/-! ## What the validator asks for -/

theorem validatePaddings_none {p : Params} {min : UInt16} (h : Paddings min (p.s1, p.s2))
    (hs3 : min ≤ p.s3 ∧ p.s3 ≤ 150) (hs4 : min ≤ p.s4 ∧ p.s4 ≤ 150) :
    validatePaddings p min = none := by
  have hlong : ∀ {s bound : UInt16}, s ≤ 150 → 150 ≤ bound → ¬ s > bound :=
    fun hs hbound => UInt16.not_lt.2 (UInt16.le_trans hs hbound)
  simp only [validatePaddings, orElse_none, refuse_eq_none, not_or]
  refine ⟨⟨hlong h.s1.2 (by decide), hlong h.s2.2 (by decide), hlong hs3.2 (by decide),
    hlong hs4.2 (by decide)⟩, ?_, h.apart⟩
  rintro ⟨v, hv, hshort⟩
  simp only [List.mem_cons, List.not_mem_nil, or_false] at hv
  refine absurd hshort (UInt16.not_lt.2 ?_)
  rcases hv with rfl | rfl | rfl | rfl
  · exact h.s1.1
  · exact h.s2.1
  · exact hs3.1
  · exact hs4.1

theorem headersFrom_none {vs : List UInt32} (seen : List UInt32) (habove : ∀ v ∈ vs, 4 < v)
    (hnodup : vs.Nodup) (hnew : ∀ v ∈ vs, v ∉ seen) : headersFrom seen vs = none := by
  induction vs generalizing seen with
  | nil => rfl
  | cons v rest ih =>
      simp only [List.forall_mem_cons] at habove hnew
      obtain ⟨hv, hrest⟩ := List.nodup_cons.1 hnodup
      simp only [headersFrom, orElse_none, refuse_eq_none]
      refine ⟨UInt32.not_le.2 habove.1, hnew.1, ih (v :: seen) habove.2 hrest fun w hw => ?_⟩
      rw [List.mem_cons, not_or]
      exact ⟨fun heq => hv (heq ▸ hw), hnew.2 w hw⟩

theorem validateHeaders_none {p : Params} (h : Headers [p.h1, p.h2, p.h3, p.h4]) (b : Bool) :
    validateHeaders p b = none := by
  unfold validateHeaders
  split
  · rfl
  · exact headersFrom_none [] h.above h.nodup fun v _ => List.not_mem_nil

theorem gives_generate_obfuscation (fuel : Nat) {o : Obfuscation} (ho : o.toSignatures = {}) :
    Gives (o.generate fuel) (·.validate = none) := by
  refine (gives_randomHandshakePaddings fuel (by decide)).bind fun s hs => ?_
  refine (gives_randomHeaders fuel).bind fun h hh => gives_pure ?_
  simp only [Obfuscation.validate, orElse_none, refuse_eq_none]
  refine ⟨by decide, by decide, ?_, validateHeaders_none hh true, ?_⟩
  · have hzero : ∀ v : UInt16, 0 ≤ v := fun v => UInt16.le_iff_toNat_le.2 (Nat.zero_le _)
    have hnone : (0 : UInt16) ≤ 150 := by decide
    exact validatePaddings_none ⟨⟨hzero _, hs.s1.2⟩, ⟨hzero _, hs.s2.2⟩, hs.apart⟩
      ⟨hzero _, hnone⟩ ⟨hzero _, hnone⟩
  · rw [ho]
    decide

/-- The 3.1 tier's section, drawn: on, valid next to the default tier, its networks left to its
key. -/
structure V3.Drawn (v drawn : V3) (defaultPort : UInt16) : Prop where
  enabled : drawn.enabled = true
  valid : drawn.validate "awg0" defaultPort = none
  ipv4Subnet : drawn.ipv4Subnet = v.ipv4Subnet
  ipv6Subnet : drawn.ipv6Subnet = v.ipv6Subnet

theorem gives_generate_v3 (fuel : Nat) (v : V3) (defaultPort : UInt16) :
    Gives (v.generate fuel defaultPort) (v.Drawn · defaultPort) := by
  refine gives_newPrivateKey.bind fun key hkey => ?_
  refine (gives_block 32).bind fun header hheader => ?_
  refine (gives_nextPort fuel defaultPort v.listenPort).bind fun port hport => ?_
  refine (gives_randomHandshakePaddings fuel (by decide)).bind fun s hs => ?_
  refine (gives_randomUint16 (by decide) (by decide)).bind fun s3 hs3 => ?_
  refine (gives_randomUint16 (by decide) (by decide)).bind fun s4 hs4 => ?_
  refine (gives_randomHeaders fuel).bind fun h hh => gives_pure ⟨rfl, ?_, rfl, rfl⟩
  have hmin : ∀ {s : UInt16}, 16 ≤ s → 12 ≤ s := UInt16.le_trans (by decide)
  simp only [V3.validate, orElse_none, refuse_eq_none, Option.map_eq_none_iff,
    keyFromString_encodeToString hkey, Base64.decodeString_encodeToString]
  refine ⟨by decide, hport, rfl, by simpa using hheader, ?_, validateHeaders_none hh false,
    by decide⟩
  exact validatePaddings_none ⟨⟨hmin hs.s1.1, hs.s1.2⟩, ⟨hmin hs.s2.1, hs.s2.2⟩, hs.apart⟩
    ⟨hmin hs3.1, UInt16.le_trans hs3.2 (by decide)⟩ ⟨hmin hs4.1, UInt16.le_trans hs4.2 (by decide)⟩

/-! ## The configuration -/

/-- Every rule is met but the one on the networks, which is about the keys alone. -/
structure Config.Drawn (c : Config) (v : V3) (key key' : List UInt8) : Prop where
  tier3 : c.tier3 = some v
  key : keyFromString c.privateKey = .ok key
  key' : keyFromString v.privateKey = .ok key'
  derived : c.ipv4Subnet = "" ∧ c.ipv6Subnet = "" ∧ v.ipv4Subnet = "" ∧ v.ipv6Subnet = ""
  wireGuard : c.wireGuard.validate = none
  obfuscation : c.obfuscation.validate = none
  v3 : v.validate c.interface c.listenPort = none

/-- A key is read from a text that is not empty. -/
theorem validate_wireGuard_drawn {key : List UInt8} (hkey : key.length = 32) {port : UInt16}
    (hport : port ≠ 0) (uplink : String) :
    (WireGuard.Config.mk "awg0" port (Base64.encodeToString key) uplink true).validate = none := by
  have hread := keyFromString_encodeToString hkey
  simp only [WireGuard.Config.validate, orElse_none, refuse_eq_none, Option.map_eq_none_iff, hread]
  refine ⟨by decide, hport, fun hempty => ?_, rfl⟩
  rw [hempty] at hread
  exact absurd hread (by simp [keyFromString, Base64.decodeString, Base64.decode])

theorem gives_withDefaultValues (fuel : Nat) :
    Gives (newConfig.withDefaultValues fuel) fun c => ∃ v key key', c.Drawn v key key' := by
  refine gives_newPrivateKey.bind fun key hkey => ?_
  refine gives_randomPort.bind fun port hport => ?_
  refine (gives_generate_obfuscation fuel rfl).bind fun o ho => ?_
  refine (gives_generate_v3 fuel _ port).bind fun v hv => gives_pure ?_
  obtain ⟨key', hkey'⟩ : ∃ key', keyFromString v.privateKey = .ok key' := by
    have hvalid := hv.valid
    simp only [V3.validate, orElse_none, Option.map_eq_none_iff] at hvalid
    exact errorOf_eq_none.1 hvalid.2.2.1
  refine ⟨v, key, key', ?_, keyFromString_encodeToString hkey, hkey',
    ⟨rfl, rfl, hv.ipv4Subnet, hv.ipv6Subnet⟩, validate_wireGuard_drawn hkey hport _, ho, hv.valid⟩
  rw [Config.tier3, Option.filter_some, if_pos hv.enabled]

theorem Config.Drawn.validate {c : Config} {v : V3} {key key' : List UInt8}
    (h : c.Drawn v key key') (k : Crypto) : c.validate k = errorOf (c.tunnelNetworks k) := by
  rw [Config.validate, h.wireGuard, h.obfuscation, h.tier3, Option.bind_some, h.v3]
  rfl

/-- **What is drawn is valid.**  Whatever numbers and bytes the source of randomness gives, a
configuration `WithDefaultValues` returns is refused only when its two keys derive the same
IPv6 network. -/
theorem drawn_valid (k : Crypto) (fuel : Nat) (draws rest : List Draw) (c : Config)
    (h : (newConfig.withDefaultValues fuel).run draws = some (c, rest)) :
    ∃ v key key', c.tier3 = some v ∧ keyFromString c.privateKey = .ok key ∧
      keyFromString v.privateKey = .ok key' ∧
      (c.validate k = none ↔ (derivedBy k key).ipv6 ≠ (derivedBy k key').ipv6) := by
  obtain ⟨v, key, key', hdrawn⟩ := gives_withDefaultValues fuel draws c rest h
  refine ⟨v, key, key', hdrawn.tier3, hdrawn.key, hdrawn.key', ?_⟩
  rw [hdrawn.validate k, Ne,
    ← tunnelNetworks_derived hdrawn.tier3 hdrawn.derived hdrawn.key hdrawn.key']
  cases c.tunnelNetworks k with
  | ok n => simp [errorOf]
  | error e => simp [errorOf]

/-- Draws in which each loop goes round again once: the second prefix is 56 above the first, a
header comes twice, and the port is the default tier's. -/
def someDraws : List Draw :=
  List.flatten [[.block (List.replicate 32 1), .int 0, .int 0, .int 56, .int 57],
    [0, 0, 1, 2, 3].map fun b => .block [0, 0, 0, b],
    [.block (List.replicate 32 2), .block (List.replicate 32 3), .int 0, .int 1, .int 4, .int 5,
      .int 6, .int 7],
    [4, 5, 6, 7].map fun b => .block [0, 0, 0, b]]

/-- The key of the default tier, with the bits of a private key set, -/
def firstKey : List UInt8 := 0 :: List.replicate 30 1 ++ [65]

/-- and that of the 3.1 tier. -/
def secondKey : List UInt8 := 0 :: List.replicate 30 2 ++ [66]

/-- The configuration drawn has them. -/
def Config.HasKeys (c : Config) : Prop :=
  c.privateKey = Base64.encodeToString firstKey ∧
    c.tier3.map (·.privateKey) = some (Base64.encodeToString secondKey)

instance (c : Config) : Decidable c.HasKeys := inferInstanceAs (Decidable (_ ∧ _))

/-- Their IPv6 networks are two. -/
theorem drawn_valid_someDraws : ∃ c rest, (newConfig.withDefaultValues 6).run someDraws =
    some (c, rest) ∧ c.validate plainCrypto = none := by
  have hkeys : ((newConfig.withDefaultValues 6).run someDraws).any (fun r => r.1.HasKeys) = true := by
    decide +kernel
  obtain ⟨⟨c, rest⟩, hrun, hc⟩ := (Option.any_eq_true _ _).1 hkeys
  obtain ⟨hfirst, hsecond⟩ := of_decide_eq_true hc
  obtain ⟨v, key, key', hv, hkey, hkey', hvalid⟩ := drawn_valid plainCrypto 6 someDraws rest c hrun
  refine ⟨c, rest, hrun, hvalid.2 ?_⟩
  rw [hv] at hsecond
  rw [hfirst, keyFromString_encodeToString (by decide)] at hkey
  have hsecond : v.privateKey = Base64.encodeToString secondKey := Option.some.inj hsecond
  rw [hsecond, keyFromString_encodeToString (by decide)] at hkey'
  cases hkey
  cases hkey'
  intro hsame
  exact absurd (congrArg IPNet.ip hsame) (by decide)

end AmneziaWG

end Dvpnd
