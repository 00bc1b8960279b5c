import Dvpnd.Services.IPPool

/-!
# Addresses and networks from text

`netip.ParseAddr` and `net.ParseCIDR` of the standard library, which read the addresses and
subnets of the configuration.  A Go string is read byte by byte; no byte above 127 is part of
an address, so a text is a list of characters here.

* `parseIPv4Fields`, `parseIPv6`, `parseAddr` — addresses: dotted quads, groups with an
  ellipsis, a dotted quad at the end of them, a zone.
* `parseCIDR` — the address written and its network.  **An address in the IPv6 notation has a
  mask of 128 bits**, also when it stands for an IPv4 one.
* `parseCIDR_spec` — what a network that was read looks like.
-/

namespace Dvpnd

/-! ## Addresses -/

/-- `netip.Addr`. -/
inductive Addr where
  | v4 (bytes : List UInt8)
  | v6 (bytes : List UInt8) (zone : List Char)
  deriving DecidableEq

/-- `Zone`. -/
def Addr.zone : Addr → List Char
  | .v4 _ => []
  | .v6 _ zone => zone

/-- `BitLen`, in bytes. -/
def Addr.byteLen : Addr → Nat
  | .v4 _ => 4
  | .v6 _ _ => 16

/-- `v4InV6Prefix`: in front of the bytes of an IPv4 address. -/
def v4InV6Prefix : List UInt8 := List.replicate 10 0 ++ [255, 255]

/-- `As16`. -/
def Addr.as16 : Addr → List UInt8
  | .v4 bytes => v4InV6Prefix ++ bytes
  | .v6 bytes _ => bytes

/-- The value of a decimal digit. -/
def digitValue (c : Char) : Nat := c.toNat - '0'.toNat

/-- `parseIPv4Fields`, in the middle of a field: its value and digits so far, and the fields
before it. -/
def parseIPv4Fields (val digLen : Nat) (fields : List UInt8) : List Char → Option (List UInt8)
  | [] => if fields.length < 3 then none else some (fields ++ [UInt8.ofNat val])
  | c :: rest =>
      if c.isDigit then
        if digLen = 1 ∧ val = 0 then none
        else if 255 < val * 10 + digitValue c then none
        else parseIPv4Fields (val * 10 + digitValue c) (digLen + 1) fields rest
      else if c = '.' then
        -- at the start, at the end, or after another dot
        if digLen = 0 ∨ rest = [] then none
        else if fields.length = 3 then none
        else parseIPv4Fields 0 0 (fields ++ [UInt8.ofNat val]) rest
      else none

/-- `parseIPv4`. -/
def parseIPv4 (s : List Char) : Option Addr := (parseIPv4Fields 0 0 [] s).map .v4

/-- The value of a hexadecimal digit. -/
def hexValue (c : Char) : Option Nat :=
  if c.isDigit then some (c.toNat - '0'.toNat)
  else if 'a' ≤ c ∧ c ≤ 'f' then some (c.toNat - 'a'.toNat + 10)
  else if 'A' ≤ c ∧ c ≤ 'F' then some (c.toNat - 'A'.toNat + 10)
  else none

/-- The two bytes of a group. -/
def groupBytes (digits : List Char) : List UInt8 :=
  let acc := digits.foldl (fun acc c => acc * 16 + (hexValue c).getD 0) 0
  [UInt8.ofNat (acc / 256), UInt8.ofNat acc]

/-- Where the loop of `parseIPv6` stands: the bytes it has, the place of the ellipsis among
them, and the text left. -/
structure Groups where
  ip : List UInt8
  ellipsis : Option Nat
  rest : List Char

/-- The loop of `parseIPv6`, with room for so many groups more. -/
def parseGroups : Nat → Groups → Option Groups
  | 0, g => some g
  | room + 1, g =>
      let digits := g.rest.takeWhile fun c => (hexValue c).isSome
      let ip := g.ip ++ groupBytes digits
      if 4 < digits.length ∨ digits = [] then none
      else
        match g.rest.drop digits.length with
        | '.' :: _ =>
            if g.ellipsis = none ∧ g.ip.length ≠ 12 then none
            else if 16 < g.ip.length + 4 then none
            else (parseIPv4Fields 0 0 [] g.rest).map fun quad => ⟨g.ip ++ quad, g.ellipsis, []⟩
        | [] => some ⟨ip, g.ellipsis, []⟩
        | [':'] => none
        | ':' :: ':' :: rest =>
            if g.ellipsis.isSome then none
            else if rest = [] then some ⟨ip, some ip.length, []⟩
            else parseGroups room ⟨ip, some ip.length, rest⟩
        | ':' :: rest => parseGroups room ⟨ip, g.ellipsis, rest⟩
        | _ => none

/-- The end of `parseIPv6`: the zeros the ellipsis stands for. -/
def Groups.expand (g : Groups) : Option (List UInt8) :=
  if g.rest ≠ [] then none
  else
    match g.ellipsis with
    | none => if g.ip.length < 16 then none else some g.ip
    | some e =>
        if g.ip.length < 16 then
          some (g.ip.take e ++ List.replicate (16 - g.ip.length) 0 ++ g.ip.drop e)
        else none

/-- The address before the zone. -/
def parseIPv6Bytes : List Char → Option (List UInt8)
  | [':', ':'] => some (List.replicate 16 0)
  | ':' :: ':' :: rest => (parseGroups 8 ⟨[], some 0, rest⟩).bind Groups.expand
  | s => (parseGroups 8 ⟨[], none, s⟩).bind Groups.expand

/-- `parseIPv6`. -/
def parseIPv6 (s : List Char) : Option Addr :=
  match s.dropWhile (· ≠ '%') with
  | [] => (parseIPv6Bytes s).map (.v6 · [])
  | [_] => none
  | _ :: zone => (parseIPv6Bytes (s.takeWhile (· ≠ '%'))).map (.v6 · zone)

/-- `netip.ParseAddr`: the first dot, colon or percent sign decides. -/
def parseAddr (s : List Char) : Option Addr :=
  match s.find? fun c => c == '.' || c == ':' || c == '%' with
  | some '.' => parseIPv4 s
  | some ':' => parseIPv6 s
  | _ => none

/-- `net.ParseIP`: an address without a zone, in sixteen bytes. -/
def parseIP (s : List Char) : Option (List UInt8) :=
  (parseAddr s).bind fun addr => if addr.zone = [] then some addr.as16 else none

/-! ## Networks -/

/-- `dtoi`, after digits with a value: the number, and what follows it. -/
def dtoi (n : Nat) : List Char → Option (Nat × List Char)
  | [] => some (n, [])
  | c :: rest =>
      if c.isDigit then
        if 0xFFFFFF ≤ n * 10 + digitValue c then none else dtoi (n * 10 + digitValue c) rest
      else some (n, c :: rest)

/-- `Mask`: a short mask is for the IPv4 address. -/
def maskIP (ip mask : List UInt8) : List UInt8 :=
  Masks.both (if mask.length = 4 then (to4 ip).getD ip else ip) mask

/-- `Mask.Size`: the ones in front, when there are no others. -/
def maskSize (mask : List UInt8) : Nat :=
  ((List.range (8 * mask.length + 1)).find? fun n => cidrMask n mask.length == mask).getD 0

/-- `net.ParseCIDR`: the address, in sixteen bytes, and its network. -/
def parseCIDR (s : List Char) : Option (List UInt8 × IPNet) :=
  match parseAddr (s.takeWhile (· ≠ '/')), s.dropWhile (· ≠ '/') with
  | some addr, _ :: d :: digits =>
      match dtoi 0 (d :: digits) with
      | some (n, []) =>
          let mask := cidrMask n addr.byteLen
          if addr.zone ≠ [] ∨ 8 * addr.byteLen < n then none
          else some (addr.as16, ⟨maskIP addr.as16 mask, mask⟩)
      | _ => none
  | _, _ => none

/-! ### What is read -/

/-- A dotted quad is four bytes. -/
theorem length_parseIPv4Fields {val digLen : Nat} {fields : List UInt8} {s : List Char}
    {bytes : List UInt8} (hfields : fields.length ≤ 3)
    (h : parseIPv4Fields val digLen fields s = some bytes) : bytes.length = 4 := by
  induction s generalizing val digLen fields with
  | nil =>
      simp only [parseIPv4Fields] at h
      split at h
      · cases h
      · cases h
        simp only [List.length_append, List.length_singleton]
        omega
  | cons c rest ih =>
      simp only [parseIPv4Fields] at h
      repeat' split at h
      all_goals first | cases h | skip
      · exact ih hfields h
      · refine ih ?_ h
        simp only [List.length_append, List.length_singleton]
        omega

/-- It is written in digits and dots, -/
theorem not_colon_of_parseIPv4Fields {val digLen : Nat} {fields : List UInt8} {s : List Char}
    {bytes : List UInt8} (h : parseIPv4Fields val digLen fields s = some bytes) : ':' ∉ s := by
  induction s generalizing val digLen fields with
  | nil => exact List.not_mem_nil
  | cons c rest ih =>
      simp only [parseIPv4Fields] at h
      rw [List.mem_cons, not_or]
      split at h
      · rename_i hdigit
        repeat' split at h
        all_goals first | cases h | skip
        exact ⟨fun hc => absurd (hc ▸ hdigit) (by decide), ih h⟩
      · split at h
        · rename_i hdot
          repeat' split at h
          all_goals first | cases h | skip
          exact ⟨fun hc => absurd (hc.trans hdot) (by decide), ih h⟩
        · cases h

/-- and so is a number. -/
theorem not_colon_of_dtoi {n m : Nat} {s : List Char} (h : dtoi n s = some (m, [])) : ':' ∉ s := by
  induction s generalizing n with
  | nil => exact List.not_mem_nil
  | cons c rest ih =>
      simp only [dtoi] at h
      rw [List.mem_cons, not_or]
      split at h
      · rename_i hdigit
        split at h
        · cases h
        · exact ⟨fun hc => absurd (hc ▸ hdigit) (by decide), ih h⟩
      · cases h

/-- The groups are within the address, and so is the ellipsis. -/
def Groups.Fits (g : Groups) : Prop := g.ip.length ≤ 16 ∧ ∀ e ∈ g.ellipsis, e ≤ g.ip.length

theorem Groups.Fits.append {g : Groups} (hfits : g.Fits) {bytes : List UInt8}
    (hlen : g.ip.length + bytes.length ≤ 16) (rest : List Char) :
    Groups.Fits ⟨g.ip ++ bytes, g.ellipsis, rest⟩ := by
  refine ⟨List.length_append.trans_le hlen, fun e he => ?_⟩
  exact (hfits.2 e he).trans (List.length_append.symm ▸ Nat.le_add_right _ _)

theorem Groups.fits_here {ip : List UInt8} (hlen : ip.length ≤ 16) (rest : List Char) :
    Groups.Fits ⟨ip, some ip.length, rest⟩ :=
  ⟨hlen, fun _ he => (Option.mem_some_iff.1 he).symm.le⟩

theorem fits_parseGroups {room : Nat} {g g' : Groups} (hroom : g.ip.length + 2 * room = 16)
    (hfits : g.Fits) (h : parseGroups room g = some g') : g'.Fits := by
  induction room generalizing g with
  | zero =>
      cases h
      exact hfits
  | succ room ih =>
      have hgroup : ∀ ds, (g.ip ++ groupBytes ds).length = g.ip.length + 2 := fun ds =>
        List.length_append
      simp only [parseGroups] at h
      split at h
      · cases h
      · split at h
        · -- a dotted quad
          split at h
          · cases h
          · split at h
            · cases h
            · rename_i hspace
              obtain ⟨quad, hquad, rfl⟩ := Option.map_eq_some_iff.1 h
              have hfour : quad.length = 4 := length_parseIPv4Fields (by decide) hquad
              exact hfits.append (by omega) []
        · -- the last group
          cases h
          exact hfits.append (by rw [← List.length_append, hgroup]; omega) []
        · cases h
        · -- an ellipsis
          split at h
          · cases h
          · split at h
            · cases h
              exact Groups.fits_here (by rw [hgroup]; omega) []
            · exact ih (by rw [hgroup]; omega) (Groups.fits_here (by rw [hgroup]; omega) _) h
        · exact ih (by rw [hgroup]; omega)
            (hfits.append (by rw [← List.length_append, hgroup]; omega) _) h
        · cases h

/-- What the ellipsis stands for fills the address up. -/
theorem Groups.Fits.length_expand {g : Groups} (hfits : g.Fits) {ip : List UInt8}
    (h : g.expand = some ip) : ip.length = 16 := by
  obtain ⟨hlen, hell⟩ := hfits
  unfold Groups.expand at h
  split at h
  · cases h
  · split at h
    · split at h
      · cases h
      · cases h
        omega
    · rename_i e he
      split at h
      · cases h
        have := hell e he
        simp only [List.length_append, List.length_take, List.length_replicate, List.length_drop]
        omega
      · cases h

theorem length_parseIPv6Bytes {s : List Char} {ip : List UInt8} (h : parseIPv6Bytes s = some ip) :
    ip.length = 16 := by
  unfold parseIPv6Bytes at h
  split at h
  · cases h
    rfl
  · obtain ⟨g, hg, hexp⟩ := Option.bind_eq_some_iff.1 h
    exact (fits_parseGroups rfl (Groups.fits_here (Nat.zero_le _) _) hg).length_expand hexp
  · obtain ⟨g, hg, hexp⟩ := Option.bind_eq_some_iff.1 h
    exact (fits_parseGroups rfl ⟨Nat.zero_le _, by simp⟩ hg).length_expand hexp

/-- The bytes of an address, and whether it has a colon. -/
def Addr.Written (s : List Char) : Addr → Prop
  | .v4 bytes => bytes.length = 4 ∧ ':' ∉ s
  | .v6 bytes _ => bytes.length = 16 ∧ ':' ∈ s

theorem written_parseIPv6 {s : List Char} {addr : Addr} (hcolon : ':' ∈ s)
    (h : parseIPv6 s = some addr) : addr.Written s := by
  unfold parseIPv6 at h
  split at h
  · obtain ⟨ip, hip, rfl⟩ := Option.map_eq_some_iff.1 h
    exact ⟨length_parseIPv6Bytes hip, hcolon⟩
  · cases h
  · obtain ⟨ip, hip, rfl⟩ := Option.map_eq_some_iff.1 h
    exact ⟨length_parseIPv6Bytes hip, hcolon⟩

/-- **An address has four bytes, or sixteen and a colon.** -/
theorem written_parseAddr {s : List Char} {addr : Addr} (h : parseAddr s = some addr) :
    addr.Written s := by
  unfold parseAddr at h
  split at h
  · obtain ⟨bytes, hbytes, rfl⟩ := Option.map_eq_some_iff.1 h
    exact ⟨length_parseIPv4Fields (by decide) hbytes, not_colon_of_parseIPv4Fields hbytes⟩
  · rename_i hfind
    exact written_parseIPv6 (List.mem_of_find?_eq_some hfind) h
  · cases h

theorem to4_v4InV6 {bytes : List UInt8} (h : bytes.length = 4) :
    to4 (v4InV6Prefix ++ bytes) = some bytes := by
  have hlen : (v4InV6Prefix ++ bytes).length = 16 := by rw [List.length_append, h]; rfl
  have htake : (v4InV6Prefix ++ bytes).take 12 = v4InV6Prefix := List.take_left' rfl
  rw [to4, hlen, if_neg (by decide), if_pos ⟨rfl, htake⟩]
  exact congrArg some (List.drop_left' rfl)

theorem maskSize_cidrMask {ones bytes : Nat} (h : ones ≤ 8 * bytes) :
    maskSize (cidrMask ones bytes) = ones := by
  have hlen : (cidrMask ones bytes).length = bytes := Masks.length_ofOnes ones bytes
  unfold maskSize
  rw [hlen]
  cases hfind : (List.range (8 * bytes + 1)).find?
      fun n => cidrMask n bytes == cidrMask ones bytes with
  | none => exact absurd (List.find?_eq_none.1 hfind ones (List.mem_range.2 (by omega))) (by simp)
  | some n =>
      have hn := List.mem_range.1 (List.mem_of_find?_eq_some hfind)
      have heq := List.find?_some hfind
      exact Masks.ofOnes_inj (Nat.le_of_lt_succ hn) h (eq_of_beq heq)

/-- What `net.ParseCIDR` makes of a text: the address in sixteen bytes, and its network. -/
inductive Reads (s : List Char) : List UInt8 → IPNet → Prop where
  | v4 {ip : List UInt8} {ones : Nat} (hcolon : ':' ∉ s) (hlen : ip.length = 4)
      (hones : ones ≤ 8 * 4) :
      Reads s (v4InV6Prefix ++ ip) ⟨Masks.both ip (cidrMask ones 4), cidrMask ones 4⟩
  | v6 {ip : List UInt8} {ones : Nat} (hcolon : ':' ∈ s) (hlen : ip.length = 16)
      (hones : ones ≤ 8 * 16) :
      Reads s ip ⟨Masks.both ip (cidrMask ones 16), cidrMask ones 16⟩

theorem colon_takeWhile {s : List Char} :
    ':' ∈ s ↔ ':' ∈ s.takeWhile (· ≠ '/') ∨ ':' ∈ s.dropWhile (· ≠ '/') := by
  rw [← List.mem_append, List.takeWhile_append_dropWhile]

/-- **The network is the address under its mask**, of 32 bits without a colon and of 128
with one. -/
theorem parseCIDR_spec {s : List Char} {ip : List UInt8} {n : IPNet}
    (h : parseCIDR s = some (ip, n)) : Reads s ip n := by
  unfold parseCIDR at h
  split at h
  · rename_i addr slash d digits haddr hdrop
    split at h
    · rename_i ones hdtoi
      split at h
      · cases h
      · rename_i hfits
        obtain ⟨-, hones⟩ := not_or.1 hfits
        cases h
        have hslash : slash = '/' := by
          have hhead := List.head?_dropWhile_not (fun c : Char => decide (c ≠ '/')) s
          rw [hdrop] at hhead
          simpa using hhead
        cases addr with
        | v4 bytes =>
            obtain ⟨hlen, hcolon⟩ := written_parseAddr haddr
            have hmask : maskIP (v4InV6Prefix ++ bytes) (cidrMask ones 4) =
                Masks.both bytes (cidrMask ones 4) := by
              rw [maskIP, cidrMask, if_pos (Masks.length_ofOnes ones 4), to4_v4InV6 hlen]
              rfl
            show Reads s (v4InV6Prefix ++ bytes)
              ⟨maskIP (v4InV6Prefix ++ bytes) (cidrMask ones 4), cidrMask ones 4⟩
            rw [hmask]
            refine .v4 ?_ hlen (Nat.le_of_not_lt hones)
            rw [colon_takeWhile, hdrop, not_or, hslash, List.mem_cons, not_or]
            exact ⟨hcolon, by decide, not_colon_of_dtoi hdtoi⟩
        | v6 bytes zone =>
            obtain ⟨hlen, hcolon⟩ := written_parseAddr haddr
            have hmask : maskIP bytes (cidrMask ones 16) = Masks.both bytes (cidrMask ones 16) := by
              rw [maskIP, cidrMask, Masks.length_ofOnes ones 16, if_neg (by decide)]
            show Reads s bytes ⟨maskIP bytes (cidrMask ones 16), cidrMask ones 16⟩
            rw [hmask]
            exact .v6 (colon_takeWhile.2 (.inl hcolon)) hlen (Nat.le_of_not_lt hones)
    · cases h
  · cases h

end Dvpnd
