import Dvpnd.Lib.Hex
import Dvpnd.Lib.JSON
import Dvpnd.Lib.Lists
import Dvpnd.Lib.Tokens

/-!
# The OpenVPN static key file

`tc.key` holds the tls-crypt key the way `openvpn --genkey` writes it: in hexadecimal, in
lines of 32 digits, between two markers.  An operator may bring such a file along, from an
editor that ends its lines in a carriage return or with remarks of their own.

* `staticKeyFile`, `parseStaticKeyFile` — the writer, which panics where a slice of the text
  would end past it, and the reader.
* `Loosened` — the same lines, with white space around them and blank and `#` lines between.
* `staticKey_reads_back` — **every key reads back, also from a loosened file.**
-/

namespace Dvpnd.OpenVPN

open JSON (utf8)

/-! ## The writer -/

/-- `tlsCryptKeyLen`: 2048 bits. -/
def tlsCryptKeyLen : Nat := 256

/-- `'\n'`. -/
def lineEnd : UInt8 := 10

/-- One round of the loop of `staticKeyFile`: `h[i:i+32]` and the end of the line. -/
def writeHexLine (h b : List UInt8) (i : Nat) : Option (List UInt8) :=
  if i + 32 ≤ h.length then some (b ++ ((h.drop i).take 32 ++ [lineEnd])) else none

/-- `staticKeyFile`; none where it panics. -/
def staticKeyFile (key : List UInt8) : Option (List UInt8) :=
  let h := Hex.encode key
  -- `for i := 0; i < len(h); i += 32`
  ((List.range' 0 ((h.length + 31) / 32) 32).foldlM (writeHexLine h)
    (utf8 "#\n# 2048 bit OpenVPN static key\n#\n-----BEGIN OpenVPN Static key V1-----\n")).map
      (· ++ utf8 "-----END OpenVPN Static key V1-----\n")

/-! ## The reader -/

/-- What `unicode.IsSpace` holds of, in UTF-8. -/
def spaces : List (List UInt8) :=
  [[0x09], [0x0A], [0x0B], [0x0C], [0x0D], [0x20], [0xC2, 0x85], [0xC2, 0xA0],
    [0xE1, 0x9A, 0x80], [0xE2, 0x80, 0x80], [0xE2, 0x80, 0x81], [0xE2, 0x80, 0x82],
    [0xE2, 0x80, 0x83], [0xE2, 0x80, 0x84], [0xE2, 0x80, 0x85], [0xE2, 0x80, 0x86],
    [0xE2, 0x80, 0x87], [0xE2, 0x80, 0x88], [0xE2, 0x80, 0x89], [0xE2, 0x80, 0x8A],
    [0xE2, 0x80, 0xA8], [0xE2, 0x80, 0xA9], [0xE2, 0x80, 0xAF], [0xE2, 0x81, 0x9F],
    [0xE3, 0x80, 0x80]]

/-- `strings.TrimSpace`. -/
def trimSpace (s : List UInt8) : List UInt8 := Tokens.trim spaces s

/-- One round of the loop of `parseStaticKeyFile`, over `in` and `h`. -/
def readLine (st : Bool × List UInt8) (line : List UInt8) : Bool × List UInt8 :=
  let line := trimSpace line
  if (utf8 "-----BEGIN").isPrefixOf line then (true, st.2)
  else if (utf8 "-----END").isPrefixOf line then (false, st.2)
  else if st.1 && !line.isEmpty && !(utf8 "#").isPrefixOf line then (st.1, st.2 ++ line)
  else st

/-- The one error of `parseStaticKeyFile`. -/
def notStaticKey : String := "tc.key is not a 2048 bit OpenVPN static key"

/-- `parseStaticKeyFile`. -/
def parseStaticKeyFile (data : List UInt8) : Except String (List UInt8) :=
  let h := ((data.splitOn lineEnd).foldl readLine (false, [])).2
  match Hex.decode h with
  | .error _ => .error notStaticKey
  | .ok key => if key.length = tlsCryptKeyLen then .ok key else .error notStaticKey

/-! ## Loosened files -/

/-- White space within a line. -/
def Blank (p : List UInt8) : Prop := Tokens.Padding spaces p ∧ lineEnd ∉ p

/-- A blank line, or a `#` line. -/
def Ignored (line : List UInt8) : Prop :=
  Blank line ∨ ∃ p rest, Blank p ∧ lineEnd ∉ rest ∧ line = p ++ utf8 "#" ++ rest

/-- The lines of a file with white space around any of them and with any number of blank and
`#` lines in front of them, between them and behind them. -/
inductive Loosened : List (List UInt8) → List (List UInt8) → Prop
  | nil : Loosened [] []
  | line {l p q : List UInt8} {ls ls' : List (List UInt8)} (hp : Blank p) (hq : Blank q)
      (h : Loosened ls ls') : Loosened (l :: ls) ((p ++ (l ++ q)) :: ls')
  | added {m : List UInt8} {ls ls' : List (List UInt8)} (hm : Ignored m)
      (h : Loosened ls ls') : Loosened ls (m :: ls')

theorem Blank.nil : Blank [] := ⟨Tokens.Padding.nil spaces, List.not_mem_nil⟩

theorem Blank.carriageReturn : Blank [13] := ⟨.token (by decide), by decide⟩

/-- The same lines. -/
theorem Loosened.refl (ls : List (List UInt8)) : Loosened ls ls := by
  induction ls with
  | nil => exact .nil
  | cons l ls ih =>
      have h := Loosened.line (l := l) .nil .nil ih
      rw [List.append_nil, List.nil_append] at h
      exact h

/-- The lines as an editor may end them. -/
theorem Loosened.carriageReturns (ls : List (List UInt8)) : Loosened ls (ls.map (· ++ [13])) := by
  induction ls with
  | nil => exact .nil
  | cons l ls ih => exact .line (p := []) .nil .carriageReturn ih

theorem Ignored.no_lineEnd {m : List UInt8} (h : Ignored m) : lineEnd ∉ m := by
  rcases h with h | ⟨p, rest, hp, hrest, rfl⟩
  · exact h.2
  · have hmark : lineEnd ∉ utf8 "#" := by decide
    simp only [List.mem_append, not_or]
    exact ⟨⟨hp.2, hmark⟩, hrest⟩

/-- A loosened file has lines too. -/
theorem Loosened.no_lineEnd {ls ls' : List (List UInt8)} (h : Loosened ls ls')
    (hls : ∀ l ∈ ls, lineEnd ∉ l) : ∀ l ∈ ls', lineEnd ∉ l := by
  induction h with
  | nil => exact hls
  | line hp hq _ ih =>
      rw [List.forall_mem_cons] at hls ⊢
      refine ⟨?_, ih hls.2⟩
      simp only [List.mem_append, not_or]
      exact ⟨hp.2, hls.1, hq.2⟩
  | added hm _ ih => exact List.forall_mem_cons.2 ⟨hm.no_lineEnd, ih hls⟩

theorem Loosened.ne_nil {ls ls' : List (List UInt8)} (h : Loosened ls ls') (hls : ls ≠ []) :
    ls' ≠ [] := by
  cases h with
  | nil => exact hls
  | line _ _ _ => exact List.cons_ne_nil _ _
  | added _ _ => exact List.cons_ne_nil _ _

/-! ## White space and remarks make no difference -/

theorem spaces_code : Tokens.Code spaces := ⟨by decide +kernel, by decide +kernel⟩

theorem spaces_reverse_code : Tokens.Code (spaces.map List.reverse) :=
  ⟨by decide +kernel, by decide +kernel⟩

/-- A line with nothing to trim. -/
def Firm (l : List UInt8) : Prop :=
  (∀ x ∈ l.head?, Tokens.Solid spaces x) ∧ ∀ x ∈ l.getLast?, Tokens.Solid spaces x

instance (l : List UInt8) : Decidable (Firm l) := inferInstanceAs (Decidable (_ ∧ _))

theorem Firm.trim_loose {l p q : List UInt8} (hl : Firm l) (hp : Blank p) (hq : Blank q) :
    trimSpace (p ++ (l ++ q)) = l :=
  Tokens.trim_padded spaces_code spaces_reverse_code hp.1 hq.1 hl.1 hl.2

theorem Firm.trim_self {l : List UInt8} (hl : Firm l) : trimSpace l = l := by
  have h := hl.trim_loose .nil .nil
  rw [List.append_nil, List.nil_append] at h
  exact h

theorem readLine_loose {l p q : List UInt8} (hl : Firm l) (hp : Blank p) (hq : Blank q)
    (st : Bool × List UInt8) : readLine st (p ++ (l ++ q)) = readLine st l := by
  rw [readLine, readLine, hl.trim_loose hp hq, hl.trim_self]

/-- What is left of an ignored line. -/
theorem Ignored.trim {m : List UInt8} (h : Ignored m) :
    trimSpace m = [] ∨ ∃ rest, trimSpace m = 35 :: rest := by
  rcases h with h | ⟨p, rest, hp, -, rfl⟩
  · exact .inl (Tokens.trim_padding spaces_code spaces_reverse_code h.1)
  · right
    rw [List.append_assoc, show utf8 "#" = [35] by decide]
    exact Tokens.trim_solid spaces_code hp.1 (by decide) rest

/-- A line that is no marker is kept if it is one of the key's: between the markers, not
empty, and no remark. -/
theorem readLine_of_trim {line t : List UInt8} (ht : trimSpace line = t)
    (hdash : t.head? ≠ some 45) (st : Bool × List UInt8) :
    readLine st line =
      if st.1 = true ∧ t ≠ [] ∧ t.head? ≠ some 35 then (st.1, st.2 ++ t) else st := by
  have hbegin : utf8 "-----BEGIN" = 45 :: utf8 "----BEGIN" := by decide
  have hend : utf8 "-----END" = 45 :: utf8 "----END" := by decide
  have hmark : utf8 "#" = [35] := by decide
  rw [readLine, ht, hbegin, hend, hmark]
  cases t with
  | nil => simp
  | cons b t =>
      have hb : 45 ≠ b := fun heq => hdash (congrArg some heq.symm)
      by_cases hhash : 35 = b
      · simp [← hhash]
      · simp [List.isPrefixOf, hb, hhash, Ne.symm hhash]

theorem readLine_ignored {m : List UInt8} (h : Ignored m) (st : Bool × List UInt8) :
    readLine st m = st := by
  rcases h.trim with hm | ⟨rest, hm⟩
  · rw [readLine_of_trim hm nofun, if_neg fun hkept => hkept.2.1 rfl]
  · rw [readLine_of_trim hm (by simp), if_neg fun hkept => hkept.2.2 rfl]

/-- **Loosening a file changes nothing that is read.** -/
theorem Loosened.foldl_readLine {ls ls' : List (List UInt8)} (h : Loosened ls ls')
    (hls : ∀ l ∈ ls, Firm l) (st : Bool × List UInt8) :
    ls'.foldl readLine st = ls.foldl readLine st := by
  induction h generalizing st with
  | nil => rfl
  | line hp hq _ ih =>
      rw [List.forall_mem_cons] at hls
      rw [List.foldl_cons, List.foldl_cons, readLine_loose hls.1 hp hq]
      exact ih hls.2 _
  | added hm _ ih =>
      rw [List.foldl_cons, readLine_ignored hm]
      exact ih hls st

/-! ## The lines of a file -/

/-- The lines around those with the digits. -/
def keyFileLines (ls : List (List UInt8)) : List (List UInt8) :=
  [utf8 "#", utf8 "# 2048 bit OpenVPN static key", utf8 "#",
    utf8 "-----BEGIN OpenVPN Static key V1-----"] ++
    (ls ++ [utf8 "-----END OpenVPN Static key V1-----"] ++ [[]])

/-- The loop writes out the text it has left, line by line. -/
theorem foldlM_writeHexLine (h : List UInt8) (k i : Nat) (b : List UInt8)
    (hlen : i + 32 * k = h.length) :
    ∃ ls : List (List UInt8), ls.flatten = h.drop i ∧ (∀ l ∈ ls, l ≠ []) ∧
      (List.range' i k 32).foldlM (writeHexLine h) b =
        some (b ++ ls.flatMap (· ++ [lineEnd])) := by
  induction k generalizing i b with
  | zero =>
      refine ⟨[], ?_, fun _ hl => absurd hl List.not_mem_nil, ?_⟩
      · rw [List.flatten_nil, List.drop_of_length_le (by omega)]
      · rw [List.flatMap_nil, List.append_nil]
        rfl
  | succ k ih =>
      obtain ⟨ls, hflat, hne, hfold⟩ :=
        ih (i + 32) (b ++ ((h.drop i).take 32 ++ [lineEnd])) (by omega)
      refine ⟨(h.drop i).take 32 :: ls, ?_, List.forall_mem_cons.2 ⟨?_, hne⟩, ?_⟩
      · rw [List.flatten_cons, hflat, ← List.drop_drop, List.take_append_drop]
      · refine List.ne_nil_of_length_pos ?_
        rw [List.length_take, List.length_drop]
        omega
      · rw [List.range'_succ, List.foldlM_cons, writeHexLine, if_pos (by omega)]
        refine hfold.trans ?_
        rw [List.flatMap_cons, List.append_assoc b]

/-- A key has its lines. -/
theorem staticKeyFile_eq {key : List UInt8} (hkey : key.length = tlsCryptKeyLen) :
    ∃ ls : List (List UInt8), ls.flatten = Hex.encode key ∧ (∀ l ∈ ls, l ≠ []) ∧
      staticKeyFile key = some ([lineEnd].intercalate (keyFileLines ls)) := by
  have hlen : (Hex.encode key).length = 512 := by rw [Hex.length_encode, hkey]; rfl
  obtain ⟨ls, hflat, hne, hfold⟩ := foldlM_writeHexLine (Hex.encode key) 16 0
    (utf8 "#\n# 2048 bit OpenVPN static key\n#\n-----BEGIN OpenVPN Static key V1-----\n")
    (by rw [hlen])
  refine ⟨ls, hflat, hne, ?_⟩
  have hhead : utf8 "#\n# 2048 bit OpenVPN static key\n#\n-----BEGIN OpenVPN Static key V1-----\n" =
      [utf8 "#", utf8 "# 2048 bit OpenVPN static key", utf8 "#",
        utf8 "-----BEGIN OpenVPN Static key V1-----"].flatMap (· ++ [lineEnd]) := by
    decide +kernel
  have hfoot : utf8 "-----END OpenVPN Static key V1-----\n" =
      [utf8 "-----END OpenVPN Static key V1-----"].flatMap (· ++ [lineEnd]) := by
    decide +kernel
  rw [staticKeyFile, hlen, show (512 + 31) / 32 = 16 from rfl, hfold, Option.map_some, hhead, hfoot,
    keyFileLines, ← List.append_assoc, Lists.intercalate_concat_nil, List.flatMap_append,
    List.flatMap_append, List.append_assoc]

/-! ## Reading the lines -/

theorem isDigit_of_mem_encode {key : List UInt8} {b : UInt8} (h : b ∈ Hex.encode key) :
    Hex.IsDigit b :=
  ((Hex.exists_decode_iff _).1 ⟨key, Hex.decode_encode key⟩).2 b h

theorem solid_of_isDigit {b : UInt8} (h : Hex.IsDigit b) : Tokens.Solid spaces b := by
  have hall : ∀ i : Fin 256, Hex.IsDigit (UInt8.ofNat i) → Tokens.Solid spaces (UInt8.ofNat i) := by
    decide +kernel
  have hb := hall ⟨b.toNat, b.toNat_lt⟩
  rw [UInt8.ofNat_toNat] at hb
  exact hb h

/-- A line of digits. -/
def DigitLine (l : List UInt8) : Prop := l ≠ [] ∧ ∀ b ∈ l, Hex.IsDigit b

theorem DigitLine.firm {l : List UInt8} (h : DigitLine l) : Firm l :=
  ⟨fun _ hx => solid_of_isDigit (h.2 _ (List.mem_of_mem_head? hx)),
    fun _ hx => solid_of_isDigit (h.2 _ (List.mem_of_mem_getLast? hx))⟩

/-- Between the markers a line of digits is kept. -/
theorem DigitLine.readLine {l : List UInt8} (hl : DigitLine l) (h : List UInt8) :
    readLine (true, h) l = (true, h ++ l) := by
  have hhead : ∀ b : UInt8, ¬ Hex.IsDigit b → l.head? ≠ some b := fun b hb heq =>
    hb (hl.2 b (List.mem_of_mem_head? heq))
  rw [readLine_of_trim hl.firm.trim_self (hhead 45 (by decide)),
    if_pos ⟨rfl, hl.1, hhead 35 (by decide)⟩]

theorem foldl_digitLines {ls : List (List UInt8)} (hls : ∀ l ∈ ls, DigitLine l) (h : List UInt8) :
    ls.foldl readLine (true, h) = (true, h ++ ls.flatten) := by
  induction ls generalizing h with
  | nil => rw [List.flatten_nil, List.append_nil]; rfl
  | cons l ls ih =>
      rw [List.forall_mem_cons] at hls
      rw [List.foldl_cons, hls.1.readLine, ih hls.2, List.flatten_cons, List.append_assoc]

section KeyFile

variable {ls : List (List UInt8)} (hls : ∀ l ∈ ls, DigitLine l)
include hls

/-- The reader of a file collects its digits. -/
theorem foldl_keyFileLines : ((keyFileLines ls).foldl readLine (false, [])).2 = ls.flatten := by
  have hhead : [utf8 "#", utf8 "# 2048 bit OpenVPN static key", utf8 "#",
      utf8 "-----BEGIN OpenVPN Static key V1-----"].foldl readLine (false, []) = (true, []) := by
    decide +kernel
  have hfoot : ∀ h, [utf8 "-----END OpenVPN Static key V1-----", []].foldl readLine (true, h) =
      (false, h) := by
    intro h
    have htrim : trimSpace (utf8 "-----END OpenVPN Static key V1-----") =
        utf8 "-----END OpenVPN Static key V1-----" := by decide +kernel
    have hbegin : (utf8 "-----BEGIN").isPrefixOf (utf8 "-----END OpenVPN Static key V1-----") =
        false := by decide +kernel
    have hend : (utf8 "-----END").isPrefixOf (utf8 "-----END OpenVPN Static key V1-----") =
        true := by decide +kernel
    rw [List.foldl_cons, readLine, htrim, hbegin, hend]
    exact readLine_ignored (.inl .nil) (false, h)
  rw [keyFileLines, List.foldl_append, hhead, List.append_assoc, List.foldl_append,
    foldl_digitLines hls]
  exact congrArg Prod.snd (hfoot _)

/-- What holds of the markers, the end and the lines of digits holds of every line. -/
theorem forall_mem_keyFileLines {P : List UInt8 → Prop} (hfixed : ∀ l ∈ keyFileLines [], P l)
    (hdigits : ∀ l, DigitLine l → P l) : ∀ l ∈ keyFileLines ls, P l := by
  intro l hl
  simp only [keyFileLines, List.mem_append, List.nil_append] at hl hfixed
  rcases hl with hl | (hl | hl) | hl
  · exact hfixed l (.inl hl)
  · exact hdigits l (hls l hl)
  · exact hfixed l (.inr (.inl hl))
  · exact hfixed l (.inr (.inr hl))

theorem firm_of_mem_keyFileLines : ∀ l ∈ keyFileLines ls, Firm l :=
  forall_mem_keyFileLines hls (by decide +kernel) fun _ hl => hl.firm

theorem no_lineEnd_of_mem_keyFileLines : ∀ l ∈ keyFileLines ls, lineEnd ∉ l := by
  refine forall_mem_keyFileLines hls (by decide +kernel) fun l hl hmem => ?_
  exact absurd (hl.2 _ hmem) (by decide)

/-- **What is read from a loosened file**: the key whose digits it has. -/
theorem parse_loosened {key : List UInt8} (hkey : key.length = tlsCryptKeyLen)
    (hflat : ls.flatten = Hex.encode key) {lines : List (List UInt8)}
    (h : Loosened (keyFileLines ls) lines) :
    parseStaticKeyFile ([lineEnd].intercalate lines) = .ok key := by
  have hsplit := List.splitOn_intercalate lineEnd
    (h.no_lineEnd (no_lineEnd_of_mem_keyFileLines hls)) (h.ne_nil (by simp [keyFileLines]))
  rw [parseStaticKeyFile, hsplit, h.foldl_readLine (firm_of_mem_keyFileLines hls),
    foldl_keyFileLines hls, hflat, Hex.decode_encode]
  exact if_pos hkey

end KeyFile

/-! ## The round trip -/

theorem digitLines_of_flatten {key : List UInt8} {ls : List (List UInt8)}
    (hflat : ls.flatten = Hex.encode key) (hne : ∀ l ∈ ls, l ≠ []) : ∀ l ∈ ls, DigitLine l := by
  intro l hl
  refine ⟨hne l hl, fun b hb => ?_⟩
  have hmem : b ∈ Hex.encode key := hflat ▸ List.mem_flatten.2 ⟨l, hl, hb⟩
  exact isDigit_of_mem_encode hmem

/-- The writer does not panic on a key of the right length. -/
theorem isSome_staticKeyFile {key : List UInt8} (hkey : key.length = tlsCryptKeyLen) :
    (staticKeyFile key).isSome := by
  obtain ⟨ls, -, -, hfile⟩ := staticKeyFile_eq hkey
  rw [hfile]
  rfl

/-- A file that was written, however it is loosened, has the key it was written for. -/
theorem parse_of_loosened {key file : List UInt8} (hkey : key.length = tlsCryptKeyLen)
    (hfile : staticKeyFile key = some file) {lines : List (List UInt8)}
    (h : Loosened (file.splitOn lineEnd) lines) :
    parseStaticKeyFile ([lineEnd].intercalate lines) = .ok key := by
  obtain ⟨ls, hflat, hne, heq⟩ := staticKeyFile_eq hkey
  have hls := digitLines_of_flatten hflat hne
  obtain rfl : [lineEnd].intercalate (keyFileLines ls) = file :=
    Option.some.inj (heq.symm.trans hfile)
  rw [List.splitOn_intercalate lineEnd (no_lineEnd_of_mem_keyFileLines hls)
    (by simp [keyFileLines])] at h
  exact parse_loosened hls hkey hflat h

theorem parse_of_staticKeyFile {key file : List UInt8} (hkey : key.length = tlsCryptKeyLen)
    (hfile : staticKeyFile key = some file) : parseStaticKeyFile file = .ok key := by
  have h := parse_of_loosened hkey hfile (.refl _)
  rw [List.intercalate_splitOn] at h
  exact h

/-- **Every 2048 bit key reads back** from the file it is written to, and from that file with
white space around its lines and blank and `#` lines between them. -/
theorem staticKey_reads_back (key : List UInt8) (hkey : key.length = tlsCryptKeyLen) :
    ∃ file, staticKeyFile key = some file ∧ parseStaticKeyFile file = .ok key ∧
      ∀ lines, Loosened (file.splitOn lineEnd) lines →
        parseStaticKeyFile ([lineEnd].intercalate lines) = .ok key := by
  obtain ⟨file, hfile⟩ := Option.isSome_iff_exists.1 (isSome_staticKeyFile hkey)
  exact ⟨file, hfile, parse_of_staticKeyFile hkey hfile, fun _ h => parse_of_loosened hkey hfile h⟩

/-- A file with a remark on top, saved with carriage returns. -/
theorem staticKey_reads_back_edited :
    (List.replicate 256 (7 : UInt8)).length = tlsCryptKeyLen ∧
      ∃ file, staticKeyFile (List.replicate 256 7) = some file ∧
        parseStaticKeyFile ([lineEnd].intercalate
          (utf8 "# node key" :: (file.splitOn lineEnd).map (· ++ [13]))) =
            .ok (List.replicate 256 7) := by
  have hkey : (List.replicate 256 (7 : UInt8)).length = tlsCryptKeyLen := List.length_replicate
  obtain ⟨file, hfile, -, hloose⟩ := staticKey_reads_back _ hkey
  have hremark : Ignored (utf8 "# node key") :=
    .inr ⟨[], utf8 " node key", .nil, by decide, by decide⟩
  exact ⟨hkey, file, hfile, hloose _ (.added hremark (.carriageReturns _))⟩

end Dvpnd.OpenVPN
