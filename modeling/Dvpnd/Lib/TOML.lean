import Dvpnd.Lib.JSON

/-!
# The part of TOML 1.0 configuration files are written in

Basic strings with every escape of the grammar, and files of comments, tables and
settings, one a line.

* `Unescaped` — the characters a basic string may hold as they are (`basic-unescaped`).
* `readChar`, `readBasic` — one character of a basic string, and the whole of it.
* `written_escape`, `Written.readChar` — **what a JSON encoder writes for a character is read
  as that character, but for the delete character**, which JSON leaves as it is and TOML
  refuses.
* `readBasic_encodeString` — so with strings, whatever stands behind them.
* `Line`, `readLine`, `readFile` — files.
-/

namespace TOML

/-! ## Basic strings -/

/-- `basic-unescaped`: a tab or any other character but controls, the quote and the
backslash. -/
def Unescaped (c : Char) : Prop :=
  c = '\t' ∨ (0x20 ≤ c.toNat ∧ c ≠ '"' ∧ c ≠ '\\' ∧ c.toNat ≠ 0x7f)

instance (c : Char) : Decidable (Unescaped c) := inferInstanceAs (Decidable (_ ∨ _))

/-- `HEXDIG`. -/
def hexValue (c : Char) : Option Nat :=
  if 48 ≤ c.toNat ∧ c.toNat ≤ 57 then some (c.toNat - 48)
  else if 97 ≤ c.toNat ∧ c.toNat ≤ 102 then some (c.toNat - 87)
  else if 65 ≤ c.toNat ∧ c.toNat ≤ 70 then some (c.toNat - 55)
  else none

/-- The character of a number in hexadecimal, which must be a Unicode scalar value. -/
def scalar (digits : List Char) : Option Char :=
  (digits.foldlM (fun v c => (hexValue c).map (v * 16 + ·)) 0).bind fun v =>
    if v.isValidChar then some (Char.ofNat v) else none

/-- `escape-seq-char`, but for the two with digits. -/
def shortEscape (c : Char) : Option Char :=
  if c = '"' ∨ c = '\\' then some c
  else if c = 'b' then some (Char.ofNat 0x08)
  else if c = 'f' then some (Char.ofNat 0x0c)
  else if c = 'n' then some '\n'
  else if c = 'r' then some '\r'
  else if c = 't' then some '\t'
  else none

/-- `escaped`, behind the backslash. -/
def readEscape : List Char → Option (Char × List Char)
  | [] => none
  | c :: rest =>
      if c = 'u' then
        if 4 ≤ rest.length then (scalar (rest.take 4)).map (·, rest.drop 4) else none
      else if c = 'U' then
        if 8 ≤ rest.length then (scalar (rest.take 8)).map (·, rest.drop 8) else none
      else (shortEscape c).map (·, rest)

/-- `basic-char`. -/
def readChar : List Char → Option (Char × List Char)
  | [] => none
  | c :: rest =>
      if c = '\\' then readEscape rest
      else if Unescaped c then some (c, rest) else none

/-- The characters up to the closing quote. -/
def readBody : Nat → List Char → Option (List Char × List Char)
  | 0, _ => none
  | fuel + 1, cs =>
      if cs.head? = some '"' then some ([], cs.tail)
      else (readChar cs).bind fun (c, rest) =>
        (readBody fuel rest).map fun (v, rest) => (c :: v, rest)

/-- `basic-string`.  Three quotes open a string of another kind. -/
def readBasic (cs : List Char) : Option (List Char × List Char) :=
  if ['"', '"', '"'] <+: cs then none
  else if cs.head? = some '"' then readBody cs.length cs.tail
  else none

/-! ### What JSON writes -/

/-- The delete character. -/
def delete : Char := Char.ofNat 0x7f

/-- How a JSON encoder writes a character: a backslash and a letter, a number of four digits, or
the character, which TOML allows there unless it is the delete character. -/
inductive Written (c : Char) : List Char → Prop where
  | short {e : Char} (h : shortEscape e = some c) (hu : e ≠ 'u') (hU : e ≠ 'U') (hd : c ≠ delete) :
      Written c ['\\', e]
  | digits {ds : List Char} (hlen : ds.length = 4) (h : scalar ds = some c) (hd : c ≠ delete) :
      Written c ('\\' :: 'u' :: ds)
  | plain (hquote : c ≠ '"') (hslash : c ≠ '\\') (h : Unescaped c ↔ c ≠ delete) : Written c [c]

theorem scalar_control : ∀ n < 0x20,
    scalar ['0', '0', Nat.digitChar (n / 16), Nat.digitChar (n % 16)] = some (Char.ofNat n) ∧
      Char.ofNat n ≠ delete := by
  decide

theorem written_escape (c : Char) : Written c (JSON.escape c) := by
  have hchar : ∀ {n : Nat}, c.toNat = n → Char.ofNat n = c := fun h => by rw [← h, Char.ofNat_toNat]
  unfold JSON.escape
  split_ifs with hquote hb hf hn hr ht hcontrol hsep
  · rcases hquote with rfl | rfl
    · exact .short (by decide) (by decide) (by decide) (by decide)
    · exact .short (by decide) (by decide) (by decide) (by decide)
  · rw [← hchar hb]
    exact .short (by decide) (by decide) (by decide) (by decide)
  · rw [← hchar hf]
    exact .short (by decide) (by decide) (by decide) (by decide)
  · subst hn
    exact .short (by decide) (by decide) (by decide) (by decide)
  · subst hr
    exact .short (by decide) (by decide) (by decide) (by decide)
  · subst ht
    exact .short (by decide) (by decide) (by decide) (by decide)
  · obtain ⟨hscalar, hdel⟩ := scalar_control c.toNat hcontrol
    rw [Char.ofNat_toNat] at hscalar hdel
    exact .digits rfl hscalar hdel
  · rcases hsep with h | h
    · rw [← hchar h]
      exact .digits (by decide) (by decide) (by decide)
    · rw [← hchar h]
      exact .digits (by decide) (by decide) (by decide)
  · obtain ⟨hq, hs⟩ := not_or.1 hquote
    refine .plain hq hs ⟨?_, fun hdel => ?_⟩
    · rintro (htab | ⟨-, -, -, h⟩) hdel
      · exact ht htab
      · rw [hdel] at h
        exact h (by decide)
    · refine .inr ⟨Nat.not_lt.1 hcontrol, hq, hs, fun h => hdel ?_⟩
      exact (hchar h).symm

theorem Written.head {c : Char} {w : List Char} (h : Written c w) (rest : List Char) :
    (w ++ rest).head? ≠ some '"' := by
  cases h with
  | short => simp
  | digits => simp
  | plain hquote => simpa using hquote

/-- **One character of a JSON string in TOML.** -/
theorem Written.readChar {c : Char} {w : List Char} (h : Written c w) (rest : List Char) :
    readChar (w ++ rest) = if c = delete then none else some (c, rest) := by
  cases h with
  | @short e h hu hU hd =>
      rw [if_neg hd]
      simp only [List.cons_append, List.nil_append, TOML.readChar, readEscape, hu, hU, h, if_true,
        if_false, Option.map_some]
  | @digits ds hlen h hd =>
      have hroom : 4 ≤ (ds ++ rest).length := by rw [List.length_append]; omega
      rw [if_neg hd]
      simp only [List.cons_append, TOML.readChar, readEscape, if_true, hroom,
        List.take_left' hlen, List.drop_left' hlen, h, Option.map_some]
  | plain hquote hslash h =>
      rw [List.cons_append, List.nil_append, TOML.readChar, if_neg hslash]
      by_cases hd : c = delete
      · rw [if_pos hd, if_neg (fun hu => h.1 hu hd)]
      · rw [if_neg hd, if_pos (h.2 hd)]

/-- **A JSON string in TOML**, with anything behind it: it is read as it was, or refused for a
delete character in it. -/
theorem readBody_escape (v rest : List Char) {fuel : Nat} (hfuel : v.length < fuel) :
    readBody fuel (v.flatMap JSON.escape ++ '"' :: rest) =
      if delete ∈ v then none else some (v, rest) := by
  induction v generalizing fuel with
  | nil =>
      obtain ⟨fuel, rfl⟩ := Nat.exists_eq_succ_of_ne_zero (by omega : fuel ≠ 0)
      simp [readBody]
  | cons c v ih =>
      obtain ⟨fuel, rfl⟩ := Nat.exists_eq_succ_of_ne_zero (by omega : fuel ≠ 0)
      have hw := written_escape c
      rw [List.flatMap_cons, List.append_assoc, readBody, if_neg (hw.head _), hw.readChar]
      by_cases hd : c = delete
      · simp [hd]
      · rw [if_neg hd, Option.bind_some]
        dsimp only
        rw [ih (Nat.lt_of_succ_lt_succ hfuel)]
        by_cases hv : delete ∈ v
        · simp [hv]
        · simp [hv, Ne.symm hd]

theorem length_le_escape (v : List Char) : v.length ≤ (v.flatMap JSON.escape).length := by
  induction v with
  | nil => exact Nat.le_refl _
  | cons c v ih =>
      have hpos : 0 < (JSON.escape c).length := by
        cases h : JSON.escape c with
        | nil => exact absurd (h ▸ written_escape c) nofun
        | cons => exact Nat.succ_pos _
      rw [List.flatMap_cons, List.length_append, List.length_cons]
      omega

theorem readBasic_encodeString (v rest : List Char) (hrest : rest.head? ≠ some '"') :
    readBasic (JSON.encodeString v ++ rest) = if delete ∈ v then none else some (v, rest) := by
  have htext : JSON.encodeString v ++ rest = '"' :: (v.flatMap JSON.escape ++ '"' :: rest) := by
    simp [JSON.encodeString]
  -- three quotes would need one at the start of a character's text or of the rest
  have hthree : ¬ ['"', '"', '"'] <+: '"' :: (v.flatMap JSON.escape ++ '"' :: rest) := by
    rintro ⟨t, ht⟩
    have htail := congrArg List.tail ht
    cases v with
    | nil => exact hrest (congrArg (fun l => l.tail.head?) htail).symm
    | cons c v =>
        refine (written_escape c).head (v.flatMap JSON.escape ++ '"' :: rest) ?_
        rw [← List.append_assoc, ← List.flatMap_cons]
        exact (congrArg List.head? htail).symm
  have hlen := length_le_escape v
  rw [htext, readBasic, if_neg hthree, if_pos (by rfl), List.tail_cons]
  exact readBody_escape v rest (by simp only [List.length_cons, List.length_append]; omega)

/-! ## Files -/

/-- A character of a bare key. -/
def keyChar (c : Char) : Bool := c.isAlphanum || c == '_' || c == '-'

/-- A character of a number or a boolean. -/
def bareChar (c : Char) : Bool := c.isAlphanum || c == '+' || c == '-' || c == '.' || c == '_'

/-- `non-eol`. -/
def commentChar (c : Char) : Bool := c == '\t' || (0x20 ≤ c.toNat && c.toNat != 0x7f)

/-- A value: a string, or a number or boolean as it is written. -/
inductive Scalar where
  | string (v : List Char)
  | bare (text : List Char)
  deriving DecidableEq

/-- A line of a file. -/
inductive Line where
  | blank
  | comment (text : List Char)
  | table (name : List Char)
  | setting (key : List Char) (value : Scalar)
  deriving DecidableEq

/-- A value and nothing behind it. -/
def readScalar (cs : List Char) : Option Scalar :=
  if cs.head? = some '"' then
    match readBasic cs with
    | some (v, []) => some (.string v)
    | _ => none
  else if cs ≠ [] ∧ cs.all bareChar then some (.bare cs)
  else none

/-- `keyval`, with one blank on either side of the sign. -/
def readSetting (cs : List Char) : Option Line :=
  if cs.takeWhile keyChar = [] then none
  else
    match cs.dropWhile keyChar with
    | ' ' :: '=' :: ' ' :: rest => (readScalar rest).map (.setting (cs.takeWhile keyChar))
    | _ => none

/-- `expression`. -/
def readLine (cs : List Char) : Option Line :=
  match cs with
  | [] => some .blank
  | c :: rest =>
      if c = '#' then if rest.all commentChar then some (.comment rest) else none
      else if c = '[' then
        if rest.takeWhile keyChar ≠ [] ∧ rest.dropWhile keyChar = [']'] then
          some (.table (rest.takeWhile keyChar))
        else none
      else readSetting cs

/-- The lines of a file.  No line end is inside a basic string, so the file can be cut at them
first. -/
def readFile (cs : List Char) : Option (List Line) := (cs.splitOn '\n').mapM readLine

/-- A line as it is written, with strings as JSON writes them. -/
def Line.write : Line → List Char
  | .blank => []
  | .comment text => '#' :: text
  | .table name => '[' :: name ++ [']']
  | .setting key (.string v) => key ++ ' ' :: '=' :: ' ' :: JSON.encodeString v
  | .setting key (.bare text) => key ++ ' ' :: '=' :: ' ' :: text

/-- The file of some lines. -/
def writeFile (lines : List Line) : List Char := ['\n'].intercalate (lines.map Line.write)

/-- What a line's own text may be.  Of a string nothing is asked. -/
def Line.Proper : Line → Prop
  | .blank => True
  | .comment text => text.all commentChar = true
  | .table name => name ≠ [] ∧ name.all keyChar = true
  | .setting key value => key ≠ [] ∧ key.all keyChar = true ∧
      match value with
      | .string _ => True
      | .bare text => text ≠ [] ∧ text.all bareChar = true

instance (l : Line) : Decidable l.Proper :=
  match l with
  | .blank => inferInstanceAs (Decidable True)
  | .comment _ => inferInstanceAs (Decidable (_ = true))
  | .table _ => inferInstanceAs (Decidable (_ ∧ _))
  | .setting _ (.string _) => inferInstanceAs (Decidable (_ ∧ _ ∧ True))
  | .setting _ (.bare _) => inferInstanceAs (Decidable (_ ∧ _ ∧ _ ∧ _))

/-- The line has a delete character in its string. -/
def Line.HasDelete : Line → Prop
  | .setting _ (.string v) => delete ∈ v
  | _ => False

instance (l : Line) : Decidable l.HasDelete :=
  match l with
  | .setting _ (.string v) => inferInstanceAs (Decidable (delete ∈ v))
  | .setting _ (.bare _) => inferInstanceAs (Decidable False)
  | .blank => inferInstanceAs (Decidable False)
  | .comment _ => inferInstanceAs (Decidable False)
  | .table _ => inferInstanceAs (Decidable False)

/-- A run of characters ends where one is not of the kind. -/
theorem takeWhile_run {p : Char → Bool} {run : List Char} {c : Char} (rest : List Char)
    (hrun : run.all p = true) (hc : p c = false) :
    (run ++ c :: rest).takeWhile p = run ∧ (run ++ c :: rest).dropWhile p = c :: rest := by
  have hall := List.all_eq_true.1 hrun
  constructor
  · rw [List.takeWhile_append_of_pos hall, List.takeWhile_cons_of_neg (by simp [hc]), List.append_nil]
  · rw [List.dropWhile_append_of_pos hall, List.dropWhile_cons_of_neg (by simp [hc])]

theorem readScalar_string (v : List Char) : readScalar (JSON.encodeString v) =
    if delete ∈ v then none else some (.string v) := by
  have hread := readBasic_encodeString v [] (by simp)
  rw [List.append_nil] at hread
  rw [readScalar, if_pos (by rfl), hread]
  by_cases hd : delete ∈ v
  · rw [if_pos hd, if_pos hd]
  · rw [if_neg hd, if_neg hd]

theorem readScalar_bare {text : List Char} (hne : text ≠ []) (hall : text.all bareChar = true) :
    readScalar text = some (.bare text) := by
  have hquote : text.head? ≠ some '"' := by
    intro hhead
    have hbare := List.all_eq_true.1 hall _ (List.mem_of_mem_head? hhead)
    exact absurd hbare (by decide)
  rw [readScalar, if_neg hquote, if_pos ⟨hne, hall⟩]

theorem readSetting_write {key : List Char} (text : List Char) (hne : key ≠ [])
    (hall : key.all keyChar = true) :
    readSetting (key ++ ' ' :: '=' :: ' ' :: text) = (readScalar text).map (.setting key) := by
  obtain ⟨htake, hdrop⟩ := takeWhile_run (c := ' ') ('=' :: ' ' :: text) hall (by decide)
  rw [readSetting, htake, hdrop, if_neg hne]
  rfl

/-- A key's first character opens neither a comment nor a table. -/
theorem readLine_setting {key : List Char} (text : List Char) (hne : key ≠ [])
    (hall : key.all keyChar = true) :
    readLine (key ++ ' ' :: '=' :: ' ' :: text) = (readScalar text).map (.setting key) := by
  rw [← readSetting_write text hne hall]
  cases key with
  | nil => exact absurd rfl hne
  | cons c key =>
      have hc : keyChar c = true := List.all_eq_true.1 hall c List.mem_cons_self
      have hhash : c ≠ '#' := by rintro rfl; exact absurd hc (by decide)
      have hopen : c ≠ '[' := by rintro rfl; exact absurd hc (by decide)
      rw [List.cons_append, readLine, if_neg hhash, if_neg hopen]

/-- **A line reads back**, unless its string has a delete character. -/
theorem readLine_write {l : Line} (h : l.Proper) :
    readLine l.write = if l.HasDelete then none else some l := by
  cases l with
  | blank => rfl
  | comment text =>
      rw [Line.write, readLine, if_pos rfl, if_pos (show text.all commentChar = true from h)]
      rfl
  | table name =>
      obtain ⟨htake, hdrop⟩ := takeWhile_run (c := ']') [] h.2 (by decide)
      rw [Line.write, List.cons_append, readLine, if_neg (by decide), if_pos rfl, htake, hdrop,
        if_pos ⟨h.1, rfl⟩]
      rfl
  | setting key value =>
      cases value with
      | string v =>
          rw [Line.write, readLine_setting _ h.1 h.2.1, readScalar_string]
          by_cases hd : delete ∈ v
          · rw [if_pos hd, if_pos (show Line.HasDelete (.setting key (.string v)) from hd)]
            rfl
          · rw [if_neg hd, if_neg (show ¬ Line.HasDelete (.setting key (.string v)) from hd)]
            rfl
      | bare text =>
          rw [Line.write, readLine_setting _ h.1 h.2.1, readScalar_bare h.2.2.1 h.2.2.2]
          rfl

/-! ### Cutting a file into lines -/

theorem newline_notMem_escape (c : Char) : '\n' ∉ JSON.escape c := by
  have hdigit : ∀ n < 16, '\n' ≠ Nat.digitChar n := by decide
  unfold JSON.escape
  split_ifs with hquote hb hf hn hr ht hcontrol hsep
  · rcases hquote with rfl | rfl
    · decide
    · decide
  · decide
  · decide
  · decide
  · decide
  · decide
  · simp [hdigit (c.toNat / 16) (by omega), hdigit (c.toNat % 16) (by omega)]
  · simp [hdigit (c.toNat % 16) (by omega)]
  · simpa using Ne.symm hn

theorem newline_notMem_of_all {p : Char → Bool} {l : List Char} (h : l.all p = true)
    (hp : p '\n' = false) : '\n' ∉ l := fun hmem => by
  have := List.all_eq_true.1 h _ hmem
  rw [hp] at this
  cases this

/-- No line end is written inside a line. -/
theorem newline_notMem_write {l : Line} (h : l.Proper) : '\n' ∉ l.write := by
  cases l with
  | blank => exact List.not_mem_nil
  | comment text =>
      have := newline_notMem_of_all h (by decide)
      simp [Line.write, this]
  | table name =>
      have := newline_notMem_of_all h.2 (by decide)
      simp [Line.write, this]
  | setting key value =>
      have hkey := newline_notMem_of_all h.2.1 (by decide)
      cases value with
      | string v =>
          have hv : ∀ c ∈ v, '\n' ∉ JSON.escape c := fun c _ => newline_notMem_escape c
          simp only [Line.write, JSON.encodeString, List.mem_append, List.mem_cons,
            List.mem_flatMap]
          simpa [hkey] using hv
      | bare text =>
          have := newline_notMem_of_all h.2.2.2 (by decide)
          simp [Line.write, hkey, this]

theorem mapM_readLine {lines : List Line} (h : ∀ l ∈ lines, l.Proper) :
    (lines.map Line.write).mapM readLine =
      if ∃ l ∈ lines, l.HasDelete then none else some lines := by
  induction lines with
  | nil => simp
  | cons l lines ih =>
      rw [List.map_cons, List.mapM_cons, readLine_write (h l List.mem_cons_self),
        ih fun x hx => h x (List.mem_cons_of_mem _ hx)]
      by_cases hl : l.HasDelete
      · simp [hl]
      · by_cases hlines : ∃ x ∈ lines, x.HasDelete
        · simp [hl, hlines]
        · simp [hl, hlines]

/-- **A file reads back line by line**: the same keys in the same tables with the same values.
It is refused exactly when one of its strings has a delete character. -/
theorem readFile_writeFile {lines : List Line} (hne : lines ≠ []) (h : ∀ l ∈ lines, l.Proper) :
    readFile (writeFile lines) = if ∃ l ∈ lines, l.HasDelete then none else some lines := by
  have hlines : ∀ t ∈ lines.map Line.write, '\n' ∉ t := by
    intro t ht
    obtain ⟨l, hl, rfl⟩ := List.mem_map.1 ht
    exact newline_notMem_write (h l hl)
  rw [readFile, writeFile, List.splitOn_intercalate _ hlines (by simpa using hne), mapM_readLine h]

/-! ## Settings -/

/-- The settings of a file, each under the table it stands in. -/
def settings (table : List Char) : List Line → List ((List Char × List Char) × Scalar)
  | [] => []
  | .table name :: rest => settings name rest
  | .setting key value :: rest => ((table, key), value) :: settings table rest
  | .blank :: rest => settings table rest
  | .comment _ :: rest => settings table rest

end TOML
