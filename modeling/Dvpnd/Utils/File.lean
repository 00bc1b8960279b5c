import Dvpnd.Lib.TOML

/-!
# Values in configuration files

`utils/file.go` writes every string of a configuration file with the JSON encoder, on the
ground that a JSON string is a TOML one.  **That holds but for one character**: JSON lets
U+007F stand as it is, and TOML does not.

* `tomlString` — `TOMLString`; `configFile` — a file out of `ConfigTemplate`.
* `tomlString_reads_back` — a value without U+007F is one value and reads back, in a file as
  by itself, and one with it is refused.
* `delete_breaks_file` — a moniker that leaves a file nothing can read.
-/

namespace Dvpnd

open TOML

/-- `TOMLString`: the encoder ends its output with a line end. -/
def tomlString (v : List Char) : List Char :=
  (JSON.encodeString v ++ ['\n']).rdropWhile (· = '\n')

/-- A line of a template, with its value put in. -/
def configLine : TOML.Line → List Char
  | .blank => []
  | .comment text => '#' :: text
  | .table name => '[' :: name ++ [']']
  | .setting key (.string v) => key ++ " = ".toList ++ tomlString v
  | .setting key (.bare text) => key ++ " = ".toList ++ text

/-- The file `ConfigTemplate` gives. -/
def configFile (lines : List TOML.Line) : List Char := ['\n'].intercalate (lines.map configLine)

/-- Only the encoder's own line end is cut off. -/
theorem tomlString_eq (v : List Char) : tomlString v = JSON.encodeString v := by
  have hquote : JSON.encodeString v = ('"' :: v.flatMap JSON.escape) ++ ['"'] := rfl
  rw [tomlString, List.rdropWhile_concat_pos _ _ _ (by decide), hquote,
    List.rdropWhile_concat_neg _ _ _ (by decide)]

theorem configLine_eq (l : TOML.Line) : configLine l = l.write := by
  cases l with
  | blank => rfl
  | comment text => rfl
  | table name => rfl
  | setting key value =>
      cases value with
      | string v => simp [configLine, TOML.Line.write, tomlString_eq]
      | bare text => simp [configLine, TOML.Line.write]

theorem configFile_eq (lines : List TOML.Line) : configFile lines = writeFile lines := by
  rw [configFile, writeFile, List.map_congr_left fun l _ => configLine_eq l]

/-- **A value reads back exactly when it has no U+007F**: by itself, with anything behind it
that does not open a quote, and in a file, where every line reads back if no value has that
character and the file is refused if one has. -/
theorem tomlString_reads_back (v : List Char) (lines : List TOML.Line) :
    readBasic (tomlString v) = (if delete ∈ v then none else some (v, [])) ∧
    (∀ rest, rest.head? ≠ some '"' →
      readBasic (tomlString v ++ rest) = if delete ∈ v then none else some (v, rest)) ∧
    (lines ≠ [] → (∀ l ∈ lines, l.Proper) →
      readFile (configFile lines) = if ∃ l ∈ lines, l.HasDelete then none else some lines) := by
  refine ⟨?_, fun rest hrest => ?_, fun hne h => ?_⟩
  · have hread := readBasic_encodeString v [] (by simp)
    rwa [List.append_nil, ← tomlString_eq] at hread
  · rw [tomlString_eq]
    exact readBasic_encodeString v rest hrest
  · rw [configFile_eq]
    exact readFile_writeFile hne h

/-- A value with a quote, a line end and a section in it. -/
theorem tomlString_reads_back_injected :
    readFile (configFile [.table "node".toList,
      .setting "moniker".toList (.string "a\"\n[chain]\nid = \"b".toList),
      .setting "peers".toList (.bare "250".toList)]) =
    some [.table "node".toList,
      .setting "moniker".toList (.string "a\"\n[chain]\nid = \"b".toList),
      .setting "peers".toList (.bare "250".toList)] := by
  have h := (tomlString_reads_back [] [.table "node".toList,
      .setting "moniker".toList (.string "a\"\n[chain]\nid = \"b".toList),
      .setting "peers".toList (.bare "250".toList)]).2.2 (by simp) (by decide)
  rwa [if_neg (by decide)] at h

/-- **A moniker with U+007F leaves a file nothing can read.** -/
theorem delete_breaks_file :
    tomlString ['n', 'o', 'd', 'e', delete] = ['"', 'n', 'o', 'd', 'e', delete, '"'] ∧
    readBasic (tomlString ['n', 'o', 'd', 'e', delete]) = none ∧
    readFile (configFile [.setting "moniker".toList (.string ['n', 'o', 'd', 'e', delete])]) =
      none := by
  decide

end Dvpnd
