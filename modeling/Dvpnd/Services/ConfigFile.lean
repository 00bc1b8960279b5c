import Dvpnd.Utils.File

/-!
# The configuration commands

Every protocol has a configuration file of its own and the commands `config init`, `config show`
and `config set` for it (`services/common/configcli.go`).  The file is text: each command
reads it, changes a value and writes all of it again from a template.  **It behaves as a
record of settings**, as long as no value has the one character that cannot be read back.

* `Kind`, `Value`, `Template` — the fields of a configuration and the template of its file;
  `Settings` — a configuration, whose values fit the template.
* `Viper` — what is asked of the library that decodes a file's settings.
* `save`, `readInConfig`, `configSet` — the file of a configuration, and back.
* `readInConfig_save` — a file that was saved reads back, whatever the defaults are.
* `configCommands_refine` — **any run of the commands has the effects and results it has on the
  record**: what is set is read, and nothing else changes.
* `wireguardTemplate` … `hysteriaTemplate` — the templates of the six protocols.
-/

namespace Dvpnd

open TOML

/-! ## Templates -/

/-- The types of fields.  A number of the file has 64 bits with its sign, and those of the fields
have fewer. -/
inductive Kind
  | text
  | uint (bits : Fin 64)
  | bool
  deriving DecidableEq

/-- A value of a field. -/
inductive Value
  | text (v : List Char)
  | uint (n : Nat)
  | bool (b : Bool)
  deriving DecidableEq

/-- The value is one of the type. -/
def Value.Fits : Kind → Value → Prop
  | .text, .text _ => True
  | .uint bits, .uint n => n < 2 ^ bits.val
  | .bool, .bool _ => True
  | _, _ => False

/-- How a template writes a value. -/
def Value.scalar : Value → Scalar
  | .text v => .string v
  | .uint n => .bare (Nat.toDigits 10 n)
  | .bool true => .bare "true".toList
  | .bool false => .bare "false".toList

/-- A line of a template. -/
inductive TemplateLine
  | blank
  | comment (text : String)
  | table (name : String)
  | field (key : String) (kind : Kind)

/-- Lines that can be read: a comment has no control characters in it, and a table and a field
have names. -/
inductive ProperLines : List TemplateLine → Prop
  | nil : ProperLines []
  | blank {rest} : ProperLines rest → ProperLines (.blank :: rest)
  | comment {text rest} : text.all commentChar = true → ProperLines rest →
      ProperLines (.comment (String.ofList text) :: rest)
  | table {c name rest} : (c :: name).all keyChar = true → ProperLines rest →
      ProperLines (.table (String.ofList (c :: name)) :: rest)
  | field {c key kind rest} : (c :: key).all keyChar = true → ProperLines rest →
      ProperLines (.field (String.ofList (c :: key)) kind :: rest)

/-- A field: its table, its key and its type. -/
abbrev Field := (List Char × List Char) × Kind

/-- The fields of some lines, each with the table it stands in. -/
def fieldsOf (table : List Char) : List TemplateLine → List Field
  | [] => []
  | .table name :: rest => fieldsOf name.toList rest
  | .field key kind :: rest => ((table, key.toList), kind) :: fieldsOf table rest
  | .blank :: rest => fieldsOf table rest
  | .comment _ :: rest => fieldsOf table rest

/-- The template of a file. -/
structure Template where
  lines : List TemplateLine
  nonempty : lines ≠ []
  proper : ProperLines lines
  distinct : ((fieldsOf [] lines).map Prod.fst).Nodup

/-- The fields of the configuration. -/
def Template.fields (T : Template) : List Field := fieldsOf [] T.lines

/-- A configuration. -/
@[ext]
structure Settings (T : Template) where
  values : List Value
  fits : List.Forall₂ (fun f v => Value.Fits f.2 v) T.fields values

/-- The lines of the file, with the values put in one after the other. -/
def render : List TemplateLine → List Value → List TOML.Line
  | .field key _ :: rest, v :: vs => .setting key.toList v.scalar :: render rest vs
  | .field _ _ :: rest, [] => render rest []
  | .table name :: rest, vs => .table name.toList :: render rest vs
  | .blank :: rest, vs => .blank :: render rest vs
  | .comment text :: rest, vs => .comment text.toList :: render rest vs
  | [], _ => []

/-- What `SaveToPath` writes and `String` returns. -/
def save {T : Template} (c : Settings T) : List Char := configFile (render T.lines c.values)

/-! ## Reading -/

/-- A setting of a file: its table, its key and its value. -/
abbrev Entry := (List Char × List Char) × Scalar

/-- What `viper` makes of a file's settings.  A value is decoded for the type of its field, if it
can be; the laws leave open what becomes of one that is written in another way than the templates
write it, as a number in quotes. -/
structure Viper where
  decode : Kind → Scalar → Option Value
  /-- `Unmarshal`, into the fields with the values they have. -/
  unmarshal : List Entry → List Field → List Value → Option (List Value)
  /-- What is decoded is of the type. -/
  decode_fits : ∀ {kind s v}, decode kind s = some v → Value.Fits kind v
  /-- What a template has written is decoded as it was. -/
  decode_scalar : ∀ {kind v}, Value.Fits kind v → decode kind v.scalar = some v
  unmarshal_nil : ∀ entries vs, unmarshal entries [] vs = some []
  /-- A field takes its setting, or keeps its value when it has none; one that cannot be decoded
  is an error of the whole. -/
  unmarshal_cons : ∀ entries f fs v vs, unmarshal entries (f :: fs) (v :: vs) =
    ((entries.lookup f.1).elim (some v) (decode f.2)).bind fun v' =>
      (unmarshal entries fs vs).map (v' :: ·)

section Unmarshal

variable {k : Viper} {entries : List Entry} {fs : List Field} {vs vs' : List Value}

/-- What a field is read as. -/
theorem Viper.field_fits {f : Field} {v v' : Value} (hv : v.Fits f.2)
    (h : (entries.lookup f.1).elim (some v) (k.decode f.2) = some v') : v'.Fits f.2 := by
  cases hlookup : entries.lookup f.1 with
  | none =>
      rw [hlookup] at h
      cases h
      exact hv
  | some s =>
      rw [hlookup] at h
      exact k.decode_fits h

theorem Viper.unmarshal_fits (h : List.Forall₂ (fun f v => Value.Fits f.2 v) fs vs)
    (hread : k.unmarshal entries fs vs = some vs') :
    List.Forall₂ (fun f v => Value.Fits f.2 v) fs vs' := by
  induction h generalizing vs' with
  | nil =>
      rw [k.unmarshal_nil] at hread
      cases hread
      exact .nil
  | cons hv _ ih =>
      rw [k.unmarshal_cons] at hread
      obtain ⟨v', hv', hrest⟩ := Option.bind_eq_some_iff.1 hread
      obtain ⟨tail, htail, rfl⟩ := Option.map_eq_some_iff.1 hrest
      exact .cons (Viper.field_fits hv hv') (ih htail)

end Unmarshal

variable {T : Template}

/-- A configuration with other values. -/
def Settings.unmarshal (k : Viper) (c : Settings T) (entries : List Entry) : Option (Settings T) :=
  (k.unmarshal entries T.fields c.values).attach.map fun vs =>
    ⟨vs.1, Viper.unmarshal_fits c.fits vs.2⟩

theorem Settings.values_unmarshal (k : Viper) (c : Settings T) (entries : List Entry) :
    (c.unmarshal k entries).map Settings.values = k.unmarshal entries T.fields c.values := by
  rw [Settings.unmarshal, Option.map_map]
  exact Option.attach_map_subtype_val _

/-- The settings of a file. -/
def readEntries (file : List Char) : Option (List Entry) :=
  (readFile file).map (settings [])

/-- `ReadInConfig`, from the defaults. -/
def readInConfig (k : Viper) (defaults : Settings T) (file : List Char) : Option (Settings T) :=
  (readEntries file).bind fun entries => defaults.unmarshal k entries

/-- What `config set` makes of a file: the value is set above those of the file. -/
def configSet (k : Viper) (defaults : Settings T) (i : Fin T.fields.length)
    (value file : List Char) : Option (Settings T) :=
  (readEntries file).bind fun entries =>
    (defaults.unmarshal k entries).bind fun c =>
      c.unmarshal k (((T.fields.get i).1, .string value) :: entries)

/-! ## What was saved reads back -/

/-- The settings of a rendered file. -/
theorem settings_render (table : List Char) (lines : List TemplateLine) (vs : List Value)
    (h : (fieldsOf table lines).length = vs.length) :
    settings table (render lines vs) =
      List.zipWith (fun f v => (f.1, v.scalar)) (fieldsOf table lines) vs := by
  induction lines generalizing table vs with
  | nil => rfl
  | cons l lines ih =>
      cases l with
      | blank => exact ih table vs h
      | comment text => exact ih table vs h
      | table name => exact ih name.toList vs h
      | field key kind =>
          cases vs with
          | nil => cases h
          | cons v vs => exact congrArg (_ :: ·) (ih table vs (Nat.succ.inj h))

section Entries

variable {k : Viper} {entries : List Entry} {fs : List Field} {vs ds : List Value}

/-- The settings have a value for each field, which is decoded as it was. -/
def Carries (k : Viper) (entries : List Entry) : List Field → List Value → Prop :=
  List.Forall₂ fun f v => ∃ s, entries.lookup f.1 = some s ∧ k.decode f.2 s = some v

theorem Carries.unmarshal (h : Carries k entries fs vs) (hlen : fs.length = ds.length) :
    k.unmarshal entries fs ds = some vs := by
  induction h generalizing ds with
  | nil => exact k.unmarshal_nil _ _
  | cons hv _ ih =>
      cases ds with
      | nil => cases hlen
      | cons d ds =>
          obtain ⟨s, hs, hdecode⟩ := hv
          rw [k.unmarshal_cons, hs, Option.elim_some, hdecode, Option.bind_some,
            ih (Nat.succ.inj hlen)]
          rfl

theorem lookup_cons_of_ne {key key' : List Char × List Char} (s : Scalar) (h : key' ≠ key) :
    List.lookup key' ((key, s) :: entries) = entries.lookup key' := by
  rw [List.lookup_cons, beq_eq_false_iff_ne.2 h]

/-- A setting for another field does not matter. -/
theorem Carries.push (h : Carries k entries fs vs) {key : List Char × List Char} (s : Scalar)
    (hkey : key ∉ fs.map Prod.fst) : Carries k ((key, s) :: entries) fs vs := by
  induction h with
  | nil => exact .nil
  | @cons f v fs vs hv _ ih =>
      obtain ⟨hne, hrest⟩ := not_or.1 (mt List.mem_cons.2 hkey)
      refine List.Forall₂.cons ?_ (ih hrest)
      rw [lookup_cons_of_ne s fun heq => hne heq.symm]
      exact hv

/-- The settings of a file that was saved. -/
theorem carries_zipWith (hfits : List.Forall₂ (fun f v => Value.Fits f.2 v) fs vs)
    (hnodup : (fs.map Prod.fst).Nodup) :
    Carries k (List.zipWith (fun f v => (f.1, v.scalar)) fs vs) fs vs := by
  induction hfits with
  | nil => exact .nil
  | @cons f v fs vs hv _ ih =>
      obtain ⟨hnew, hnodup⟩ := List.nodup_cons.1 hnodup
      refine List.Forall₂.cons ⟨v.scalar, ?_, ?_⟩ ?_
      · rw [List.zipWith_cons_cons, List.lookup_cons_self]
      · exact k.decode_scalar hv
      · exact (ih hnodup).push v.scalar hnew

/-- A value set above the others is the only one that changes. -/
theorem Carries.set (h : Carries k entries fs vs) (hnodup : (fs.map Prod.fst).Nodup)
    (i : Fin fs.length) (s : Scalar) :
    k.unmarshal (((fs.get i).1, s) :: entries) fs vs =
      (k.decode (fs.get i).2 s).map (vs.set i) := by
  induction h with
  | nil => exact i.elim0
  | @cons f v fs vs hv htail ih =>
      obtain ⟨hnew, hnodup⟩ := List.nodup_cons.1 hnodup
      rw [k.unmarshal_cons]
      cases i using Fin.cases with
      | zero =>
          -- the value is for the first field; the others are read as before
          have hrest : k.unmarshal ((f.1, s) :: entries) fs vs = some vs :=
            Carries.unmarshal (Carries.push htail s hnew) htail.length_eq
          show ((List.lookup f.1 ((f.1, s) :: entries)).elim (some v) (k.decode f.2)).bind
            (fun v' => (k.unmarshal ((f.1, s) :: entries) fs vs).map (v' :: ·)) = _
          rw [List.lookup_cons_self, hrest, Option.elim_some]
          show (k.decode f.2 s).bind _ = (k.decode f.2 s).map _
          cases k.decode f.2 s with
          | none => rfl
          | some v' => rfl
      | succ i =>
          have hne : (fs.get i).1 ≠ f.1 := fun heq =>
            hnew (heq ▸ List.mem_map_of_mem (List.get_mem fs i))
          have hhead : (List.lookup f.1 (((fs.get i).1, s) :: entries)).elim (some v)
              (k.decode f.2) = some v := by
            obtain ⟨s', hs', hdecode⟩ := hv
            rw [lookup_cons_of_ne s hne.symm, hs']
            exact hdecode
          show ((List.lookup f.1 (((fs.get i).1, s) :: entries)).elim (some v) (k.decode f.2)).bind
            (fun v' => (k.unmarshal (((fs.get i).1, s) :: entries) fs vs).map (v' :: ·)) = _
          rw [hhead, Option.bind_some, ih hnodup i]
          show _ = (k.decode (fs.get i).2 s).map _
          cases k.decode (fs.get i).2 s with
          | none => rfl
          | some v' => rfl

end Entries

theorem forall₂_set {fs : List Field} {vs : List Value}
    (h : List.Forall₂ (fun f v => Value.Fits f.2 v) fs vs) (i : Fin fs.length) {v : Value}
    (hv : v.Fits (fs.get i).2) : List.Forall₂ (fun f v => Value.Fits f.2 v) fs (vs.set i v) := by
  induction h with
  | nil => exact i.elim0
  | cons hw htail ih =>
      cases i using Fin.cases with
      | zero => exact .cons hv htail
      | succ i => exact .cons hw (ih i hv)

/-- The value can be read back. -/
def Value.Plain : Value → Prop
  | .text v => delete ∉ v
  | .uint _ => True
  | .bool _ => True

instance decidablePlain : (v : Value) → Decidable v.Plain
  | .text v => inferInstanceAs (Decidable (delete ∉ v))
  | .uint _ => inferInstanceAs (Decidable True)
  | .bool _ => inferInstanceAs (Decidable True)

theorem setting_proper {key : List Char} (hne : key ≠ []) (hall : key.all keyChar = true) (v : Value) :
    (TOML.Line.setting key v.scalar).Proper := by
  cases v with
  | text v => exact ⟨hne, hall, trivial⟩
  | uint n =>
      refine ⟨hne, hall, Nat.toDigits_ne_nil, List.all_eq_true.2 fun c hc => ?_⟩
      have hdigit : c.isDigit = true := Nat.isDigit_of_mem_toDigits (by decide) (by decide) hc
      simp [bareChar, Char.isAlphanum, hdigit]
  | bool b =>
      cases b with
      | true => exact ⟨hne, hall, by decide, by decide⟩
      | false => exact ⟨hne, hall, by decide, by decide⟩

theorem render_proper {lines : List TemplateLine} (h : ProperLines lines) (vs : List Value) :
    ∀ l ∈ render lines vs, l.Proper := by
  induction h generalizing vs with
  | nil => exact fun l hl => absurd hl List.not_mem_nil
  | blank _ ih => exact List.forall_mem_cons.2 ⟨trivial, ih vs⟩
  | @comment text _ htext _ ih =>
      refine List.forall_mem_cons.2 ⟨?_, ih vs⟩
      rw [String.toList_ofList]
      exact htext
  | @table c name _ hname _ ih =>
      refine List.forall_mem_cons.2 ⟨?_, ih vs⟩
      rw [String.toList_ofList]
      exact ⟨List.cons_ne_nil _ _, hname⟩
  | @field c key _ _ hkey _ ih =>
      cases vs with
      | nil => exact ih []
      | cons v vs =>
          refine List.forall_mem_cons.2 ⟨?_, ih vs⟩
          rw [String.toList_ofList]
          exact setting_proper (List.cons_ne_nil _ _) hkey v

theorem setting_plain {key : List Char} {v : Value} (h : v.Plain) :
    ¬ (TOML.Line.setting key v.scalar).HasDelete := by
  cases v with
  | text v => exact h
  | uint n => exact id
  | bool b =>
      cases b with
      | true => exact id
      | false => exact id

theorem render_plain (lines : List TemplateLine) {vs : List Value} (h : ∀ v ∈ vs, v.Plain) :
    ∀ l ∈ render lines vs, ¬ l.HasDelete := by
  induction lines generalizing vs with
  | nil => exact fun l hl => absurd hl List.not_mem_nil
  | cons l lines ih =>
      cases l with
      | blank => exact List.forall_mem_cons.2 ⟨id, ih h⟩
      | comment text => exact List.forall_mem_cons.2 ⟨id, ih h⟩
      | table name => exact List.forall_mem_cons.2 ⟨id, ih h⟩
      | field key kind =>
          cases vs with
          | nil => exact ih h
          | cons v vs =>
              obtain ⟨hv, hvs⟩ := List.forall_mem_cons.1 h
              exact List.forall_mem_cons.2 ⟨setting_plain hv, ih hvs⟩

theorem render_ne_nil {lines : List TemplateLine} {table : List Char} {vs : List Value}
    (hne : lines ≠ []) (hlen : (fieldsOf table lines).length = vs.length) : render lines vs ≠ [] := by
  cases lines with
  | nil => exact absurd rfl hne
  | cons l lines =>
      cases l with
      | blank => exact List.cons_ne_nil _ _
      | comment text => exact List.cons_ne_nil _ _
      | table name => exact List.cons_ne_nil _ _
      | field key kind =>
          cases vs with
          | nil => cases hlen
          | cons v vs => exact List.cons_ne_nil _ _

/-- All values can be read back. -/
def Settings.Plain (c : Settings T) : Prop := ∀ v ∈ c.values, v.Plain

theorem Settings.length_eq (c : Settings T) : T.fields.length = c.values.length := c.fits.length_eq

theorem readEntries_save {c : Settings T} (h : c.Plain) : readEntries (save c) =
    some (List.zipWith (fun f v => (f.1, v.scalar)) T.fields c.values) := by
  have hlines : readFile (save c) = some (render T.lines c.values) := by
    rw [save, configFile_eq, readFile_writeFile (render_ne_nil T.nonempty c.length_eq)
      (render_proper T.proper c.values), if_neg]
    rintro ⟨l, hl, hdelete⟩
    exact render_plain T.lines h l hl hdelete
  rw [readEntries, hlines, Option.map_some, settings_render [] T.lines c.values c.length_eq]
  rfl

theorem carries_save (k : Viper) (c : Settings T) : Carries k
    (List.zipWith (fun f v => (f.1, v.scalar)) T.fields c.values) T.fields c.values :=
  carries_zipWith c.fits T.distinct

theorem Settings.values_injective : Function.Injective (Settings.values (T := T)) :=
  fun _ _ h => Settings.ext h

/-- The settings of a saved file, over any configuration, give the one that was saved. -/
theorem unmarshal_save (k : Viper) (c d : Settings T) : d.unmarshal k
    (List.zipWith (fun f v => (f.1, v.scalar)) T.fields c.values) = some c := by
  apply Option.map_injective Settings.values_injective
  rw [Settings.values_unmarshal, (carries_save k c).unmarshal d.length_eq]
  rfl

/-- **A file that was saved reads back**, whatever the defaults. -/
theorem readInConfig_save (k : Viper) (defaults : Settings T) {c : Settings T} (h : c.Plain) :
    readInConfig k defaults (save c) = some c := by
  rw [readInConfig, readEntries_save h, Option.bind_some, unmarshal_save]

/-! ## The record -/

/-- The configuration with one setting changed to what the decoder makes of a text. -/
def Settings.set (k : Viper) (c : Settings T) (i : Fin T.fields.length) (value : List Char) :
    Option (Settings T) :=
  (k.decode (T.fields.get i).2 (.string value)).attach.map fun v =>
    ⟨c.values.set i v.1, forall₂_set c.fits i (k.decode_fits v.2)⟩

theorem configSet_save (k : Viper) (defaults : Settings T) {c : Settings T} (h : c.Plain)
    (i : Fin T.fields.length) (value : List Char) :
    configSet k defaults i value (save c) = c.set k i value := by
  rw [configSet, readEntries_save h, Option.bind_some, unmarshal_save, Option.bind_some]
  apply Option.map_injective Settings.values_injective
  rw [Settings.values_unmarshal, (carries_save k c).set T.distinct i, Settings.set, Option.map_map]
  conv_lhs => rw [← Option.attach_map_subtype_val (k.decode _ _), Option.map_map]
  rfl

theorem Settings.set_plain {k : Viper} {c c' : Settings T} {i : Fin T.fields.length}
    {value : List Char} (h : c.Plain) (hvalue : delete ∉ value) (hset : c.set k i value = some c') :
    c'.Plain := by
  obtain ⟨⟨v, hv⟩, -, rfl⟩ := Option.map_eq_some_iff.1 hset
  intro x hx
  rcases List.mem_or_eq_of_mem_set hx with hx | rfl
  · exact h x hx
  · -- only a text field can hold the text itself
    have hfits := k.decode_fits hv
    cases x with
    | uint n => trivial
    | bool b => trivial
    | text v =>
        cases hkind : (T.fields.get i).2 with
        | text =>
            have hsame : k.decode .text (.string value) = some (.text value) :=
              k.decode_scalar (v := .text value) trivial
            rw [hkind, hsame] at hv
            cases hv
            exact hvalue
        | uint bits =>
            rw [hkind] at hfits
            cases hfits
        | bool =>
            rw [hkind] at hfits
            cases hfits

/-! ## Commands -/

/-- A command.  `fresh` and `defaults` are what `WithDefaultValues` draws. -/
inductive ConfigCommand (T : Template)
  | init (force : Bool) (fresh : Settings T)
  | view (defaults : Settings T)
  | set (defaults : Settings T) (i : Fin T.fields.length) (value : List Char)

/-- The command brings in no value that cannot be read back. -/
def ConfigCommand.Plain : ConfigCommand T → Prop
  | .init _ fresh => fresh.Plain
  | .view _ => True
  | .set _ _ value => delete ∉ value

/-- What `config init`, `config show` and `config set` print, or nothing when they fail, and the
file they leave. -/
def ConfigCommand.run (k : Viper) (file : Option (List Char)) :
    ConfigCommand T → Option (List Char) × Option (List Char)
  | .init force fresh =>
      if file.isSome ∧ force = false then (none, file) else (some [], some (save fresh))
  | .view defaults =>
      (((file.bind (readInConfig k defaults)).map save), file)
  | .set defaults i value =>
      match file.bind (configSet k defaults i value) with
      | none => (none, file)
      | some c => (some [], some (save c))

/-- The same on a record of settings. -/
def ConfigCommand.onRecord (k : Viper) (record : Option (Settings T)) :
    ConfigCommand T → Option (List Char) × Option (Settings T)
  | .init force fresh =>
      if record.isSome ∧ force = false then (none, record) else (some [], some fresh)
  | .view _ => (record.map save, record)
  | .set _ i value =>
      match record.bind (fun c => c.set k i value) with
      | none => (none, record)
      | some c => (some [], some c)

/-- The commands one after the other, with what they print. -/
def runCommands {σ : Type} (run : σ → ConfigCommand T → Option (List Char) × σ) (s : σ) :
    List (ConfigCommand T) → List (Option (List Char)) × σ
  | [] => ([], s)
  | c :: cs =>
      let next := run s c
      let rest := runCommands run next.2 cs
      (next.1 :: rest.1, rest.2)

/-- **One command** does to the file what it does to the record. -/
theorem ConfigCommand.run_refines (k : Viper) {record : Option (Settings T)}
    (h : ∀ c, record = some c → c.Plain) {cmd : ConfigCommand T} (hcmd : cmd.Plain) :
    cmd.run k (record.map save) =
        ((cmd.onRecord k record).1, (cmd.onRecord k record).2.map save) ∧
      ∀ c, (cmd.onRecord k record).2 = some c → c.Plain := by
  cases cmd with
  | init force fresh =>
      simp only [ConfigCommand.run, ConfigCommand.onRecord, Option.isSome_map]
      by_cases hkeep : record.isSome = true ∧ force = false
      · rw [if_pos hkeep, if_pos hkeep]
        exact ⟨rfl, h⟩
      · rw [if_neg hkeep, if_neg hkeep]
        refine ⟨rfl, ?_⟩
        rintro c ⟨⟩
        exact hcmd
  | view defaults =>
      refine ⟨?_, h⟩
      cases record with
      | none => rfl
      | some c =>
          show ((readInConfig k defaults (save c)).map save, _) = _
          rw [readInConfig_save k defaults (h c rfl)]
          rfl
  | set defaults i value =>
      cases record with
      | none => exact ⟨rfl, h⟩
      | some c =>
          simp only [ConfigCommand.run, ConfigCommand.onRecord, Option.map_some, Option.bind_some,
            configSet_save k defaults (h c rfl)]
          cases hset : c.set k i value with
          | none => exact ⟨rfl, h⟩
          | some c' =>
              refine ⟨rfl, ?_⟩
              rintro _ ⟨⟩
              exact Settings.set_plain (h c rfl) hcmd hset

theorem runCommands_refines (k : Viper) {record : Option (Settings T)}
    {cmds : List (ConfigCommand T)} (hrecord : ∀ c, record = some c → c.Plain)
    (hcmds : ∀ cmd ∈ cmds, cmd.Plain) :
    runCommands (ConfigCommand.run k) (record.map save) cmds =
        ((runCommands (ConfigCommand.onRecord k) record cmds).1,
          (runCommands (ConfigCommand.onRecord k) record cmds).2.map save) ∧
      ∀ c, (runCommands (ConfigCommand.onRecord k) record cmds).2 = some c → c.Plain := by
  induction cmds generalizing record with
  | nil => exact ⟨rfl, hrecord⟩
  | cons cmd cmds ih =>
      obtain ⟨hcmd, hcmds⟩ := List.forall_mem_cons.1 hcmds
      obtain ⟨hrun, hplain⟩ := ConfigCommand.run_refines k hrecord hcmd
      obtain ⟨hrest, hend⟩ := ih hplain hcmds
      refine ⟨?_, hend⟩
      simp only [runCommands, hrun, hrest]

/-! ## The protocols

The templates, with the types the fields have in Go. -/

/-- The template of `services/wireguard/types/config.go`. -/
def wireguardTemplate : Template where
  lines :=
    [.comment " Name of the network interface",
      .field "interface" .text, .blank,
      .comment " Port number to accept the incoming connections",
      .field "listen_port" (.uint 16), .blank,
      .comment " Server private key",
      .field "private_key" .text, .blank,
      .comment " Network interface that carries the node's internet traffic; peers are NAT-ed",
      .comment " through it. Empty means detect it from the default route at start",
      .field "uplink" .text, .blank,
      .comment " Hand each peer an IPv6 tunnel address next to the IPv4 one (true, as every",
      .comment " other node on the network does). It needs a host that can reach the IPv6",
      .comment " internet; in Docker that means \"ipv6\": true in the daemon config, otherwise",
      .comment " clients get \"unreachable\" on every IPv6 connection through the tunnel. Set it",
      .comment " false for an IPv4-only tunnel: clients then exit with the node's IPv4 address.",
      .field "enable_ipv6" .bool]
  nonempty := List.cons_ne_nil _ _
  proper := by repeat' constructor
  distinct := by decide +kernel

/-- The template of `services/amneziawg/types/config.go`. -/
def amneziawgTemplate : Template where
  lines :=
    [.comment " Name of the network interface",
      .field "interface" .text, .blank,
      .comment " Port number to accept the incoming connections",
      .field "listen_port" (.uint 16), .blank,
      .comment " Server private key",
      .field "private_key" .text, .blank,
      .comment " Network interface that carries the node's internet traffic; peers are NAT-ed",
      .comment " through it. Empty means detect it from the default route at start",
      .field "uplink" .text, .blank,
      .comment " Hand each peer an IPv6 tunnel address next to the IPv4 one; the host must",
      .comment " then reach the IPv6 internet. Set it false for an IPv4-only tunnel",
      .field "enable_ipv6" .bool, .blank,
      .comment " Tunnel subnets peers get their addresses from. Empty (the default) gives this",
      .comment " node subnets of its own, derived from private_key: a 10.x.y.0/24 and an IPv6",
      .comment " unique local /120. Set a private network in CIDR form only if a derived one",
      .comment " clashes with a network the host is on",
      .field "ipv4_subnet" .text, .field "ipv6_subnet" .text, .blank,
      .table "obfuscation",
      .comment " AmneziaWG parameters, generated by \"dvpnd amneziawg config init\". Clients",
      .comment " receive s1-s4 and h1-h4 in the handshake and must use the same values;",
      .comment " jc/jmin/jmax are the junk packets this node sends and are per side.",
      .comment " Random junk packets before the handshake: count, minimum and maximum size",
      .field "jc" (.uint 16), .field "jmin" (.uint 16), .field "jmax" (.uint 16), .blank,
      .comment " Junk prepended to the handshake initiation (s1), response (s2), cookie",
      .comment " reply (s3) and transport (s4) packets; s1 + 56 must differ from s2",
      .field "s1" (.uint 16), .field "s2" (.uint 16), .field "s3" (.uint 16),
      .field "s4" (.uint 16), .blank,
      .comment " Message type values replacing WireGuard's 1-4; all distinct and above 4",
      .field "h1" (.uint 32), .field "h2" (.uint 32), .field "h3" (.uint 32),
      .field "h4" (.uint 32), .blank,
      .comment " Optional signature packets sent before the handshake, in AmneziaWG's tag",
      .comment " syntax (e.g. \"<b 0x...><r 16>\"); empty means none",
      .field "i1" .text, .field "i2" .text, .field "i3" .text, .field "i4" .text,
      .field "i5" .text, .blank,
      .table "v3",
      .comment " A second interface speaking AmneziaWG 3.1 (header protection, random",
      .comment " trailers), handed only to clients that ask for awg_version 3 in the",
      .comment " handshake; every other client gets the [obfuscation] tier above, unchanged.",
      .comment " Set enabled to false to run the default tier only. The junk packets and",
      .comment " signature packets above apply to both tiers",
      .field "enabled" .bool, .field "interface" .text, .field "listen_port" (.uint 16),
      .field "private_key" .text, .blank,
      .comment " Tunnel subnets as above, derived from this tier's private_key when empty;",
      .comment " they must not overlap the default tier's",
      .field "ipv4_subnet" .text, .field "ipv6_subnet" .text, .blank,
      .comment " Header protection key (base64, 32 bytes): encrypts the message type and",
      .comment " header of every packet; clients receive it in the handshake",
      .field "header_protection_key" .text, .blank,
      .comment " Junk prefixes as above, all four at least 12 (the header cipher's nonce",
      .comment " rides in them); s1 + 56 must differ from s2",
      .field "s1" (.uint 16), .field "s2" (.uint 16), .field "s3" (.uint 16),
      .field "s4" (.uint 16), .blank,
      .comment " Message type values as above",
      .field "h1" (.uint 32), .field "h2" (.uint 32), .field "h3" (.uint 32),
      .field "h4" (.uint 32), .blank,
      .comment " Random bytes appended to every packet; clients enable the same",
      .field "random_trailers" .bool, .blank,
      .comment " Random padding this side adds to its transport payloads, a range \"min-max\"",
      .field "content_padding_addition" .text]
  nonempty := List.cons_ne_nil _ _
  proper := by repeat' constructor
  distinct := by decide +kernel

/-- The template of `services/v2ray/types/config.go`. -/
def v2rayTemplate : Template where
  lines :=
    [.table "vmess",
      .comment " Port number to accept the incoming connections",
      .field "listen_port" (.uint 16), .blank,
      .comment " Enable or disable TLS for secure connections",
      .field "tls" .bool, .blank,
      .comment " Transport protocol for the VMess inbound (tcp is the only one confirmed with current client apps)",
      .field "transport" .text, .blank,
      .table "api",
      .comment " Loopback port on which the node drives v2ray; nothing else may bind it",
      .field "port" (.uint 16)]
  nonempty := List.cons_ne_nil _ _
  proper := by repeat' constructor
  distinct := by decide +kernel

/-- The template of `services/xray/types/config.go`. -/
def xrayTemplate : Template where
  lines :=
    [.table "vless",
      .comment " Port number to accept the incoming connections (TCP)",
      .field "listen_port" (.uint 16), .blank,
      .comment " Transport security: \"tls\" uses the node's tls.crt and tls.key and clients pin the",
      .comment " certificate; \"reality\" needs no certificate and imitates the TLS handshake of the",
      .comment " site named in [reality] server_name",
      .field "security" .text, .blank,
      .comment " XTLS Vision flow control (recommended; every current client supports it)",
      .field "flow" .bool, .blank,
      .table "reality",
      .comment " Site whose TLS handshake is imitated: it must serve TLS 1.3 with HTTP/2 on port 443 and",
      .comment " answer with a small certificate chain (www.apple.com and www.cloudflare.com are known to",
      .comment " work with current xray; www.microsoft.com is not)",
      .field "server_name" .text, .blank,
      .comment " x25519 key pair, base64url, generated by \"dvpnd xray config init\"",
      .field "private_key" .text, .field "public_key" .text, .blank,
      .comment " Short id, up to 16 hex characters; may be empty",
      .field "short_id" .text, .blank,
      .comment " Browser TLS fingerprint clients are told to imitate",
      .field "fingerprint" .text, .blank,
      .table "api",
      .comment " Loopback port on which the node drives xray; nothing else may bind it",
      .field "port" (.uint 16)]
  nonempty := List.cons_ne_nil _ _
  proper := by repeat' constructor
  distinct := by decide +kernel

/-- The template of `services/hysteria/types/config.go`. -/
def hysteriaTemplate : Template where
  lines :=
    [.table "server",
      .comment " UDP port to accept the incoming connections (QUIC)",
      .field "listen_port" (.uint 16), .blank,
      .comment " Salamander obfuscation password handed to clients; empty disables obfuscation",
      .field "obfs_password" .text, .blank,
      .comment " Bandwidth offered to each client, e.g. \"100 mbps\"; empty lets the client choose",
      .field "up" .text, .field "down" .text, .blank,
      .table "api",
      .comment " Loopback ports: hysteria calls auth_port to authenticate a client, and answers",
      .comment " traffic queries on stats_port; nothing else may bind them",
      .field "auth_port" (.uint 16), .field "stats_port" (.uint 16)]
  nonempty := List.cons_ne_nil _ _
  proper := by repeat' constructor
  distinct := by decide +kernel

/-- The template of `services/openvpn/types/config.go`. -/
def openvpnTemplate : Template where
  lines :=
    [.comment " Name of the tunnel interface",
      .field "interface" .text, .blank,
      .comment " Port number to accept the incoming connections",
      .field "listen_port" (.uint 16), .blank,
      .comment " Transport: \"udp\" (recommended) or \"tcp\"",
      .field "proto" .text, .blank,
      .comment " Network interface that carries the node's internet traffic; peers are NAT-ed",
      .comment " through it. Empty means detect it from the default route at start",
      .field "uplink" .text, .blank,
      .comment " Hand each peer an IPv6 tunnel address next to the IPv4 one; the host must",
      .comment " then reach the IPv6 internet. Set it false for an IPv4-only tunnel",
      .field "enable_ipv6" .bool]
  nonempty := List.cons_ne_nil _ _
  proper := by repeat' constructor
  distinct := by decide +kernel

/-- The protocols that have a configuration file. -/
inductive ServiceKind
  | wireguard
  | amneziawg
  | v2ray
  | xray
  | hysteria
  | openvpn

/-- The template a protocol gives `ConfigCommand`. -/
def ServiceKind.template : ServiceKind → Template
  | .wireguard => wireguardTemplate
  | .amneziawg => amneziawgTemplate
  | .v2ray => v2rayTemplate
  | .xray => xrayTemplate
  | .hysteria => hysteriaTemplate
  | .openvpn => openvpnTemplate

/-- **A configuration file is a record of settings.**  For every protocol any commands, on a file
that was saved or on none, print what they print on the record and leave the file of the
record they leave, which then reads back as that record whatever the defaults are; as long as
no value that is set has the one character that cannot be read back.  So what is set is read,
nothing else changes, and a command that fails changes nothing. -/
theorem configCommands_refine (k : Viper) (p : ServiceKind) (record : Option (Settings p.template))
    (cmds : List (ConfigCommand p.template)) (hrecord : ∀ c, record = some c → c.Plain)
    (hcmds : ∀ cmd ∈ cmds, cmd.Plain) :
    runCommands (ConfigCommand.run k) (record.map save) cmds =
        ((runCommands (ConfigCommand.onRecord k) record cmds).1,
          (runCommands (ConfigCommand.onRecord k) record cmds).2.map save) ∧
      ∀ defaults c, (runCommands (ConfigCommand.onRecord k) record cmds).2 = some c →
        readInConfig k defaults (save c) = some c := by
  obtain ⟨hrun, hplain⟩ := runCommands_refines k hrecord hcmds
  exact ⟨hrun, fun defaults c hc => readInConfig_save k defaults (hplain c hc)⟩

/-! ### A password for Hysteria2 -/

namespace Strict

/-- A value in the form of the templates, and in no other. -/
def decode : Kind → Scalar → Option Value
  | .text, .string v => some (.text v)
  | .uint bits, .bare text =>
      if text = Nat.toDigits 10 (Nat.ofDigitChars 10 text 0) ∧
          Nat.ofDigitChars 10 text 0 < 2 ^ bits.val then
        some (.uint (Nat.ofDigitChars 10 text 0))
      else none
  | .bool, .bare text =>
      if text = "true".toList then some (.bool true)
      else if text = "false".toList then some (.bool false)
      else none
  | _, _ => none

theorem decode_fits {kind : Kind} {s : Scalar} {v : Value} (h : decode kind s = some v) :
    Value.Fits kind v := by
  unfold decode at h
  split at h
  · cases h
    trivial
  · split at h
    · rename_i hdigits
      cases h
      exact hdigits.2
    · cases h
  · split_ifs at h <;> cases h <;> trivial
  · cases h

theorem decode_scalar {kind : Kind} {v : Value} (hv : v.Fits kind) :
    decode kind v.scalar = some v := by
  cases kind with
  | text =>
      cases v with
      | text v => rfl
      | uint n => cases hv
      | bool b => cases hv
  | uint bits =>
      cases v with
      | text v => cases hv
      | bool b => cases hv
      | uint n =>
          show (if _ then _ else _) = _
          rw [Nat.ofDigitChars_ten_toDigits, if_pos ⟨rfl, hv⟩]
  | bool =>
      cases v with
      | text v => cases hv
      | uint n => cases hv
      | bool b => cases b <;> rfl

def unmarshal (entries : List Entry) : List Field → List Value → Option (List Value)
  | f :: fs, v :: vs => ((entries.lookup f.1).elim (some v) (decode f.2)).bind fun v' =>
      (unmarshal entries fs vs).map (v' :: ·)
  | _, _ => some []

/-- A decoder that takes nothing in another form. -/
def viper : Viper where
  decode := decode
  unmarshal := unmarshal
  decode_fits := decode_fits
  decode_scalar := decode_scalar
  unmarshal_nil _ _ := rfl
  unmarshal_cons _ _ _ _ _ := rfl

end Strict

/-- A configuration with a password and the rates of a client. -/
def hysteriaSettings (password : List Char) : Settings hysteriaTemplate where
  values := [.uint 443, .text password, .text "100 mbps".toList, .text "100 mbps".toList, .uint 8001,
    .uint 8002]
  fits := .cons (show 443 < 2 ^ 16 by decide) <| .cons trivial <| .cons trivial <| .cons trivial <|
    .cons (show 8001 < 2 ^ 16 by decide) <| .cons (show 8002 < 2 ^ 16 by decide) .nil

/-- A password with a quote, a line end and a setting in it. -/
def quoted : List Char := "a\"\n[api]\nauth_port = 1".toList

/-- It is set as one value, and everything else stays. -/
theorem configCommands_refine_quoted :
    (runCommands (ConfigCommand.run Strict.viper) (some (save (hysteriaSettings [])))
        [.set (hysteriaSettings []) ⟨1, by decide⟩ quoted]).2 =
      some (save (hysteriaSettings quoted)) ∧
    readInConfig Strict.viper (hysteriaSettings []) (save (hysteriaSettings quoted)) =
      some (hysteriaSettings quoted) := by
  have hplain : ∀ v ∈ (hysteriaSettings []).values, v.Plain := by decide
  obtain ⟨hrun, hread⟩ := configCommands_refine Strict.viper .hysteria (some (hysteriaSettings []))
    [.set (hysteriaSettings []) ⟨1, by decide⟩ quoted] (fun c hc => Option.some.inj hc ▸ hplain)
    (List.forall_mem_singleton.2 (by decide : delete ∉ quoted))
  exact ⟨congrArg Prod.snd hrun, hread _ _ rfl⟩

end Dvpnd
