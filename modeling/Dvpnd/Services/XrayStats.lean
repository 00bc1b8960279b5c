import Dvpnd.Lib.Protobuf
import Mathlib.Data.List.ReduceOption

/-!
# The statistics of xray's API

`parseQueryStatsResponse` of `services/xray/wire.go`, which reads the traffic counters of all
users from the bytes xray answers with.  A counter that is missing reads as zero usage, so a
reply that is not complete must not be taken for one.

* `parseQueryStatsResponse`, `parseStat` — the parser, over the library's functions.
* `IsStat`, `IsResponse` — the encodings of a counter and of a list of them: the fields in any
  order, repeated or left out, with unknown ones among them.
* `stats_read` — **the last entry of a name counts, on every encoding**; the parser ends on all
  bytes, and **what is cut off inside a field is refused**.
* `deep_groups_refused` — an encoding whose groups are nested deeper than the library follows.
-/

namespace Dvpnd.XRay

open Parsing Protobuf

/-- A counter: its name, a string of bytes, and its value. -/
abbrev Stat := List UInt8 × Int64

/-- `map[string]int64`. -/
abbrev Counters := List UInt8 → Option Int64

/-! ## The parser -/

/-- The cases of `parseStat`, behind a tag. -/
def statField (fuel : Nat) (stat : Stat) (tag : Nat × WireType) : Parser Error Stat :=
  if tag.1 = 1 ∧ tag.2 = .bytes then do
    let name ← consumeBytes
    return (name, stat.2)
  else if tag.1 = 2 ∧ tag.2 = .varint then do
    let v ← consumeVarint
    return (stat.1, (UInt64.ofNat v).toInt64)
  else do
    consumeFieldValue fuel tag.1 tag.2
    return stat

/-- A round of `parseStat`. -/
def statStep (fuel : Nat) (stat : Stat) : Parser Error Stat := do
  let tag ← consumeTag
  statField fuel stat tag

/-- `parseStat`. -/
def parseStat (fuel : Nat) (b : List UInt8) : Except Error Stat :=
  consumeAll (statStep fuel) .outOfFuel fuel ([], 0) b

/-- The cases of `parseQueryStatsResponse`, behind a tag. -/
def responseField (fuel : Nat) (stats : Counters) (tag : Nat × WireType) : Parser Error Counters :=
  if tag.1 ≠ 1 ∨ tag.2 ≠ .bytes then do
    consumeFieldValue fuel tag.1 tag.2
    return stats
  else do
    let b ← consumeBytes
    let stat ← StateT.lift (parseStat fuel b)
    return Function.update stats stat.1 (some stat.2)

/-- A round of `parseQueryStatsResponse`. -/
def responseStep (fuel : Nat) (stats : Counters) : Parser Error Counters := do
  let tag ← consumeTag
  responseField fuel stats tag

/-- `parseQueryStatsResponse`. -/
def parseQueryStatsResponse (fuel : Nat) (b : List UInt8) : Except Error Counters :=
  consumeAll (responseStep fuel) .outOfFuel fuel (fun _ => none) b

/-! ## The encodings -/

/-- What a field of a counter is. -/
inductive StatField where
  | name (n : List UInt8)
  | value (v : Int64)
  | unknown

/-- The name in it. -/
def StatField.name? : StatField → Option (List UInt8)
  | .name n => some n
  | _ => none

/-- The value in it. -/
def StatField.value? : StatField → Option Int64
  | .value v => some v
  | _ => none

/-- The name, of which the last counts. -/
def nameOf (fields : List StatField) : List UInt8 := (fields.filterMap StatField.name?).getLastD []

/-- The value, of which the last counts. -/
def valueOf (fields : List StatField) : Int64 := (fields.filterMap StatField.value?).getLastD 0

/-- The bytes of a field of a counter, with groups nested at most as deep. -/
inductive StatField.Encodes (d : Nat) : StatField → List UInt8 → Prop
  | name {n t l : List UInt8} : IsTag 1 .bytes t → IsVarint n.length l →
      Encodes d (.name n) (t ++ (l ++ n))
  | value {v : Int64} {t b : List UInt8} : IsTag 2 .varint t → IsVarint v.toUInt64.toNat b →
      Encodes d (.value v) (t ++ b)
  | unknown {num : Nat} {typ : WireType} {t v : List UInt8} : IsTag num typ t →
      ¬ (num = 1 ∧ typ = .bytes) → ¬ (num = 2 ∧ typ = .varint) → IsValue d num typ v →
      Encodes d .unknown (t ++ v)

/-- The encodings of a counter. -/
def IsStat (d : Nat) (stat : Stat) (b : List UInt8) : Prop :=
  ∃ fields parts, List.Forall₂ (StatField.Encodes d) fields parts ∧ b = parts.flatten ∧
    stat = (nameOf fields, valueOf fields)

/-- The bytes of a field of a response: a counter, or an unknown one. -/
inductive ResponseField (d : Nat) : Option Stat → List UInt8 → Prop
  | stat {stat : Stat} {t l b : List UInt8} : IsTag 1 .bytes t → IsStat d stat b →
      IsVarint b.length l → ResponseField d (some stat) (t ++ (l ++ b))
  | unknown {num : Nat} {typ : WireType} {t v : List UInt8} : IsTag num typ t →
      ¬ (num = 1 ∧ typ = .bytes) → IsValue d num typ v → ResponseField d none (t ++ v)

/-- The encodings of a list of counters. -/
def IsResponse (d : Nat) (stats : List Stat) (b : List UInt8) : Prop :=
  ∃ fields parts, List.Forall₂ (ResponseField d) fields parts ∧ b = parts.flatten ∧
    stats = fields.reduceOption

/-- The value of the last entry of a name. -/
def lastValue (stats : List Stat) (name : List UInt8) : Option Int64 :=
  ((stats.filter (·.1 = name)).map (·.2)).getLast?

/-! ## A counter -/

/-- What a field does to a counter. -/
def StatField.apply (stat : Stat) : StatField → Stat
  | .name n => (n, stat.2)
  | .value v => (stat.1, v)
  | .unknown => stat

theorem foldl_apply (fields : List StatField) (stat : Stat) :
    fields.foldl StatField.apply stat = ((fields.filterMap StatField.name?).getLastD stat.1,
      (fields.filterMap StatField.value?).getLastD stat.2) := by
  induction fields generalizing stat with
  | nil => rfl
  | cons field fields ih =>
      rw [List.foldl_cons, ih]
      cases field with
      | name n =>
          rw [List.filterMap_cons_some (f := StatField.name?) (b := n) rfl, List.filterMap_cons_none rfl, List.getLastD_cons]
          rfl
      | value v =>
          rw [List.filterMap_cons_none rfl, List.filterMap_cons_some (f := StatField.value?) (b := v) rfl, List.getLastD_cons]
          rfl
      | unknown => rw [List.filterMap_cons_none rfl, List.filterMap_cons_none rfl]; rfl

variable {d fuel : Nat} {part : List UInt8}

theorem accepts_consumeFieldValue {num : Nat} {typ : WireType} (hd : d ≤ 10001)
    (h : IsValue d num typ part) (hfuel : part.length ≤ fuel) :
    Accepts (consumeFieldValue fuel num typ) part () :=
  (takes_consumeFieldValue h fuel).accepts ⟨by unfold defaultRecursionLimit; omega, hfuel⟩

theorem StatField.Encodes.accepts {field : StatField} (h : field.Encodes d part) (hd : d ≤ 10001)
    (hfuel : part.length ≤ fuel) (stat : Stat) :
    Accepts (statStep fuel stat) part (field.apply stat) := by
  cases h with
  | name ht hl =>
      refine (accepts_consumeTag ht).bind ?_
      rw [statField, if_pos ⟨rfl, rfl⟩]
      exact (accepts_consumeBytes hl).bind_pure _
  | @value v t b ht hb =>
      refine (accepts_consumeTag ht).bind ?_
      rw [statField, if_neg (by simp), if_pos ⟨rfl, rfl⟩]
      have hvalue := (accepts_consumeVarint hb).bind_pure
        fun n => (stat.1, (UInt64.ofNat n).toInt64)
      rwa [UInt64.ofNat_toNat, Int64.toInt64_toUInt64] at hvalue
  | unknown ht hname hvalue hv =>
      refine (accepts_consumeTag ht).bind ?_
      rw [List.length_append] at hfuel
      rw [statField, if_neg hname, if_neg hvalue]
      exact (accepts_consumeFieldValue hd hv (by omega)).bind_pure _

theorem StatField.Encodes.ne_nil {field : StatField} (h : field.Encodes d part) : part ≠ [] := by
  cases h with
  | name ht _ => simp [ht.ne_nil]
  | value ht _ => simp [ht.ne_nil]
  | unknown ht _ _ _ => simp [ht.ne_nil]

/-- Every encoding of a counter is read. -/
theorem parseStat_isStat {stat : Stat} {b : List UInt8} (h : IsStat d stat b) (hd : d ≤ 10001)
    (hfuel : b.length ≤ fuel) : parseStat fuel b = .ok stat := by
  obtain ⟨fields, parts, henc, rfl, rfl⟩ := h
  have hchain := chain_foldl henc hfuel
    (fun hfield => ⟨hfield.ne_nil, fun hpart => hfield.accepts hd hpart⟩) ([], 0)
  rw [parseStat, consumeAll_chain hchain hfuel, foldl_apply]
  rfl

/-! ## A response -/

/-- What a field does to the counters. -/
def applyField (stats : Counters) : Option Stat → Counters
  | some stat => Function.update stats stat.1 (some stat.2)
  | none => stats

theorem lastValue_cons (stat : Stat) (stats : List Stat) (name : List UInt8) :
    lastValue (stat :: stats) name =
      (lastValue stats name).or (if stat.1 = name then some stat.2 else none) := by
  by_cases h : stat.1 = name
  · simp only [lastValue, List.filter_cons, h, decide_true, if_true, List.map_cons, List.getLast?_cons]
    cases ((stats.filter (·.1 = name)).map (·.2)).getLast? with
    | none => rfl
    | some v => rfl
  · simp [lastValue, h]

theorem foldl_applyField (fields : List (Option Stat)) (stats : Counters) (name : List UInt8) :
    fields.foldl applyField stats name = (lastValue fields.reduceOption name).or (stats name) := by
  induction fields generalizing stats with
  | nil => rfl
  | cons field fields ih =>
      rw [List.foldl_cons, ih]
      cases field with
      | none => rfl
      | some stat =>
          rw [List.reduceOption_cons_of_some, applyField, lastValue_cons, Function.update_apply]
          cases lastValue fields.reduceOption name with
          | none => by_cases hname : name = stat.1 <;> simp [hname, eq_comm]
          | some v => rfl

theorem ResponseField.accepts {field : Option Stat} (h : ResponseField d field part)
    (hd : d ≤ 10001) (hfuel : part.length ≤ fuel) (stats : Counters) :
    Accepts (responseStep fuel stats) part (applyField stats field) := by
  cases h with
  | @stat stat t l b ht hstat hl =>
      refine (accepts_consumeTag ht).bind fun rest => ?_
      simp only [List.length_append] at hfuel
      rw [responseField, if_neg (by simp), run_bind_of_ok (accepts_consumeBytes hl rest),
        parseStat_isStat hstat hd (by omega)]
      rfl
  | @unknown num typ t v ht hunknown hv =>
      refine (accepts_consumeTag ht).bind ?_
      rw [List.length_append] at hfuel
      rw [responseField, if_pos (not_and_or.1 hunknown)]
      exact (accepts_consumeFieldValue hd hv (by omega)).bind_pure _

theorem ResponseField.ne_nil {field : Option Stat} (h : ResponseField d field part) : part ≠ [] := by
  cases h with
  | stat ht _ _ => simp [ht.ne_nil]
  | unknown ht _ _ => simp [ht.ne_nil]

/-- Every encoding of a list of counters is read, and the last entry of a name counts. -/
theorem parse_isResponse {stats : List Stat} {b : List UInt8} (h : IsResponse d stats b)
    (hd : d ≤ 10001) (hfuel : b.length ≤ fuel) :
    parseQueryStatsResponse fuel b = .ok (lastValue stats) := by
  obtain ⟨fields, parts, henc, rfl, rfl⟩ := h
  have hchain := chain_foldl henc hfuel
    (fun hfield => ⟨hfield.ne_nil, fun hpart => hfield.accepts hd hpart⟩) fun _ => none
  rw [parseQueryStatsResponse, consumeAll_chain hchain hfuel]
  refine congrArg _ (funext fun name => ?_)
  rw [foldl_applyField, Option.or_none]

/-! ## Every string of bytes -/

theorem reads_statField (fuel : Nat) (stat : Stat) (tag : Nat × WireType) :
    Parsing.Reads (statField fuel stat tag) := by
  unfold statField
  split
  · exact reads_consumeBytes.bind fun _ => reads_pure _
  · split
    · exact reads_consumeVarint.bind fun _ => reads_pure _
    · exact (reads_consumeFieldValue fuel _ _).bind fun _ => reads_pure _

theorem reads_responseField (fuel : Nat) (stats : Counters) (tag : Nat × WireType) :
    Parsing.Reads (responseField fuel stats tag) := by
  unfold responseField
  split
  · exact (reads_consumeFieldValue fuel _ _).bind fun _ => reads_pure _
  · exact reads_consumeBytes.bind fun _ => (reads_lift _).bind fun _ => reads_pure _

theorem ends_statStep (n : Nat) (stat : Stat) : Ends .outOfFuel (n + 1) (statStep (n + 1) stat) := by
  refine (ends_consumeTag (n + 1)).bind_lt advances_consumeTag fun tag => ?_
  unfold statField
  split
  · exact (ends_consumeBytes n).bind reads_consumeBytes fun _ => ends_pure _
  · split
    · exact (ends_consumeVarintAt 9 n).bind reads_consumeVarint fun _ => ends_pure _
    · exact (ends_consumeFieldValue n _ _).bind (reads_consumeFieldValue _ _ _) fun _ => ends_pure _

theorem parseStat_ends {n : Nat} {b : List UInt8} (h : b.length ≤ n + 1) :
    parseStat (n + 1) b ≠ .error .outOfFuel :=
  consumeAll_ends (ends_statStep n)
    (fun stat => advances_consumeTag.bind (reads_statField (n + 1) stat)) h h ([], 0)

theorem ends_responseStep (n : Nat) (stats : Counters) :
    Ends .outOfFuel (n + 1) (responseStep (n + 1) stats) := by
  refine (ends_consumeTag (n + 1)).bind_lt advances_consumeTag fun tag => ?_
  unfold responseField
  split
  · exact (ends_consumeFieldValue n _ _).bind (reads_consumeFieldValue _ _ _) fun _ => ends_pure _
  · refine (ends_consumeBytes n).bind_of reads_consumeBytes fun b a rest hb hrun => ?_
    have hlen := length_of_consumeBytes hrun
    exact (ends_lift (parseStat_ends (by omega))).bind (reads_lift _) fun _ => ends_pure _

theorem parse_ends {b : List UInt8} (h : b.length ≤ fuel) :
    parseQueryStatsResponse fuel b ≠ .error .outOfFuel := by
  cases fuel with
  | zero =>
      rw [List.length_eq_zero_iff.1 (Nat.le_zero.1 h)]
      simp [parseQueryStatsResponse, consumeAll]
  | succ n =>
      exact consumeAll_ends (ends_responseStep n)
        (fun stats => advances_consumeTag.bind (reads_responseField (n + 1) stats)) h h _

/-! ### Cut off inside a field -/

/-- A field is taken or refused as a whole, known or not, -/
theorem takes_statStep (h : IsField d part) (fuel : Nat) (stat : Stat) :
    ∃ stat', Takes False (statStep fuel stat) part stat' := by
  obtain ⟨num, typ, t, v, ht, hv, rfl⟩ := h
  suffices hfield : ∃ stat', Takes False (statField fuel stat (num, typ)) v stat' by
    obtain ⟨stat', hfield⟩ := hfield
    exact ⟨stat', (accepts_consumeTag ht).takes.bind hfield⟩
  unfold statField
  split
  · rename_i hname
    obtain ⟨rfl, rfl⟩ := hname
    obtain ⟨l, b, rfl, hl⟩ := hv.bytes
    exact ⟨_, (accepts_consumeBytes hl).takes.bind_pure _⟩
  · split
    · rename_i hvalue
      obtain ⟨rfl, rfl⟩ := hvalue
      obtain ⟨n, hb⟩ := hv.varint
      exact ⟨_, (accepts_consumeVarint hb).takes.bind_pure _⟩
    · exact ⟨stat, ((takes_consumeFieldValue hv fuel).mono False.elim).bind_pure _⟩

/-- and so is one that has a counter in it, whose bytes may be no counter. -/
theorem takes_responseStep (h : IsField d part) (fuel : Nat) (stats : Counters) :
    ∃ stats', Takes False (responseStep fuel stats) part stats' := by
  obtain ⟨num, typ, t, v, ht, hv, rfl⟩ := h
  suffices hfield : ∃ stats', Takes False (responseField fuel stats (num, typ)) v stats' by
    obtain ⟨stats', hfield⟩ := hfield
    exact ⟨stats', (accepts_consumeTag ht).takes.bind hfield⟩
  unfold responseField
  split
  · exact ⟨stats, ((takes_consumeFieldValue hv fuel).mono False.elim).bind_pure _⟩
  · rename_i hstat
    obtain ⟨rfl, rfl⟩ := (not_or.1 hstat).imp not_not.1 not_not.1
    obtain ⟨l, b, rfl, hl⟩ := hv.bytes
    cases hparse : parseStat fuel b with
    | ok stat =>
        refine ⟨Function.update stats stat.1 (some stat.2), Accepts.takes fun rest => ?_⟩
        rw [run_bind_of_ok (accepts_consumeBytes hl rest), hparse]
        rfl
    | error e =>
        refine ⟨stats, .inr ⟨id, fun rest => ⟨e, ?_⟩⟩⟩
        rw [run_bind_of_ok (accepts_consumeBytes hl rest), hparse]
        rfl

/-- The start of an unknown group, and its end. -/
theorem isTag_start : IsTag 3 .startGroup [0x1b] := isTag_tag (by decide) (by decide) _

theorem isTag_end : IsTag 3 .endGroup [0x1c] := isTag_tag (by decide) (by decide) _

/-! ## The statistics -/

/-- **The statistics are read as they are meant.**  On every encoding of a list of counters the
parser returns the map with the value of the last entry of each name, if groups are nested no
deeper than the library follows.  It ends on all bytes: there are no more rounds than bytes.
Complete fields with a last one that is cut off are refused, in the response as in a counter. -/
theorem stats_read :
    (∀ d stats b fuel, d ≤ 10001 → IsResponse d stats b → b.length ≤ fuel →
      parseQueryStatsResponse fuel b = .ok (lastValue stats)) ∧
    (∀ b fuel, b.length ≤ fuel → parseQueryStatsResponse fuel b ≠ .error .outOfFuel) ∧
    (∀ (d : Nat) (parts : List (List UInt8)) (b cut : List UInt8) (fuel : Nat),
      (∀ part ∈ parts, IsField d part) → IsField d (b ++ cut) → b ≠ [] → cut ≠ [] →
        (∃ e, parseQueryStatsResponse fuel (parts.flatten ++ b) = .error e) ∧
          ∃ e, parseStat fuel (parts.flatten ++ b) = .error e) := by
  refine ⟨fun d stats b fuel hd h hfuel => parse_isResponse h hd hfuel,
    fun b fuel h => parse_ends h, fun d parts b cut fuel hparts hb hne hcut => ⟨?_, ?_⟩⟩
  · exact consumeAll_cut_off (fun stats => reads_consumeTag.bind (reads_responseField fuel stats))
      (fun part hpart => takes_responseStep (hparts part hpart) fuel)
      (takes_responseStep hb fuel) hne hcut fuel _
  · exact consumeAll_cut_off (fun stat => reads_consumeTag.bind (reads_statField fuel stat))
      (fun part hpart => takes_statStep (hparts part hpart) fuel)
      (takes_statStep hb fuel) hne hcut fuel _

/-- Two entries of one name: the first without a value, the second with two values before the
name; and an unknown group behind them. -/
theorem stats_read_repeated : parseQueryStatsResponse 64
    [0x0a, 3, 0x0a, 1, 97, 0x0a, 8, 0x10, 0x85, 1, 0x10, 6, 0x0a, 1, 97, 0x1b, 0x1c] =
      .ok (lastValue [([97], 0), ([97], 6)]) := by
  have htag1 : IsTag 1 .bytes [0x0a] := isTag_tag (by decide) (by decide) _
  have htag2 : IsTag 2 .varint [0x10] := isTag_tag (by decide) (by decide) _
  have hname : StatField.Encodes 1 (.name [97]) [0x0a, 1, 97] :=
    .name (n := [97]) htag1 (isVarint_varint (v := 1) (by decide))
  have hlong : StatField.Encodes 1 (.value 133) [0x10, 0x85, 1] :=
    .value htag2 (isVarint_varint (v := 133) (by decide))
  have hshort : StatField.Encodes 1 (.value 6) [0x10, 6] :=
    .value htag2 (isVarint_varint (v := 6) (by decide))
  have hfirst : IsStat 1 ([97], 0) [0x0a, 1, 97] :=
    ⟨[.name [97]], [_], .cons hname .nil, rfl, rfl⟩
  have hsecond : IsStat 1 ([97], 6) [0x10, 0x85, 1, 0x10, 6, 0x0a, 1, 97] :=
    ⟨[.value 133, .value 6, .name [97]], [_, _, _], .cons hlong (.cons hshort (.cons hname .nil)),
      rfl, rfl⟩
  refine stats_read.1 1 _ _ 64 (by decide) ⟨[some ([97], 0), some ([97], 6), none], [_, _, _],
    .cons (.stat htag1 hfirst (isVarint_varint (v := 3) (by decide)))
      (.cons (.stat htag1 hsecond (isVarint_varint (v := 8) (by decide)))
        (.cons (.unknown isTag_start (by simp) (.group (.nil 0) isTag_end)) .nil)), rfl, rfl⟩ (by decide)

/-! ### Groups nested too deep -/

/-- Empty groups inside one another. -/
def nested : Nat → List UInt8
  | 0 => []
  | n + 1 => [0x1b] ++ (nested n ++ [0x1c])

theorem length_nested (n : Nat) : (nested n).length = 2 * n := by
  induction n with
  | zero => rfl
  | succ n ih =>
      simp only [nested, List.length_append, List.length_singleton, ih]
      omega

theorem fields_nested (n : Nat) : Fields n (nested n) := by
  induction n with
  | zero => exact .nil 0
  | succ n ih =>
      have hgroup := Fields.group isTag_start ih isTag_end (.nil (n + 1))
      rwa [List.append_nil] at hgroup

theorem isResponse_nested (n : Nat) : IsResponse (n + 1) [] (nested (n + 1)) :=
  ⟨[none], [_], .cons (.unknown isTag_start (by simp) (.group (fields_nested n) isTag_end)) .nil,
    by simp [nested], rfl⟩

/-- Each level takes one from the depth that is left. -/
theorem consumeGroup_nested {n fuel : Nat} {depth : Int} (hpos : 0 ≤ depth) (hdeep : depth < n)
    (hfuel : n ≤ fuel) (rest : List UInt8) :
    (consumeGroup fuel 3 depth).run (nested n ++ rest) = .error .recursionDepth := by
  induction n generalizing fuel depth rest with
  | zero => omega
  | succ n ih =>
      obtain ⟨fuel, rfl⟩ : ∃ k, fuel = k + 1 := ⟨fuel - 1, by omega⟩
      rw [nested, consumeGroup, List.append_assoc, List.append_assoc,
        run_bind_of_ok (accepts_consumeTag isTag_start (nested n ++ ([0x1c] ++ rest))),
        if_neg (by decide)]
      refine run_bind_of_error ?_
      dsimp only [consumeFieldValueWith]
      split
      · rfl
      · exact ih (by omega) (by omega) (by omega) ([0x1c] ++ rest)

theorem parse_nested {n : Nat} (hdeep : 10000 < n) (hfuel : n < fuel) :
    parseQueryStatsResponse fuel (nested (n + 1)) = .error .recursionDepth := by
  obtain ⟨fuel, rfl⟩ : ∃ k, fuel = k + 1 := ⟨fuel - 1, by omega⟩
  have hstep : (responseStep (fuel + 1) fun _ => none).run (nested (n + 1)) =
      .error .recursionDepth := by
    rw [responseStep, nested, run_bind_of_ok (accepts_consumeTag isTag_start (nested n ++ [0x1c])),
      responseField, if_pos (.inl (by decide))]
    refine run_bind_of_error ?_
    exact consumeGroup_nested (by decide) (by unfold defaultRecursionLimit; omega) (by omega) [0x1c]
  rw [parseQueryStatsResponse, consumeAll_succ (by simp [nested]), hstep]

/-- **An encoding that is refused**: no counters, and an unknown group with 10001 more inside. -/
theorem deep_groups_refused : IsResponse 10002 [] (nested 10002) ∧
    ∀ fuel, (nested 10002).length ≤ fuel →
      parseQueryStatsResponse fuel (nested 10002) = .error .recursionDepth := by
  refine ⟨isResponse_nested 10001, fun fuel hfuel => ?_⟩
  rw [length_nested] at hfuel
  exact parse_nested (n := 10001) (by decide) (by omega)

end Dvpnd.XRay
