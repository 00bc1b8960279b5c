import Dvpnd.Services.Metering

/-!
# Client events

OpenVPN tells the node of its clients in blocks of lines that start with `>`
(`services/openvpn/management.go`).  The reader keeps one thing between two lines: the block it
is in.

* `handleEvent`, `finishEvent` — the reader, over the text of the lines.
* `Block`, `Piece` — what the server writes: complete blocks, and other lines in between and
  inside them.
* `Block.issues` — what a block is owed, by its own lines and the names registered when it ends.
* `events_answered` — **for every sequence of blocks and other lines the node issues what each
  block is owed, in order, and nothing else**: nothing is carried from one block to the next.
-/

namespace Dvpnd

/-! ## Text -/

/-- `strings.Cut`: what is before the first separator, what is after it, and whether it is
there. -/
def stringsCut (sep : Char) (s : List Char) : List Char × List Char × Bool :=
  (s.takeWhile (· ≠ sep), (s.dropWhile (· ≠ sep)).tail, decide (sep ∈ s))

/-- The digits of `strconv.ParseUint(s, 10, 64)`, after some with this value.  A number that
does not fit ends the loop with the largest one; `none` is a syntax error. -/
def parseUint64 (n : Nat) : List Char → Option Nat
  | [] => some n
  | c :: rest =>
      if c.isDigit then
        if 2 ^ 64 ≤ n * 10 + (c.toNat - '0'.toNat) then some (2 ^ 64 - 1)
        else parseUint64 (n * 10 + (c.toNat - '0'.toNat)) rest
      else none

/-- The sign in front of a number, and its digits. -/
def cutSign : List Char → Bool × List Char
  | '-' :: digits => (true, digits)
  | '+' :: digits => (false, digits)
  | digits => (false, digits)

/-- `strconv.ParseInt(s, 10, 64)`, the error ignored. -/
def parseInt64 (s : List Char) : Int64 :=
  let (neg, digits) := cutSign s
  if digits = [] then 0
  else
    match parseUint64 0 digits with
    | none => 0
    | some un =>
        if neg then if 2 ^ 63 < un then Int64.minValue else Int64.ofInt (-un)
        else if 2 ^ 63 ≤ un then Int64.maxValue else Int64.ofNat un

/-! ## The reader -/

/-- The events that come with a block. -/
inductive EventKind
  | connect
  | reauth
  | established
  | disconnect
  deriving DecidableEq

/-- As they are written. -/
def EventKind.text : EventKind → List Char
  | .connect => "CONNECT".toList
  | .reauth => "REAUTH".toList
  | .established => "ESTABLISHED".toList
  | .disconnect => "DISCONNECT".toList

/-- The event of a word. -/
def eventKind (word : List Char) : Option EventKind :=
  [.connect, .reauth, .established, .disconnect].find? fun k => k.text == word

/-- `clientEvent`. -/
structure ClientEvent where
  kind : EventKind
  cid : List Char
  kid : List Char
  env : List Char → List Char

/-- The common names that are registered at a moment: what `admit` looks at. -/
abbrev Names := List Char → Bool

/-- What the reader does besides reading: it sends a command, or calls `onDisconnect`. -/
inductive Issued
  | send (command : List Char)
  | disconnected (commonName : List Char) (received sent : Int64)
  deriving DecidableEq

/-- The positive decision, -/
def clientAuth (cid kid : List Char) : List Char :=
  "client-auth-nt ".toList ++ cid ++ ' ' :: kid

/-- and the negative one. -/
def clientDeny (cid kid : List Char) : List Char :=
  "client-deny ".toList ++ cid ++ ' ' :: kid ++ " \"not a registered peer\"".toList

/-- `finishEvent`, with `OpenVPN.admit` for `onConnect`. -/
def finishEvent (registered : Names) (ev : ClientEvent) : List Issued :=
  let cn := if ev.env "common_name".toList = [] then ev.env "X509_0_CN".toList
    else ev.env "common_name".toList
  match ev.kind with
  | .connect | .reauth =>
      if registered cn then [.send (clientAuth ev.cid ev.kid)]
      else [.send (clientDeny ev.cid ev.kid)]
  | .established => []
  | .disconnect =>
      [.disconnected cn (parseInt64 (ev.env "bytes_received".toList))
        (parseInt64 (ev.env "bytes_sent".toList))]

/-- The switch of `handleEvent`: the word of a line about a client, and what follows its
comma. -/
def handleWord (registered : Names) (current : Option ClientEvent) (word rest : List Char) :
    Option ClientEvent × List Issued :=
  match eventKind word with
  | some kind =>
      let (cid, kid, _) := stringsCut ',' rest
      (some ⟨kind, cid, kid, fun _ => []⟩, [])
  | none =>
      if word = "ENV".toList then
        match current with
        | none => (none, [])
        | some ev =>
            if rest = "END".toList then (none, finishEvent registered ev)
            else
              let (k, v, ok) := stringsCut '=' rest
              if ok then (some { ev with env := Function.update ev.env k v }, [])
              else (some ev, [])
      else (current, [])

/-- `handleEvent`. -/
def handleEvent (registered : Names) (current : Option ClientEvent) (line : List Char) :
    Option ClientEvent × List Issued :=
  if ">CLIENT:".toList.isPrefixOf line = false then (current, [])
  else
    let (word, rest, _) := stringsCut ',' (line.drop 8)
    handleWord registered current word rest

/-- The `>` lines `read` hands to `handleEvent`, each with the names registered at its time. -/
def handleLines (current : Option ClientEvent) : List (List Char × Names) →
    Option ClientEvent × List Issued
  | [] => (current, [])
  | (line, registered) :: rest =>
      let (next, issued) := handleEvent registered current line
      let (last, later) := handleLines next rest
      (last, issued ++ later)

/-! ## What the server writes -/

/-- A line about a client. -/
def clientLine (body : List Char) : List Char := ">CLIENT:".toList ++ body

/-- A line of an environment. -/
def envLine (body : List Char) : List Char := clientLine ("ENV,".toList ++ body)

/-- The ids after the word of an event. -/
inductive Ids
  | none
  | client (cid : List Char) (h : ',' ∉ cid)
  | key (cid : List Char) (h : ',' ∉ cid) (kid : List Char)

namespace Ids

def cid : Ids → List Char
  | .none => []
  | .client cid _ => cid
  | .key cid _ _ => cid

def kid : Ids → List Char
  | .key _ _ kid => kid
  | _ => []

def text : Ids → List Char
  | .none => []
  | .client cid _ => ',' :: cid
  | .key cid _ kid => ',' :: (cid ++ ',' :: kid)

end Ids

/-- The first line of a block. -/
def header (kind : EventKind) (ids : Ids) : List Char := clientLine (kind.text ++ ids.text)

/-- Not the first line of a block. -/
def NotHeader (line : List Char) : Prop := ∀ kind ids, line ≠ header kind ids

/-- A line inside a block: a pair of its environment, or any that is no pair and neither starts
nor ends a block. -/
inductive Inner
  | pair (name value : List Char) (h : '=' ∉ name)
  | other (line : List Char) (hhead : NotHeader line) (hend : line ≠ envLine "END".toList)
      (hpair : ∀ name value, line ≠ envLine (name ++ '=' :: value))

/-- As it is written. -/
def Inner.line : Inner → List Char
  | .pair name value _ => envLine (name ++ '=' :: value)
  | .other line _ _ _ => line

/-- A complete block, with the names registered at the time of each line. -/
structure Block where
  kind : EventKind
  ids : Ids
  begun : Names
  inner : List (Inner × Names)
  ended : Names

/-- A block, or a line that starts none. -/
inductive Piece
  | block (b : Block)
  | other (line : List Char) (h : NotHeader line) (registered : Names)

/-- The lines of a block. -/
def Block.lines (b : Block) : List (List Char × Names) :=
  (header b.kind b.ids, b.begun) ::
    (b.inner.map fun p => (p.1.line, p.2)) ++ [(envLine "END".toList, b.ended)]

/-- The lines of a piece. -/
def Piece.lines : Piece → List (List Char × Names)
  | .block b => b.lines
  | .other line _ registered => [(line, registered)]

/-- The value of a name in a block: the last it is given, and empty when it has none. -/
def Block.value (b : Block) (name : List Char) : List Char :=
  (b.inner.reverse.findSome? fun p =>
    match p.1 with
    | .pair name' value _ => if name' = name then some value else none
    | .other _ _ _ _ => none).getD []

/-- Its common name. -/
def Block.commonName (b : Block) : List Char :=
  if b.value "common_name".toList = [] then b.value "X509_0_CN".toList
  else b.value "common_name".toList

/-- **What a block is owed.** -/
def Block.issues (b : Block) : List Issued :=
  match b.kind with
  | .connect | .reauth =>
      if b.ended b.commonName then [.send (clientAuth b.ids.cid b.ids.kid)]
      else [.send (clientDeny b.ids.cid b.ids.kid)]
  | .established => []
  | .disconnect =>
      [.disconnected b.commonName (parseInt64 (b.value "bytes_received".toList))
        (parseInt64 (b.value "bytes_sent".toList))]

def Piece.issues : Piece → List Issued
  | .block b => b.issues
  | .other _ _ _ => []

/-! ## Lines as the reader sees them -/

theorem stringsCut_append {sep : Char} {a : List Char} (h : sep ∉ a) (b : List Char) :
    stringsCut sep (a ++ sep :: b) = (a, b, true) := by
  have hne : ∀ c ∈ a, decide (c ≠ sep) = true := by
    intro c hc
    exact decide_eq_true fun heq => h (heq ▸ hc)
  rw [stringsCut, List.takeWhile_append_of_pos hne, List.dropWhile_append_of_pos hne]
  simp

theorem stringsCut_self {sep : Char} {a : List Char} (h : sep ∉ a) :
    stringsCut sep a = (a, [], false) := by
  have hne : ∀ c ∈ a, decide (c ≠ sep) = true := by
    intro c hc
    exact decide_eq_true fun heq => h (heq ▸ hc)
  rw [stringsCut, List.takeWhile_eq_self_iff.2 hne, List.dropWhile_eq_nil_iff.2 hne]
  simp [h]

/-- What was cut can be put together. -/
theorem stringsCut_cases (sep : Char) (s : List Char) :
    (sep ∉ s ∧ stringsCut sep s = (s, [], false)) ∨
      ∃ a b, sep ∉ a ∧ s = a ++ sep :: b ∧ stringsCut sep s = (a, b, true) := by
  by_cases h : sep ∈ s
  · obtain ⟨a, b, rfl, ha⟩ := List.eq_append_cons_of_mem h
    exact .inr ⟨a, b, ha, rfl, stringsCut_append ha b⟩
  · exact .inl ⟨h, stringsCut_self h⟩

theorem handleLines_append (current : Option ClientEvent) (l m : List (List Char × Names)) :
    handleLines current (l ++ m) =
      ((handleLines (handleLines current l).1 m).1,
        (handleLines current l).2 ++ (handleLines (handleLines current l).1 m).2) := by
  induction l generalizing current with
  | nil => rfl
  | cons p l ih =>
      simp only [List.cons_append, handleLines, ih, List.append_assoc]

/-- Of a line about a client the first word decides, -/
theorem handleEvent_clientLine (registered : Names) (current : Option ClientEvent)
    (body : List Char) : handleEvent registered current (clientLine body) =
      handleWord registered current (stringsCut ',' body).1 (stringsCut ',' body).2.1 := by
  have hclient : ">CLIENT:".toList.isPrefixOf (clientLine body) = true :=
    List.isPrefixOf_iff_prefix.2 (List.prefix_append _ _)
  have hdrop : (clientLine body).drop 8 = body := List.drop_left' rfl
  unfold handleEvent
  rw [hclient, hdrop]
  rfl

/-- and others are left alone. -/
theorem handleEvent_elsewhere {line : List Char} (h : ∀ body, line ≠ clientLine body)
    (registered : Names) (current : Option ClientEvent) :
    handleEvent registered current line = (current, []) := by
  have hclient : ">CLIENT:".toList.isPrefixOf line = false := by
    refine Bool.eq_false_iff.2 fun hpre => ?_
    obtain ⟨body, hbody⟩ := List.isPrefixOf_iff_prefix.1 hpre
    exact h body hbody.symm
  rw [handleEvent, if_pos hclient]

theorem eventKind_text (kind : EventKind) : eventKind kind.text = some kind := by
  cases kind <;> rfl

theorem text_of_eventKind {word : List Char} {kind : EventKind} (h : eventKind word = some kind) :
    word = kind.text := by
  have hfound := List.find?_some h
  exact (eq_of_beq hfound).symm

theorem comma_not_mem_text (kind : EventKind) : ',' ∉ kind.text := by
  cases kind <;> decide

theorem handleWord_kind (registered : Names) (current : Option ClientEvent) (kind : EventKind)
    (rest : List Char) : handleWord registered current kind.text rest =
      (some ⟨kind, (stringsCut ',' rest).1, (stringsCut ',' rest).2.1, fun _ => []⟩, []) := by
  unfold handleWord
  rw [eventKind_text]

theorem handleWord_env (registered : Names) (ev : ClientEvent) (rest : List Char) :
    handleWord registered (some ev) "ENV".toList rest =
      if rest = "END".toList then (none, finishEvent registered ev)
      else if (stringsCut '=' rest).2.2 then
        (some { ev with
          env := Function.update ev.env (stringsCut '=' rest).1 (stringsCut '=' rest).2.1 }, [])
      else (some ev, []) := rfl

/-- The first line of a block begins it, whatever was before. -/
theorem handle_header (registered : Names) (current : Option ClientEvent) (kind : EventKind)
    (ids : Ids) : handleEvent registered current (header kind ids) =
      (some ⟨kind, ids.cid, ids.kid, fun _ => []⟩, []) := by
  have hcomma := comma_not_mem_text kind
  rw [header, handleEvent_clientLine]
  cases ids with
  | none =>
      rw [Ids.text, List.append_nil, stringsCut_self hcomma, handleWord_kind]
      rfl
  | client cid h =>
      rw [Ids.text, stringsCut_append hcomma, handleWord_kind, stringsCut_self h]
      rfl
  | key cid h kid =>
      rw [Ids.text, stringsCut_append hcomma, handleWord_kind, stringsCut_append h]
      rfl

/-- A line whose word is an event is the first of a block. -/
theorem header_of_eventKind {body : List Char} {kind : EventKind}
    (h : eventKind (stringsCut ',' body).1 = some kind) : ∃ ids, clientLine body = header kind ids := by
  have hword := text_of_eventKind h
  rcases stringsCut_cases ',' body with ⟨-, heq⟩ | ⟨word, rest, -, rfl, heq⟩
  · rw [heq] at hword
    exact ⟨.none, by rw [header, Ids.text, List.append_nil]; exact congrArg clientLine hword⟩
  · rw [heq] at hword
    cases hword
    rcases stringsCut_cases ',' rest with ⟨hcid, -⟩ | ⟨cid, kid, hcid, rfl, -⟩
    · exact ⟨.client rest hcid, rfl⟩
    · exact ⟨.key cid hcid kid, rfl⟩

theorem eventKind_of_notHeader {body : List Char} (h : NotHeader (clientLine body)) :
    eventKind (stringsCut ',' body).1 = none := by
  cases hkind : eventKind (stringsCut ',' body).1 with
  | none => rfl
  | some kind =>
      obtain ⟨ids, heq⟩ := header_of_eventKind hkind
      exact absurd heq (h kind ids)

/-- Between blocks, lines that start none are passed over. -/
theorem handle_other {line : List Char} (h : NotHeader line) (registered : Names) :
    handleEvent registered none line = (none, []) := by
  by_cases hclient : ∃ body, line = clientLine body
  · obtain ⟨body, rfl⟩ := hclient
    rw [handleEvent_clientLine]
    unfold handleWord
    rw [eventKind_of_notHeader h]
    exact ite_self _
  · exact handleEvent_elsewhere (fun body heq => hclient ⟨body, heq⟩) registered none

/-- The environment after a line inside a block. -/
def Inner.update (env : List Char → List Char) : Inner → List Char → List Char
  | .pair name value _ => Function.update env name value
  | .other _ _ _ _ => env

theorem handleEvent_envLine (registered : Names) (current : Option ClientEvent)
    (body : List Char) : handleEvent registered current (envLine body) =
      handleWord registered current "ENV".toList body := by
  have hcut : stringsCut ',' ("ENV,".toList ++ body) = ("ENV".toList, body, true) :=
    stringsCut_append (a := "ENV".toList) (by decide) body
  rw [envLine, handleEvent_clientLine, hcut]

/-- Inside a block, a pair goes into its environment and other lines are passed over. -/
theorem handle_inner (registered : Names) (ev : ClientEvent) (line : Inner) :
    handleEvent registered (some ev) line.line =
      (some { ev with env := line.update ev.env }, []) := by
  cases line with
  | pair name value h =>
      have hend : name ++ '=' :: value ≠ "END".toList := by
        intro heq
        have hmem : '=' ∈ name ++ '=' :: value := by simp
        rw [heq] at hmem
        exact absurd hmem (by decide)
      rw [Inner.line, handleEvent_envLine, handleWord_env, if_neg hend, stringsCut_append h]
      rfl
  | other line hhead hend hpair =>
      show handleEvent registered (some ev) line = (some ev, [])
      by_cases hclient : ∃ body, line = clientLine body
      · obtain ⟨body, rfl⟩ := hclient
        rw [handleEvent_clientLine]
        by_cases hword : (stringsCut ',' body).1 = "ENV".toList
        · rw [hword, handleWord_env]
          rcases stringsCut_cases ',' body with ⟨-, heq⟩ | ⟨word, rest, -, rfl, heq⟩
          · rw [heq]
            rfl
          · rw [heq] at hword ⊢
            cases hword
            rw [if_neg fun heq => hend (congrArg envLine heq)]
            rcases stringsCut_cases '=' rest with ⟨-, heq⟩ | ⟨name, value, -, rfl, -⟩
            · rw [heq]
              rfl
            · exact absurd rfl (hpair name value)
        · unfold handleWord
          rw [eventKind_of_notHeader hhead]
          exact if_neg hword
      · exact handleEvent_elsewhere (fun body heq => hclient ⟨body, heq⟩) registered _

/-- Its last line completes it. -/
theorem handle_end (registered : Names) (ev : ClientEvent) :
    handleEvent registered (some ev) (envLine "END".toList) = (none, finishEvent registered ev) := by
  rw [handleEvent_envLine]
  rfl

/-! ## Blocks -/

/-- The lines inside a block, one after another. -/
theorem handle_inners (ev : ClientEvent) (inner : List (Inner × Names)) :
    handleLines (some ev) (inner.map fun p => (p.1.line, p.2)) =
      (some { ev with env := inner.foldl (fun env p => p.1.update env) ev.env }, []) := by
  induction inner generalizing ev with
  | nil => rfl
  | cons p inner ih =>
      rw [List.map_cons, handleLines, handle_inner]
      dsimp only
      rw [ih]
      rfl

/-- The environment has the last value of each name. -/
theorem env_eq_value (b : Block) (name : List Char) :
    b.inner.foldl (fun env p => p.1.update env) (fun _ => []) name = b.value name := by
  unfold Block.value
  induction b.inner using List.reverseRecOn with
  | nil => rfl
  | append_singleton inner p ih =>
      rw [List.foldl_append, List.reverse_append, List.reverse_singleton, List.singleton_append,
        List.findSome?_cons]
      obtain ⟨line, registered⟩ := p
      cases line with
      | pair name' value h =>
          show Function.update (inner.foldl (fun env p => p.1.update env) fun _ => []) name' value
            name = _
          by_cases hname : name' = name
          · subst hname
            simp
          · rw [Function.update_of_ne (Ne.symm hname), ih]
            simp [hname]
      | other line _ _ _ => exact ih

/-- **A block gets what it is owed**, whatever the reader was in before it. -/
theorem handle_block (current : Option ClientEvent) (b : Block) :
    handleLines current b.lines = (none, b.issues) := by
  have hfinish : finishEvent b.ended ⟨b.kind, b.ids.cid, b.ids.kid,
      b.inner.foldl (fun env p => p.1.update env) fun _ => []⟩ = b.issues := by
    unfold finishEvent Block.issues Block.commonName
    simp only [env_eq_value]
  rw [Block.lines, List.cons_append, handleLines, handle_header]
  dsimp only
  rw [handleLines_append, handle_inners]
  dsimp only
  rw [handleLines, handle_end, hfinish]
  exact congrArg (Prod.mk none) (List.append_nil _)

/-- **Every block gets what it is owed, and nothing else happens**, for any sequence of blocks
with other lines in between. -/
theorem events_answered (pieces : List Piece) :
    handleLines none (pieces.flatMap Piece.lines) = (none, pieces.flatMap Piece.issues) := by
  induction pieces with
  | nil => rfl
  | cons piece pieces ih =>
      have hpiece : handleLines none piece.lines = (none, piece.issues) := by
        cases piece with
        | block b => exact handle_block none b
        | other line h registered =>
            rw [Piece.lines, handleLines, handle_other h]
            rfl
      rw [List.flatMap_cons, List.flatMap_cons, handleLines_append, hpiece]
      dsimp only
      rw [ih]

example : (handleLines none ([">CLIENT:CONNECT,0,1", ">CLIENT:ENV,common_name=a", ">BYTECOUNT:1,2",
    ">CLIENT:ENV,END", ">CLIENT:ENV,common_name=b", ">CLIENT:REAUTH,3,4", ">CLIENT:ENV,X509_0_CN=b",
    ">CLIENT:ENV,END"].map fun line => (line.toList, fun cn => cn == ['a']))).2 =
    [.send "client-auth-nt 0 1".toList,
      .send "client-deny 3 4 \"not a registered peer\"".toList] := by decide

/-! ## Counters

A counter in an event is a decimal number, and `parseCount` is what the node makes of it. -/

theorem le_ofDigitChars (n : Nat) (s : List Char) : n ≤ Nat.ofDigitChars 10 s n := by
  induction s generalizing n with
  | nil => exact Nat.le_refl _
  | cons c s ih =>
      rw [Nat.ofDigitChars_cons]
      exact Nat.le_trans (by omega) (ih _)

/-- A number in decimal is read as what it is, or as the largest one. -/
theorem parseUint64_digits {n : Nat} {s : List Char} (hn : n < 2 ^ 64)
    (hs : ∀ c ∈ s, c.isDigit = true) :
    parseUint64 n s = some (min (Nat.ofDigitChars 10 s n) (2 ^ 64 - 1)) := by
  induction s generalizing n with
  | nil =>
      rw [parseUint64, Nat.ofDigitChars_nil, Nat.min_eq_left (by omega)]
  | cons c s ih =>
      have hdigit := hs c List.mem_cons_self
      have hcomm : n * 10 = 10 * n := Nat.mul_comm n 10
      rw [parseUint64, if_pos hdigit, Nat.ofDigitChars_cons, hcomm]
      split
      · have hle := le_ofDigitChars (10 * n + (c.toNat - '0'.toNat)) s
        rw [Nat.min_eq_right (by omega)]
      · exact ih (by omega) fun d hd => hs d (List.mem_cons_of_mem _ hd)

/-- **A counter's text is read as `parseCount` has it.** -/
theorem parseInt64_toDigits (n : Nat) : parseInt64 (Nat.toDigits 10 n) = parseCount n := by
  have hdigits : ∀ c ∈ Nat.toDigits 10 n, c.isDigit = true := fun c hc =>
    Nat.isDigit_of_mem_toDigits (by decide) (by decide) hc
  have hsign : cutSign (Nat.toDigits 10 n) = (false, Nat.toDigits 10 n) := by
    unfold cutSign
    split
    · rename_i heq
      exact absurd (hdigits '-' (heq ▸ List.mem_cons_self)) (by decide)
    · rename_i heq
      exact absurd (hdigits '+' (heq ▸ List.mem_cons_self)) (by decide)
    · rfl
  have hread := parseUint64_digits (n := 0) (by decide) hdigits
  rw [Nat.ofDigitChars_ten_toDigits] at hread
  unfold parseInt64 parseCount
  rw [hsign]
  dsimp only
  rw [if_neg Nat.toDigits_ne_nil, hread]
  by_cases hfits : n < 2 ^ 63
  · have hmin : min n (2 ^ 64 - 1) = n := Nat.min_eq_left (by omega)
    rw [hmin, if_pos hfits]
    exact (if_neg Bool.false_ne_true).trans (if_neg (Nat.not_le.2 hfits))
  · have hlarge : 2 ^ 63 ≤ min n (2 ^ 64 - 1) := Nat.le_min.2 ⟨by omega, by decide⟩
    rw [if_neg hfits]
    exact (if_neg Bool.false_ne_true).trans (if_pos hlarge)

end Dvpnd
