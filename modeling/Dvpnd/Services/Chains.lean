import Dvpnd.Lib.Crash
import Dvpnd.Lib.Steps
import Dvpnd.Services.Egress

/-!
# Chains that survive a crash

`services/common/egress.go` puts the rules of the egress policy into chains of the node's
own, and jumps to them from the chains `iptables` has.  `up` and `down` are runs of commands,
**and a node may die between any two of them**; the next `up` or `down` starts from what is
left.

* `FilterTable`, `FilterTable.command` — the chains of one address family, and what `iptables` does to
  them; a command that cannot be carried out fails and changes nothing.
* `Layout`, `Chains` — the names and jumps, and the rules of one policy;
  `TunnelEgress.chains`, `ProxyEgress.chains` — those of the services.
* `Chains.up`, `Layout.down` — the two runs of commands.
* `Layout.Sound` — what is so wherever a run is cut off.
* `up_down_recover` — **whatever runs came before, cut off wherever, a complete `up` installs
  the current policy and a complete `down` leaves nothing.**
-/

namespace Dvpnd

open Effect (Prog Machine)

/-! ## Tables -/

/-- The chains of one family: which there are, and their rules, as the arguments after the
name of the chain. -/
structure FilterTable where
  names : List String
  rules : String → List (List String)

/-- The chains `iptables` has of itself. -/
def builtins : List String := ["FORWARD", "INPUT", "OUTPUT"]

/-- The targets that are no chains. -/
def targets : List String := ["ACCEPT", "DROP", "REJECT"]

/-- Where a rule sends a packet. -/
def target (rule : List String) : Option String :=
  if rule.dropLast.getLast? = some "-j" then rule.getLast? else none

namespace FilterTable

/-- Some rule of some chain jumps to the chain. -/
def Referenced (t : FilterTable) (chain : String) : Prop :=
  ∃ c ∈ t.names, ∃ r ∈ t.rules c, target r = some chain

instance (t : FilterTable) (chain : String) : Decidable (t.Referenced chain) :=
  inferInstanceAs (Decidable (∃ c ∈ t.names, ∃ r ∈ t.rules c, target r = some chain))

/-- The rule has a target that is there. -/
def Known (t : FilterTable) (rule : List String) : Prop := ∃ x ∈ target rule, x ∈ targets ∨ x ∈ t.names

instance (t : FilterTable) (rule : List String) : Decidable (t.Known rule) :=
  inferInstanceAs (Decidable (∃ x ∈ target rule, x ∈ targets ∨ x ∈ t.names))

/-- The table with other rules in a chain. -/
def put (t : FilterTable) (chain : String) (rules : List (List String)) : FilterTable :=
  { t with rules := Function.update t.rules chain rules }

/-- `-N`. -/
def newChain (t : FilterTable) (chain : String) : Bool × FilterTable :=
  if chain ∈ t.names then (false, t) else (true, { t.put chain [] with names := chain :: t.names })

/-- `-F`. -/
def flush (t : FilterTable) (chain : String) : Bool × FilterTable :=
  if chain ∈ t.names then (true, t.put chain []) else (false, t)

/-- `-X`. -/
def deleteChain (t : FilterTable) (chain : String) : Bool × FilterTable :=
  if chain ∈ t.names ∧ t.rules chain = [] ∧ ¬ t.Referenced chain then
    (true, { t with names := t.names.filter (· ≠ chain) })
  else (false, t)

/-- `-A`. -/
def append (t : FilterTable) (chain : String) (rule : List String) : Bool × FilterTable :=
  if chain ∈ t.names ∧ t.Known rule then (true, t.put chain (t.rules chain ++ [rule]))
  else (false, t)

/-- `-I`, at the top. -/
def insert (t : FilterTable) (chain : String) (rule : List String) : Bool × FilterTable :=
  if chain ∈ t.names ∧ t.Known rule then (true, t.put chain (rule :: t.rules chain)) else (false, t)

/-- `-D`. -/
def delete (t : FilterTable) (chain : String) (rule : List String) : Bool × FilterTable :=
  if chain ∈ t.names ∧ rule ∈ t.rules chain then (true, t.put chain ((t.rules chain).erase rule))
  else (false, t)

/-- A command: whether it could be carried out, and the table after it. -/
def command : List String → FilterTable → Bool × FilterTable
  | "-N" :: chain :: _, t => t.newChain chain
  | "-F" :: chain :: _, t => t.flush chain
  | "-X" :: chain :: _, t => t.deleteChain chain
  | "-A" :: chain :: rule, t => t.append chain rule
  | "-I" :: chain :: "1" :: rule, t => t.insert chain rule
  | "-C" :: chain :: rule, t => (decide (chain ∈ t.names ∧ rule ∈ t.rules chain), t)
  | "-D" :: chain :: rule, t => t.delete chain rule
  | _, t => (false, t)

end FilterTable

/-- The tool of one family. -/
def tables : Machine (fun _ : List String => Bool) Unit FilterTable where
  exec := FilterTable.command
  acquire _ t := t

/-! ## The chains of the node -/

/-- The names and jumps of `chains`.  A jump is the name of a chain `iptables` has and a rule
of it that ends in one of the names. -/
structure Layout where
  names : List String
  jumps : List (List String)
  names_own : ∀ name ∈ names, name ∉ builtins ∧ name ∉ targets
  jumps_own : ∀ j ∈ jumps, ∃ b ∈ builtins, ∃ m, ∃ name ∈ names, j = b :: m ++ ["-j", name]

/-- `chains`: the rules of a policy are for the chains of the layout and jump to none. -/
structure Chains (l : Layout) where
  rules : Family → List (List String)
  rules_own : ∀ f, ∀ r ∈ rules f, ∃ name ∈ l.names, ∃ m, ∃ x ∈ targets,
    r = "-A" :: name :: m ++ ["-j", x]

/-- `RunQuiet`: whether the command could be carried out. -/
def runQuiet (args : List String) : Prog (fun _ : List String => Bool) Bool := Prog.perform args

/-- `run`: the error, when it could not. -/
def runCommand (tool : String) (args : List String) :
    Prog (fun _ : List String => Bool) (Option String) :=
  runQuiet args >>= fun ok =>
    let text := " ".intercalate args
    .ret (if ok then none else some s!"{tool} {text}: exit status 1")

/-- A chain of its own in `up`: a new one, or an old one without its rules. -/
def emptyChain (tool name : String) : Prog (fun _ : List String => Bool) (Option String) :=
  runQuiet ["-N", name] >>= fun ok =>
    if ok then .ret none else runCommand tool ["-F", name]

/-- A jump in `up`, which is put at the top unless it is there. -/
def ensureJump (tool : String) (jump : List String) :
    Prog (fun _ : List String => Bool) (Option String) :=
  runQuiet ("-C" :: jump) >>= fun ok =>
    if ok then .ret none else runCommand tool ("-I" :: jump.headD "" :: "1" :: jump.tail)

variable {l : Layout}

/-- What `up` does for one family. -/
def Chains.upFamily (c : Chains l) (f : Family) :
    Prog (fun _ : List String => Bool) (Option String) :=
  (Prog.each (emptyChain f.tool) l.names).andThen <|
    (Prog.each (runCommand f.tool) (c.rules f)).andThen <|
      Prog.each (ensureJump f.tool) l.jumps

/-- `up`. -/
def Chains.up (c : Chains l) (fs : List Family) :
    Prog (fun _ : String × List String => Bool) (Option String) :=
  Prog.each (fun f => (c.upFamily f).at f.tool) fs

/-- A jump in `down`, which does not mind if it is not there. -/
def dropJump (jump : List String) : Prog (fun _ : List String => Bool) (Option String) :=
  runQuiet ("-D" :: jump) >>= fun _ => .ret none

/-- A chain in `down`. -/
def dropChain (name : String) : Prog (fun _ : List String => Bool) (Option String) :=
  runQuiet ["-F", name] >>= fun _ => runQuiet ["-X", name] >>= fun _ => .ret none

/-- What `down` does for one family. -/
def Layout.downFamily (l : Layout) : Prog (fun _ : List String => Bool) (Option String) :=
  (Prog.each dropJump l.jumps).andThen (Prog.each dropChain l.names)

/-- `down`. -/
def Layout.down (l : Layout) (fs : List Family) :
    Prog (fun _ : String × List String => Bool) (Option String) :=
  Prog.each (fun f => l.downFamily.at f.tool) fs

/-! ### The services' chains -/

/-- Every condition of the policy is a rule of the form the layout asks for. -/
theorem Rule.args_form (r : Rule) :
    ∃ m, ∃ x ∈ targets, r.args = "-A" :: r.chain :: m ++ ["-j", x] := by
  refine ⟨r.conditions.flatMap Match.args, r.target.text, ?_, rfl⟩
  cases r.target with
  | accept => decide
  | drop => decide
  | reject => decide

/-- The names and jumps of a tunnel. -/
def TunnelEgress.layout (e : TunnelEgress) : Layout where
  names := [e.forwardChain, e.inputChain]
  jumps := [["FORWARD", "-i", e.interface, "-j", e.forwardChain],
    ["INPUT", "-i", e.interface, "-j", e.inputChain]]
  names_own := by
    have hown : ∀ x ∈ builtins ++ targets, x.toList.take 5 ≠ "DVPND".toList := by decide
    have hname : ∀ name ∈ [e.forwardChain, e.inputChain], name.toList.take 5 = "DVPND".toList := by
      simp [forwardChain, inputChain]
    intro name h
    exact ⟨fun hb => hown name (List.mem_append_left _ hb) (hname name h),
      fun ht => hown name (List.mem_append_right _ ht) (hname name h)⟩
  jumps_own := by
    intro j hj
    simp only [List.mem_cons, List.not_mem_nil, or_false] at hj
    rcases hj with rfl | rfl
    · exact ⟨"FORWARD", by decide, ["-i", e.interface], e.forwardChain, by simp, rfl⟩
    · exact ⟨"INPUT", by decide, ["-i", e.interface], e.inputChain, by simp, rfl⟩

/-- `TunnelEgress.chains`. -/
def TunnelEgress.chains (e : TunnelEgress) (policy : Egress) : Chains e.layout where
  rules f := (e.rules policy f).map Rule.args
  rules_own := by
    intro f args h
    obtain ⟨r, hr, rfl⟩ := List.mem_map.1 h
    obtain ⟨m, x, hx, heq⟩ := r.args_form
    refine ⟨r.chain, ?_, m, x, hx, heq⟩
    rcases List.mem_append.1 hr with hr | hr
    · exact (of_forwardRules hr).1 ▸ List.mem_cons_self
    · exact of_inputRules hr ▸ List.mem_cons_of_mem _ List.mem_cons_self

/-- The name and jump of a proxy. -/
def ProxyEgress.layout (e : ProxyEgress) : Layout where
  names := [proxyChain]
  jumps := [["OUTPUT", "-m", "owner", "--uid-owner", toString e.uid, "-j", proxyChain]]
  names_own := by decide
  jumps_own := by
    intro j hj
    obtain rfl := List.mem_singleton.1 hj
    exact ⟨"OUTPUT", by decide, ["-m", "owner", "--uid-owner", toString e.uid], proxyChain,
      List.mem_cons_self, rfl⟩

/-- `ProxyEgress.chains`. -/
def ProxyEgress.chains (e : ProxyEgress) (policy : Egress) (resolvers : List HostIP) :
    Chains e.layout where
  rules f := (e.rules policy resolvers f).map Rule.args
  rules_own := by
    intro f args h
    obtain ⟨r, hr, rfl⟩ := List.mem_map.1 h
    obtain ⟨m, x, hx, heq⟩ := r.args_form
    exact ⟨r.chain, of_rules hr ▸ List.mem_cons_self, m, x, hx, heq⟩

/-! ## What holds wherever a run stops -/

theorem target_jump (m : List String) (x : String) : target (m ++ ["-j", x]) = some x := by
  have hsplit : m ++ ["-j", x] = m ++ ["-j"] ++ [x] := by simp
  rw [target, hsplit, List.dropLast_concat, List.getLast?_concat, List.getLast?_concat, if_pos rfl]

/-- A rule that jumps to none of the node's chains. -/
def Layout.Foreign (l : Layout) (rule : List String) : Prop := ∀ name ∈ l.names, target rule ≠ some name

/-- What is so of a table at any time.  In front of the rules the chains of `iptables` have
from elsewhere, `base`, there are jumps of the node, none twice; no other rule jumps to a
chain of the node. -/
structure Layout.Sound (l : Layout) (base : String → List (List String)) (t : FilterTable) : Prop where
  builtin : ∀ b ∈ builtins, b ∈ t.names
  front : ∀ b ∈ builtins, ∃ js, t.rules b = js ++ base b ∧ js.Nodup ∧ ∀ j ∈ js, b :: j ∈ l.jumps
  foreign : ∀ b ∈ builtins, ∀ r ∈ base b, l.Foreign r
  others : ∀ chain ∈ t.names, chain ∉ builtins → ∀ r ∈ t.rules chain, l.Foreign r

variable {base : String → List (List String)} {t : FilterTable}

/-- A jump is for a chain `iptables` has, and its rule is not foreign. -/
theorem Layout.jump_cases {b : String} {j : List String} (h : b :: j ∈ l.jumps) :
    b ∈ builtins ∧ ∃ name ∈ l.names, target j = some name := by
  obtain ⟨b', hb, m, name, hname, heq⟩ := l.jumps_own _ h
  obtain ⟨rfl, rfl⟩ := List.cons.inj heq
  exact ⟨hb, name, hname, target_jump m name⟩

theorem Layout.jump_not_foreign {b : String} {j : List String} (h : b :: j ∈ l.jumps) :
    ¬ l.Foreign j := by
  obtain ⟨-, name, hname, htarget⟩ := jump_cases h
  exact fun hf => hf name hname htarget

namespace Layout.Sound

/-- A jump is never among the rules from elsewhere. -/
theorem jump_notMem (h : l.Sound base t) {b : String} {j : List String} (hj : b :: j ∈ l.jumps) :
    j ∉ base b :=
  fun hin => jump_not_foreign hj (h.foreign b (jump_cases hj).1 j hin)

/-- Other rules in a chain of the node. -/
theorem put_own (h : l.Sound base t) {name : String} (hname : name ∈ l.names)
    {rules : List (List String)} (hrules : ∀ r ∈ rules, l.Foreign r) :
    l.Sound base (t.put name rules) where
  builtin := h.builtin
  front b hb := by
    have hne : b ≠ name := fun heq => (l.names_own name hname).1 (heq ▸ hb)
    show ∃ js, Function.update t.rules name rules b = _ ∧ _
    rw [Function.update_of_ne hne]
    exact h.front b hb
  foreign := h.foreign
  others chain hc hb r hr := by
    change r ∈ Function.update t.rules name rules chain at hr
    by_cases heq : chain = name
    · rw [heq, Function.update_self] at hr
      exact hrules r hr
    · rw [Function.update_of_ne heq] at hr
      exact h.others chain hc hb r hr

/-- Other jumps in a chain `iptables` has. -/
theorem put_front (h : l.Sound base t) {b : String} (hb : b ∈ builtins) {js : List (List String)}
    (hnodup : js.Nodup) (hjs : ∀ j ∈ js, b :: j ∈ l.jumps) :
    l.Sound base (t.put b (js ++ base b)) where
  builtin := h.builtin
  front b' hb' := by
    show ∃ js', Function.update t.rules b (js ++ base b) b' = _ ∧ _
    by_cases heq : b' = b
    · subst heq
      rw [Function.update_self]
      exact ⟨js, rfl, hnodup, hjs⟩
    · rw [Function.update_of_ne heq]
      exact h.front b' hb'
  foreign := h.foreign
  others chain hc hnot r hr := by
    change r ∈ Function.update t.rules b (js ++ base b) chain at hr
    have hne : chain ≠ b := fun heq => hnot (heq ▸ hb)
    rw [Function.update_of_ne hne] at hr
    exact h.others chain hc hnot r hr

/-- A new chain of the node. -/
theorem newChain (h : l.Sound base t) {name : String} (hname : name ∈ l.names) :
    l.Sound base (t.newChain name).2 := by
  unfold FilterTable.newChain
  split
  · exact h
  · have hput : l.Sound base (t.put name []) :=
      h.put_own hname fun r hr => absurd hr List.not_mem_nil
    refine { hput with builtin := fun b hb => List.mem_cons_of_mem _ (h.builtin b hb), others := ?_ }
    intro chain hc hb r hr
    rcases List.mem_cons.1 hc with rfl | hc
    · change r ∈ Function.update t.rules chain [] chain at hr
      rw [Function.update_self] at hr
      cases hr
    · exact hput.others chain hc hb r hr

theorem flush (h : l.Sound base t) {name : String} (hname : name ∈ l.names) :
    l.Sound base (t.flush name).2 := by
  unfold FilterTable.flush
  split
  · exact h.put_own hname fun r hr => absurd hr List.not_mem_nil
  · exact h

theorem deleteChain (h : l.Sound base t) {name : String} (hname : name ∈ l.names) :
    l.Sound base (t.deleteChain name).2 := by
  unfold FilterTable.deleteChain
  split
  · refine { h with builtin := fun b hb => ?_, others := fun chain hc => ?_ }
    · refine List.mem_filter.2 ⟨h.builtin b hb, decide_eq_true fun heq => ?_⟩
      exact (l.names_own name hname).1 (heq ▸ hb)
    · exact h.others chain (List.mem_of_mem_filter hc)
  · exact h

theorem put_insert (h : l.Sound base t) {b : String} {j : List String} (hj : b :: j ∈ l.jumps)
    (hnew : j ∉ t.rules b) : l.Sound base (t.put b (j :: t.rules b)) := by
  have hb := (jump_cases hj).1
  obtain ⟨js, heq, hnodup, hjs⟩ := h.front b hb
  rw [heq] at hnew ⊢
  have hnodup' : (j :: js).Nodup :=
    List.nodup_cons.2 ⟨fun hin => hnew (List.mem_append_left _ hin), hnodup⟩
  refine h.put_front hb hnodup' fun x hx => ?_
  rcases List.mem_cons.1 hx with rfl | hx
  · exact hj
  · exact hjs x hx

/-- Deleting a jump leaves the rules from elsewhere. -/
theorem put_erase (h : l.Sound base t) {b : String} {j : List String} (hj : b :: j ∈ l.jumps) :
    l.Sound base (t.put b ((t.rules b).erase j)) ∧ j ∉ (t.rules b).erase j := by
  have hb := (jump_cases hj).1
  obtain ⟨js, heq, hnodup, hjs⟩ := h.front b hb
  have hbase := h.jump_notMem hj
  have herase : (js ++ base b).erase j = js.erase j ++ base b := by
    by_cases hin : j ∈ js
    · rw [List.erase_append_left _ hin]
    · rw [List.erase_append_right _ hin, List.erase_of_not_mem hbase, List.erase_of_not_mem hin]
  rw [heq, herase]
  refine ⟨h.put_front hb (hnodup.erase j) fun x hx => hjs x (List.mem_of_mem_erase hx), ?_⟩
  rw [List.mem_append, not_or]
  exact ⟨fun hin => (hnodup.mem_erase_iff.1 hin).1 rfl, hbase⟩

end Layout.Sound

/-! ## A complete `up` -/

open Effect.Prog (Safe Fine)

/-- The tables differ in the node's chains only. -/
structure Layout.Apart (l : Layout) (t t' : FilterTable) : Prop where
  names : ∀ x, x ∉ l.names → (x ∈ t'.names ↔ x ∈ t.names)
  rules : ∀ x, x ∉ l.names → t'.rules x = t.rules x

theorem Layout.Apart.refl (l : Layout) (t : FilterTable) : l.Apart t t :=
  ⟨fun _ _ => Iff.rfl, fun _ _ => rfl⟩

theorem Layout.Apart.trans {t₁ t₂ t₃ : FilterTable} (h : l.Apart t₁ t₂) (h' : l.Apart t₂ t₃) :
    l.Apart t₁ t₃ :=
  ⟨fun x hx => (h'.names x hx).trans (h.names x hx), fun x hx => (h'.rules x hx).trans (h.rules x hx)⟩

/-- A table with one chain emptied. -/
structure Emptied (name : String) (t t' : FilterTable) : Prop where
  rules : t'.rules = Function.update t.rules name []
  names : ∀ x, x ≠ name → (x ∈ t'.names ↔ x ∈ t.names)

theorem Emptied.apart {name : String} {t' : FilterTable} (h : Emptied name t t')
    (hname : name ∈ l.names) : l.Apart t t' where
  names x hx := h.names x fun heq => hx (heq ▸ hname)
  rules x hx := by
    have hne : x ≠ name := fun heq => hx (heq ▸ hname)
    rw [h.rules, Function.update_of_ne hne]

/-- A chain of the node is there and empty, and the other rules are as before. -/
theorem emptyChain_safe (h : l.Sound base t) (tool : String) {name : String}
    (hname : name ∈ l.names) :
    Safe tables () (fun t' => l.Sound base t' ∧ (t' = t ∨ Emptied name t t'))
      (Fine fun t' => l.Sound base t' ∧ Emptied name t t' ∧ name ∈ t'.names)
      (emptyChain tool name) t := by
  have hempty : l.Sound base (t.put name []) :=
    h.put_own hname fun r hr => absurd hr List.not_mem_nil
  have hnew := h.newChain hname
  refine .op ⟨h, .inl rfl⟩ ?_
  change Safe tables () _ _ (if (t.newChain name).1 = true then _ else _) (t.newChain name).2
  unfold FilterTable.newChain at hnew ⊢
  by_cases hin : name ∈ t.names
  · -- `-N` fails, and `-F` empties the chain that is there
    rw [if_pos hin]
    refine .op ⟨h, .inl rfl⟩ ?_
    change Safe tables () _ _ (.ret (if (t.flush name).1 = true then none else _)) (t.flush name).2
    rw [FilterTable.flush, if_pos hin]
    have hput : Emptied name t (t.put name []) := ⟨rfl, fun _ _ => Iff.rfl⟩
    exact .ret ⟨hempty, .inr hput⟩ ⟨rfl, hempty, hput, hin⟩
  · rw [if_neg hin] at hnew ⊢
    have hput : Emptied name t { t.put name [] with names := name :: t.names } :=
      ⟨rfl, fun x hx => by rw [List.mem_cons, or_iff_right hx]⟩
    exact .ret ⟨hnew, .inr hput⟩ ⟨rfl, hnew, hput, List.mem_cons_self⟩

/-- The chains of the layout are there, with the rules of a list that are theirs. -/
def Layout.Filled (l : Layout) (rules : List (List String)) (t : FilterTable) : Prop :=
  ∀ name ∈ l.names, name ∈ t.names ∧
    t.rules name = (rules.filter (·.getD 1 "" = name)).map (·.drop 2)

/-- Each chain of the node is as it was, or empty. -/
def Layout.Emptying (l : Layout) (t t' : FilterTable) : Prop := ∀ name ∈ l.names,
  (t'.rules name = t.rules name ∧ (name ∈ t'.names ↔ name ∈ t.names)) ∨ t'.rules name = []

theorem Layout.Emptying.emptied {t₁ t₂ : FilterTable} (h : l.Emptying t t₁) {x : String}
    (he : Emptied x t₁ t₂) : l.Emptying t t₂ := fun name hname => by
  rw [he.rules]
  by_cases hnx : name = x
  · rw [hnx, Function.update_self]
    exact .inr rfl
  · rw [Function.update_of_ne hnx, he.names name hnx]
    exact h name hname

/-- The ways a table can be between two commands of `up` from the table `t`.  The node's
chains are being emptied and filled, and nothing else has changed; or they are filled, and
the jumps go in. -/
inductive Chains.Underway (c : Chains l) (f : Family) (t t' : FilterTable) : Prop
  | filling (apart : l.Apart t t')
      (own : ∀ name ∈ l.names, (t'.rules name = t.rules name ∧ (name ∈ t'.names ↔ name ∈ t.names)) ∨
        ∃ done, done <+: c.rules f ∧
          t'.rules name = (done.filter (·.getD 1 "" = name)).map (·.drop 2))
  | jumping (names : ∀ x, x ∉ l.names → (x ∈ t'.names ↔ x ∈ t.names))
      (rules : ∀ x, x ∉ l.names → x ∉ builtins → t'.rules x = t.rules x)
      (filled : l.Filled (c.rules f) t')

theorem Chains.Underway.of_emptying {c : Chains l} {f : Family} {t' : FilterTable}
    (apart : l.Apart t t') (h : l.Emptying t t') : c.Underway f t t' :=
  .filling apart fun name hname => (h name hname).imp_right fun he => ⟨[], List.nil_prefix, he⟩

theorem Chains.Underway.of_filled {c : Chains l} {f : Family} {t' : FilterTable}
    (apart : l.Apart t t') {done : List (List String)} (hdone : done <+: c.rules f)
    (h : l.Filled done t') : c.Underway f t t' :=
  .filling apart fun name hname => .inr ⟨done, hdone, (h name hname).2⟩

theorem emptyChains_safe (c : Chains l) (f : Family) (h : l.Sound base t) :
    Safe tables () (fun t' => l.Sound base t' ∧ c.Underway f t t')
      (Fine fun t' => l.Sound base t' ∧ l.Apart t t' ∧ l.Filled [] t')
      (Prog.each (emptyChain f.tool) l.names) t := by
  refine (Safe.each (J := fun done t' => l.Sound base t' ∧ l.Apart t t' ∧ l.Emptying t t' ∧
    ∀ name ∈ done, name ∈ t'.names ∧ t'.rules name = []) (fun _ hJ => ⟨hJ.1, .of_emptying hJ.2.1 hJ.2.2.1⟩)
    ⟨h, .refl l t, fun _ _ => .inl ⟨rfl, Iff.rfl⟩, fun _ hin => absurd hin List.not_mem_nil⟩ ?_).mono
    (fun _ h => h) fun _ _ hpost => ⟨hpost.1, hpost.2.1, hpost.2.2.1, hpost.2.2.2.2⟩
  intro done x rest t' heq hJ
  obtain ⟨hsound, hapart, hown, hdone⟩ := hJ
  have hx : x ∈ l.names := heq ▸ List.mem_append_right _ List.mem_cons_self
  refine (emptyChain_safe hsound f.tool hx).mono ?_ ?_
  · rintro t'' ⟨hsound', rfl | he⟩
    · exact ⟨hsound', .of_emptying hapart hown⟩
    · exact ⟨hsound', .of_emptying (hapart.trans (he.apart hx)) (hown.emptied he)⟩
  · rintro _ t'' ⟨rfl, hsound', he, hin⟩
    refine ⟨rfl, hsound', hapart.trans (he.apart hx), hown.emptied he, fun name hname => ?_⟩
    rw [he.rules]
    by_cases hnx : name = x
    · rw [hnx, Function.update_self]
      exact ⟨hin, rfl⟩
    · have hdone' : name ∈ done := by
        rcases List.mem_append.1 hname with hname | hname
        · exact hname
        · exact absurd (List.mem_singleton.1 hname) hnx
      rw [Function.update_of_ne hnx]
      exact ⟨(he.names name hnx).2 (hdone name hdone').1, (hdone name hdone').2⟩

/-- A rule is appended to its chain. -/
theorem appendRule_safe (h : l.Sound base t) {done : List (List String)} (hfilled : l.Filled done t)
    (tool : String) {rule : List String}
    (hrule : ∃ name ∈ l.names, ∃ m, ∃ x ∈ targets, rule = "-A" :: name :: m ++ ["-j", x]) :
    Safe tables () (fun t' => l.Sound base t' ∧ l.Apart t t' ∧
        (l.Filled done t' ∨ l.Filled (done ++ [rule]) t'))
      (Fine fun t' => l.Sound base t' ∧ l.Apart t t' ∧ l.Filled (done ++ [rule]) t')
      (runCommand tool rule) t := by
  obtain ⟨name, hname, m, x, hx, rfl⟩ := hrule
  have hknown : name ∈ t.names ∧ t.Known (m ++ ["-j", x]) :=
    ⟨(hfilled name hname).1, x, target_jump m x, .inl hx⟩
  have hforeign : l.Foreign (m ++ ["-j", x]) := by
    intro own hown heq
    rw [target_jump] at heq
    exact (l.names_own own hown).2 (Option.some.inj heq ▸ hx)
  have hsound : l.Sound base (t.put name (t.rules name ++ [m ++ ["-j", x]])) := by
    refine h.put_own hname fun r hr => ?_
    rcases List.mem_append.1 hr with hr | hr
    · exact h.others name (hfilled name hname).1 (l.names_own name hname).1 r hr
    · exact (List.mem_singleton.1 hr) ▸ hforeign
  have hapart : l.Apart t (t.put name (t.rules name ++ [m ++ ["-j", x]])) := by
    refine ⟨fun _ _ => Iff.rfl, fun other hother => ?_⟩
    have hne : other ≠ name := fun heq => hother (heq ▸ hname)
    exact Function.update_of_ne hne _ _
  have hfilled' : l.Filled (done ++ ["-A" :: name :: m ++ ["-j", x]])
      (t.put name (t.rules name ++ [m ++ ["-j", x]])) := by
    refine fun own hown => ⟨(hfilled own hown).1, ?_⟩
    show Function.update t.rules name (t.rules name ++ [m ++ ["-j", x]]) own = _
    rw [List.filter_append, List.map_append, ← (hfilled own hown).2]
    by_cases heq : own = name
    · subst heq
      rw [Function.update_self]
      simp
    · rw [Function.update_of_ne heq]
      simp [Ne.symm heq]
  refine .op ⟨h, .refl l t, .inl hfilled⟩ ?_
  change Safe tables () _ _ (.ret (if (t.append name (m ++ ["-j", x])).1 = true then none else _))
    (t.append name (m ++ ["-j", x])).2
  rw [FilterTable.append, if_pos hknown]
  exact .ret ⟨hsound, hapart, .inr hfilled'⟩ ⟨rfl, hsound, hapart, hfilled'⟩

theorem appendRules_safe (c : Chains l) (f : Family) {t₁ : FilterTable} (h : l.Sound base t₁)
    (hapart : l.Apart t t₁) (hempty : l.Filled [] t₁) :
    Safe tables () (fun t' => l.Sound base t' ∧ c.Underway f t t')
      (Fine fun t' => l.Sound base t' ∧ l.Apart t t' ∧ l.Filled (c.rules f) t')
      (Prog.each (runCommand f.tool) (c.rules f)) t₁ := by
  refine Safe.each (J := fun done t' => l.Sound base t' ∧ l.Apart t t' ∧ l.Filled done t')
    (fun t' hJ => ⟨hJ.1, .of_filled hJ.2.1 (List.prefix_refl _) hJ.2.2⟩) ⟨h, hapart, hempty⟩ ?_
  intro done rule rest t' heq hJ
  have hdone : done <+: c.rules f := ⟨rule :: rest, heq.symm⟩
  have hdone' : done ++ [rule] <+: c.rules f := ⟨rest, by rw [heq, List.append_assoc]; rfl⟩
  refine (appendRule_safe hJ.1 hJ.2.2 f.tool
    (c.rules_own f rule (heq ▸ List.mem_append_right _ List.mem_cons_self))).mono ?_ ?_
  · rintro t'' ⟨hsound, hapart', hfilled | hfilled⟩
    · exact ⟨hsound, .of_filled (hJ.2.1.trans hapart') hdone hfilled⟩
    · exact ⟨hsound, .of_filled (hJ.2.1.trans hapart') hdone' hfilled⟩
  · rintro _ t'' ⟨rfl, hsound, hapart', hfilled⟩
    exact ⟨rfl, hsound, hJ.2.1.trans hapart', hfilled⟩

/-- A table with a jump at the top of a chain, or already in it. -/
structure Jumped (b : String) (j : List String) (t t' : FilterTable) : Prop where
  names : t'.names = t.names
  rules : ∀ x, x ≠ b → t'.rules x = t.rules x
  kept : ∀ r ∈ t.rules b, r ∈ t'.rules b
  there : j ∈ t'.rules b

theorem Jumped.filled {b : String} {j : List String} {t' : FilterTable} (h : Jumped b j t t')
    (hb : b ∈ builtins) {rules : List (List String)} (hfilled : l.Filled rules t) :
    l.Filled rules t' := fun own hown => by
  have hne : own ≠ b := fun heq => (l.names_own own hown).1 (heq ▸ hb)
  rw [h.names, h.rules own hne]
  exact hfilled own hown

/-- A jump is there, and nothing else has changed or gone. -/
theorem ensureJump_safe (h : l.Sound base t) {rules : List (List String)}
    (hfilled : l.Filled rules t) (tool : String) {b : String} {j : List String}
    (hj : b :: j ∈ l.jumps) :
    Safe tables () (fun t' => l.Sound base t' ∧ (t' = t ∨ Jumped b j t t'))
      (Fine fun t' => l.Sound base t' ∧ Jumped b j t t') (ensureJump tool (b :: j)) t := by
  obtain ⟨hb, name, hname, htarget⟩ := Layout.jump_cases hj
  have hin := h.builtin b hb
  refine .op ⟨h, .inl rfl⟩ ?_
  change Safe tables () _ _ (if decide (b ∈ t.names ∧ j ∈ t.rules b) = true then _ else _) t
  by_cases hthere : j ∈ t.rules b
  · rw [if_pos (decide_eq_true ⟨hin, hthere⟩)]
    exact .ret ⟨h, .inl rfl⟩ ⟨rfl, h, rfl, fun _ _ => rfl, fun _ hr => hr, hthere⟩
  · -- `-C` fails, and the jump goes to the top
    rw [if_neg fun hc => hthere (of_decide_eq_true hc).2]
    have hsound := h.put_insert hj hthere
    have hknown : b ∈ t.names ∧ t.Known j := ⟨hin, name, htarget, .inr (hfilled name hname).1⟩
    have hself : (t.put b (j :: t.rules b)).rules b = j :: t.rules b := Function.update_self _ _ _
    have hjumped : Jumped b j t (t.put b (j :: t.rules b)) := by
      refine ⟨rfl, fun x hx => Function.update_of_ne hx _ _, fun r hr => ?_, ?_⟩
      · rw [hself]
        exact List.mem_cons_of_mem _ hr
      · rw [hself]
        exact List.mem_cons_self
    refine .op ⟨h, .inl rfl⟩ ?_
    change Safe tables () _ _ (.ret (if (t.insert b j).1 = true then none else _)) (t.insert b j).2
    rw [FilterTable.insert, if_pos hknown]
    exact .ret ⟨hsound, .inr hjumped⟩ ⟨rfl, hsound, hjumped⟩

theorem ensureJumps_safe (c : Chains l) (f : Family) {t₁ : FilterTable} (h : l.Sound base t₁)
    (hapart : l.Apart t t₁) (hfilled : l.Filled (c.rules f) t₁) :
    Safe tables () (fun t' => l.Sound base t' ∧ c.Underway f t t')
      (Fine fun t' => (l.Sound base t' ∧ c.Underway f t t') ∧ l.Filled (c.rules f) t' ∧
        ∀ b j, b :: j ∈ l.jumps → j ∈ t'.rules b)
      (Prog.each (ensureJump f.tool) l.jumps) t₁ := by
  -- only the chains `iptables` has change
  have hunderway : ∀ t', t'.names = t₁.names → (∀ x, x ∉ builtins → t'.rules x = t₁.rules x) →
      l.Filled (c.rules f) t' → c.Underway f t t' := fun t' hnames hrules hfilled' =>
    .jumping (fun x hx => by rw [hnames]; exact hapart.names x hx)
      (fun x hx hb => (hrules x hb).trans (hapart.rules x hx)) hfilled'
  refine (Safe.each (J := fun done t' => (l.Sound base t' ∧ t'.names = t₁.names ∧
    (∀ x, x ∉ builtins → t'.rules x = t₁.rules x) ∧ l.Filled (c.rules f) t') ∧
    ∀ b j, b :: j ∈ done → j ∈ t'.rules b) (fun t' hJ => ⟨hJ.1.1, hunderway t' hJ.1.2.1 hJ.1.2.2.1 hJ.1.2.2.2⟩)
    ⟨⟨h, rfl, fun _ _ => rfl, hfilled⟩, fun _ _ hin => absurd hin List.not_mem_nil⟩ ?_).mono
    (fun _ h => h) fun _ t' hpost => ?_
  · intro done jump rest t' heq hJ
    obtain ⟨⟨hsound, hnames, hrules, hfilled'⟩, hdone⟩ := hJ
    have hjump : jump ∈ l.jumps := heq ▸ List.mem_append_right _ List.mem_cons_self
    obtain ⟨b, hb, m, name, -, rfl⟩ := l.jumps_own jump hjump
    have hrules' : ∀ {t''}, Jumped b (m ++ ["-j", name]) t' t'' →
        ∀ x, x ∉ builtins → t''.rules x = t₁.rules x := fun hjumped x hx =>
      (hjumped.rules x fun heq => hx (heq ▸ hb)).trans (hrules x hx)
    refine (ensureJump_safe hsound hfilled' f.tool hjump).mono ?_ ?_
    · rintro t'' ⟨hsound', rfl | hjumped⟩
      · exact ⟨hsound', hunderway _ hnames hrules hfilled'⟩
      · exact ⟨hsound', hunderway t'' (hjumped.names.trans hnames) (hrules' hjumped)
          (hjumped.filled hb hfilled')⟩
    · rintro _ t'' ⟨rfl, hsound', hjumped⟩
      refine ⟨rfl, ⟨hsound', hjumped.names.trans hnames, hrules' hjumped, hjumped.filled hb hfilled'⟩,
        fun b' j' hj' => ?_⟩
      rcases List.mem_append.1 hj' with hold | hnew
      · by_cases hbb : b' = b
        · rw [hbb] at hold ⊢
          exact hjumped.kept j' (hdone b j' hold)
        · rw [hjumped.rules b' hbb]
          exact hdone b' j' hold
      · obtain ⟨rfl, rfl⟩ := List.cons.inj (List.mem_singleton.1 hnew)
        exact hjumped.there
  · obtain ⟨hnone, ⟨hsound, hnames, hrules, hfilled'⟩, hjumps⟩ := hpost
    exact ⟨hnone, ⟨hsound, hunderway t' hnames hrules hfilled'⟩, hfilled', hjumps⟩

/-- A policy is installed in a table: each chain has exactly the policy's rules for it, in
order, and each jump is there once, ahead of all rules from elsewhere. -/
structure Chains.Installed (c : Chains l) (f : Family) (base : String → List (List String))
    (t : FilterTable) : Prop where
  chains : l.Filled (c.rules f) t
  jumps : ∀ b j, b :: j ∈ l.jumps →
    (t.rules b).count j = 1 ∧ ∃ front, t.rules b = front ++ base b ∧ j ∈ front

/-- A jump that is there is there once, in front. -/
theorem Layout.Sound.jump_once (h : l.Sound base t) {b : String} {j : List String}
    (hj : b :: j ∈ l.jumps) (hin : j ∈ t.rules b) :
    (t.rules b).count j = 1 ∧ ∃ front, t.rules b = front ++ base b ∧ j ∈ front := by
  obtain ⟨js, heq, hnodup, -⟩ := h.front b (jump_cases hj).1
  have hbase := h.jump_notMem hj
  have hjs : j ∈ js := by
    rw [heq] at hin
    exact (List.mem_append.1 hin).resolve_right hbase
  refine ⟨?_, js, heq, hjs⟩
  rw [heq, List.count_append, List.count_eq_one_of_mem hnodup hjs, List.count_eq_zero.2 hbase]

theorem Chains.upFamily_safe (c : Chains l) (f : Family) (h : l.Sound base t) :
    Safe tables () (fun t' => l.Sound base t' ∧ c.Underway f t t')
      (Fine fun t' => (l.Sound base t' ∧ c.Underway f t t') ∧ c.Installed f base t')
      (c.upFamily f) t := by
  refine (emptyChains_safe c f h).andThen fun t₁ h₁ => ?_
  refine (appendRules_safe c f h₁.1 h₁.2.1 h₁.2.2).andThen fun t₂ h₂ => ?_
  refine (ensureJumps_safe c f h₂.1 h₂.2.1 h₂.2.2).mono (fun _ h => h) ?_
  rintro _ t₃ ⟨rfl, hboth, hfilled, hjumps⟩
  exact ⟨rfl, hboth, hfilled, fun b j hj => hboth.1.jump_once hj (hjumps b j hj)⟩

/-! ## A complete `down` -/

/-- The table has none of the node's jumps. -/
def Layout.Unjumped (l : Layout) (t : FilterTable) : Prop :=
  ∀ b j, b :: j ∈ l.jumps → j ∉ t.rules b

/-- Nothing of the node is left in a table. -/
structure Layout.Gone (l : Layout) (t : FilterTable) : Prop where
  chains : ∀ name ∈ l.names, name ∉ t.names
  jumps : l.Unjumped t

theorem dropJump_safe (h : l.Sound base t) {b : String} {j : List String} (hj : b :: j ∈ l.jumps) :
    Safe tables () (l.Sound base)
      (Fine fun t' => l.Sound base t' ∧ j ∉ t'.rules b ∧ ∀ x r, r ∈ t'.rules x → r ∈ t.rules x)
      (dropJump (b :: j)) t := by
  obtain ⟨hsound, hgone⟩ := h.put_erase hj
  refine .op h ?_
  change Safe tables () _ _ (.ret none) (t.delete b j).2
  unfold FilterTable.delete
  split
  · refine .ret hsound ⟨rfl, hsound, ?_, fun x r hr => ?_⟩
    · show j ∉ Function.update t.rules b ((t.rules b).erase j) b
      rw [Function.update_self]
      exact hgone
    · change r ∈ Function.update t.rules b ((t.rules b).erase j) x at hr
      by_cases heq : x = b
      · subst heq
        rw [Function.update_self] at hr
        exact List.mem_of_mem_erase hr
      · rw [Function.update_of_ne heq] at hr
        exact hr
  · rename_i hnot
    have hb := h.builtin b (Layout.jump_cases hj).1
    exact .ret h ⟨rfl, h, fun hin => hnot ⟨hb, hin⟩, fun _ _ hr => hr⟩

theorem dropJumps_safe (h : l.Sound base t) :
    Safe tables () (l.Sound base)
      (Fine fun t' => l.Sound base t' ∧ l.Unjumped t')
      (Prog.each dropJump l.jumps) t := by
  refine Safe.each (J := fun done t' => l.Sound base t' ∧ ∀ b j, b :: j ∈ done → j ∉ t'.rules b)
    (fun _ hJ => hJ.1) ⟨h, fun _ _ hin => absurd hin List.not_mem_nil⟩ ?_
  intro done jump rest t' heq hJ
  have hjump : jump ∈ l.jumps := heq ▸ List.mem_append_right _ List.mem_cons_self
  obtain ⟨b, -, m, name, -, rfl⟩ := l.jumps_own jump hjump
  refine (dropJump_safe hJ.1 hjump).mono (fun _ h => h) ?_
  rintro _ t'' ⟨rfl, hsound, hgone, hless⟩
  refine ⟨rfl, hsound, fun b' j' hj' hin => ?_⟩
  rcases List.mem_append.1 hj' with hj' | hj'
  · exact hJ.2 b' j' hj' (hless b' j' hin)
  · obtain ⟨rfl, rfl⟩ := List.cons.inj (List.mem_singleton.1 hj')
    exact hgone hin

/-- Without the jumps nothing refers to the node's chains. -/
theorem Layout.Sound.not_referenced (h : l.Sound base t) (hjumps : l.Unjumped t)
    {name : String} (hname : name ∈ l.names) : ¬ t.Referenced name := by
  rintro ⟨chain, hchain, r, hr, htarget⟩
  by_cases hb : chain ∈ builtins
  · obtain ⟨js, heq, -, hjs⟩ := h.front chain hb
    have hin := hr
    rw [heq] at hin
    rcases List.mem_append.1 hin with hin | hin
    · exact hjumps chain r (hjs r hin) hr
    · exact h.foreign chain hb r hin name hname htarget
  · exact h.others chain hchain hb r hr name hname htarget

theorem Layout.Unjumped.flush (h : l.Unjumped t) {name : String} (hname : name ∈ l.names) :
    l.Unjumped (t.flush name).2 := by
  unfold FilterTable.flush
  split
  · intro b j hj
    have hne : b ≠ name := fun heq => (l.names_own name hname).1 (heq ▸ (jump_cases hj).1)
    show j ∉ Function.update t.rules name [] b
    rw [Function.update_of_ne hne]
    exact h b j hj
  · exact h

/-- A chain of the node that nothing refers to goes, with its rules. -/
theorem dropChain_safe (h : l.Sound base t) (hjumps : l.Unjumped t) {name : String}
    (hname : name ∈ l.names) :
    Safe tables () (l.Sound base)
      (Fine fun t' => (l.Sound base t' ∧ l.Unjumped t') ∧ name ∉ t'.names ∧
        ∀ x ∈ t'.names, x ∈ t.names)
      (dropChain name) t := by
  have hflush := h.flush hname
  have hjumps' := hjumps.flush hname
  have hdelete := hflush.deleteChain hname
  refine .op h (.op hflush (.ret hdelete ⟨rfl, ⟨hdelete, ?_⟩, ?_, ?_⟩))
  · change l.Unjumped ((t.flush name).2.deleteChain name).2
    unfold FilterTable.deleteChain
    split
    · exact hjumps'
    · exact hjumps'
  · change name ∉ ((t.flush name).2.deleteChain name).2.names
    unfold FilterTable.deleteChain
    split
    · simp
    · rename_i hnot
      intro hin
      refine hnot ⟨hin, ?_, hflush.not_referenced hjumps' hname⟩
      unfold FilterTable.flush at hin ⊢
      split
      · exact Function.update_self _ _ _
      · rename_i habsent
        rw [if_neg habsent] at hin
        exact absurd hin habsent
  · intro x hx
    change x ∈ ((t.flush name).2.deleteChain name).2.names at hx
    have hx' : x ∈ (t.flush name).2.names := by
      unfold FilterTable.deleteChain at hx
      split at hx
      · exact List.mem_of_mem_filter hx
      · exact hx
    unfold FilterTable.flush at hx'
    split at hx'
    · exact hx'
    · exact hx'

theorem dropChains_safe (h : l.Sound base t) (hjumps : l.Unjumped t) :
    Safe tables () (l.Sound base) (Fine fun t' => l.Sound base t' ∧ l.Gone t')
      (Prog.each dropChain l.names) t := by
  refine (Safe.each (J := fun done t' => (l.Sound base t' ∧ l.Unjumped t') ∧
    ∀ name ∈ done, name ∉ t'.names) (fun _ hJ => hJ.1.1)
    ⟨⟨h, hjumps⟩, fun _ hin => absurd hin List.not_mem_nil⟩ ?_).mono (fun _ h => h) ?_
  · intro done x rest t' heq hJ
    have hx : x ∈ l.names := heq ▸ List.mem_append_right _ List.mem_cons_self
    refine (dropChain_safe hJ.1.1 hJ.1.2 hx).mono (fun _ h => h) ?_
    rintro _ t'' ⟨rfl, hboth, hgone, hless⟩
    refine ⟨rfl, hboth, fun name hname hin => ?_⟩
    rcases List.mem_append.1 hname with hname | hname
    · exact hJ.2 name hname (hless name hin)
    · exact hgone (List.mem_singleton.1 hname ▸ hin)
  · rintro _ t' ⟨rfl, ⟨hsound, hunjumped⟩, hnames⟩
    exact ⟨rfl, hsound, hnames, hunjumped⟩

theorem Layout.downFamily_safe (h : l.Sound base t) :
    Safe tables () (l.Sound base) (Fine fun t' => l.Sound base t' ∧ l.Gone t') l.downFamily t :=
  (dropJumps_safe h).andThen fun _ h₁ => dropChains_safe h₁.1 h₁.2

/-! ## Any number of runs -/

/-- The tools of all families. -/
def allTables : Machine (fun _ : String × List String => Bool) Unit (String → FilterTable) :=
  tables.copies

/-- The tables of a host; beside them the rules in the chains `iptables` has that are not the
node's: those from before, and the accept rules appended since. -/
structure Host where
  tables : String → FilterTable
  base : String → String → List (List String)

/-- What happens on a host: `up` under some policy or `down`, complete or cut off after some
commands, and accept rules that are appended to FORWARD. -/
inductive Host.Act (l : Layout)
  | up (c : Chains l) (stop : Option Nat)
  | down (stop : Option Nat)
  | accept (tool : String) (m : List String)

/-- What a run leaves behind that may be cut off. -/
def halt {α : Type} (p : Prog (fun _ : String × List String => Bool) α) (stop : Option Nat)
    (w : String → FilterTable) : String → FilterTable :=
  match stop with
  | none => (p.run allTables () w).2
  | some n => p.cut allTables () n w

namespace Host

/-- The accept rule that is appended. -/
def acceptRule (m : List String) : List String := m ++ ["-j", "ACCEPT"]

def step (l : Layout) (ipv6 : Bool) (h : Host) : Act l → Option Host
  | .up c stop => some { h with tables := halt (c.up (families ipv6)) stop h.tables }
  | .down stop => some { h with tables := halt (l.down (families ipv6)) stop h.tables }
  | .accept tool m =>
      let table := ((h.tables tool).append "FORWARD" (acceptRule m)).2
      let appended := h.base tool "FORWARD" ++ [acceptRule m]
      some
        { tables := Function.update h.tables tool table
          base := Function.update h.base tool (Function.update (h.base tool) "FORWARD" appended) }

/-- A host on which no run has been yet. -/
def start (w : String → FilterTable) : Host := ⟨w, fun tool => (w tool).rules⟩

/-- What is so at any time. -/
def Inv (l : Layout) (ipv6 : Bool) (h : Host) : Prop :=
  ∀ f ∈ families ipv6, l.Sound (h.base f.tool) (h.tables f.tool)

end Host

/-- A table without the node's rules: its chains are not there, and nothing jumps to them. -/
structure Layout.Clean (l : Layout) (t : FilterTable) : Prop where
  builtin : ∀ b ∈ builtins, b ∈ t.names
  chains : ∀ name ∈ l.names, name ∉ t.names
  foreign : ∀ chain ∈ t.names, ∀ r ∈ t.rules chain, l.Foreign r

theorem Layout.Clean.sound (h : l.Clean t) : l.Sound t.rules t where
  builtin := h.builtin
  front _ _ := ⟨[], rfl, List.nodup_nil, fun _ hj => absurd hj List.not_mem_nil⟩
  foreign b hb := h.foreign b (h.builtin b hb)
  others chain hc _ := h.foreign chain hc

theorem families_tools (ipv6 : Bool) : ((families ipv6).map Family.tool).Nodup := by
  cases ipv6 with
  | false => decide
  | true => decide

theorem Chains.Underway.refl (c : Chains l) (f : Family) (t : FilterTable) : c.Underway f t t :=
  .filling (.refl l t) fun _ _ => .inl ⟨rfl, Iff.rfl⟩

theorem Chains.up_safe (c : Chains l) {ipv6 : Bool} {h : Host} (hinv : h.Inv l ipv6) :
    Safe allTables () (fun w => ∀ f ∈ families ipv6, l.Sound (h.base f.tool) (w f.tool) ∧
        c.Underway f (h.tables f.tool) (w f.tool))
      (Fine fun w => ∀ f ∈ families ipv6, (l.Sound (h.base f.tool) (w f.tool) ∧
        c.Underway f (h.tables f.tool) (w f.tool)) ∧ c.Installed f (h.base f.tool) (w f.tool))
      (c.up (families ipv6)) h.tables := by
  refine Safe.each_at (M := tables) (fun _ => rfl)
    (K := fun f t => t = h.tables f.tool ∧ l.Sound (h.base f.tool) t)
    (I := fun f t => l.Sound (h.base f.tool) t ∧ c.Underway f (h.tables f.tool) t)
    (P := fun f t => (l.Sound (h.base f.tool) t ∧ c.Underway f (h.tables f.tool) t) ∧
      c.Installed f (h.base f.tool) t)
    (families_tools ipv6) ?_ (fun _ _ hP => hP.1) ?_ fun f hf => ⟨rfl, hinv f hf⟩
  · rintro f t ⟨rfl, hsound⟩
    exact ⟨hsound, .refl c f _⟩
  · rintro f - t ⟨rfl, hsound⟩
    exact c.upFamily_safe f hsound

theorem Layout.down_safe {ipv6 : Bool} {h : Host} (hinv : h.Inv l ipv6) :
    Safe allTables () (fun w => ∀ f ∈ families ipv6, l.Sound (h.base f.tool) (w f.tool))
      (Fine fun w => ∀ f ∈ families ipv6, l.Sound (h.base f.tool) (w f.tool) ∧
        l.Gone (w f.tool))
      (l.down (families ipv6)) h.tables :=
  Safe.each_at (fun _ => rfl) (families_tools ipv6) (fun _ _ hK => hK) (fun _ _ hP => hP.1)
    (fun _ _ _ hs => downFamily_safe hs) hinv

namespace Host

/-- A run that is safe leaves what is always so, wherever it stops. -/
theorem Inv.halt {ipv6 : Bool} {h : Host} {p : Prog (fun _ : String × List String => Bool) (Option String)}
    {P : Family → FilterTable → Prop}
    (hsafe : Safe allTables () (fun w => ∀ f ∈ families ipv6, l.Sound (h.base f.tool) (w f.tool))
      (Fine fun w => ∀ f ∈ families ipv6, l.Sound (h.base f.tool) (w f.tool) ∧ P f (w f.tool))
      p h.tables) (stop : Option Nat) :
    Inv l ipv6 { h with tables := Dvpnd.halt p stop h.tables } := by
  cases stop with
  | none => exact fun f hf => (hsafe.run.2 f hf).1
  | some n => exact hsafe.cut n

theorem acceptRule_foreign (m : List String) : l.Foreign (acceptRule m) := by
  intro name hname heq
  rw [acceptRule, target_jump] at heq
  exact (l.names_own name hname).2 (Option.some.inj heq ▸ List.mem_cons_self)

/-- An accept rule comes after all jumps. -/
theorem sound_accept (h : l.Sound base t) (m : List String) :
    l.Sound (Function.update base "FORWARD" (base "FORWARD" ++ [acceptRule m]))
      (t.append "FORWARD" (acceptRule m)).2 := by
  have hfwd : "FORWARD" ∈ builtins := List.mem_cons_self
  have hknown : "FORWARD" ∈ t.names ∧ t.Known (acceptRule m) :=
    ⟨h.builtin _ hfwd, "ACCEPT", target_jump m _, .inl List.mem_cons_self⟩
  rw [FilterTable.append, if_pos hknown]
  refine ⟨h.builtin, fun b hb => ?_, fun b hb r hr => ?_, fun chain hc hnot r hr => ?_⟩
  · show ∃ js, Function.update t.rules "FORWARD" _ b = js ++ _ ∧ _
    by_cases heq : b = "FORWARD"
    · subst heq
      obtain ⟨js, hrules, hrest⟩ := h.front _ hfwd
      rw [Function.update_self, Function.update_self, hrules, List.append_assoc]
      exact ⟨js, rfl, hrest⟩
    · rw [Function.update_of_ne heq, Function.update_of_ne heq]
      exact h.front b hb
  · by_cases heq : b = "FORWARD"
    · subst heq
      rw [Function.update_self] at hr
      rcases List.mem_append.1 hr with hr | hr
      · exact h.foreign _ hfwd r hr
      · exact List.mem_singleton.1 hr ▸ acceptRule_foreign m
    · rw [Function.update_of_ne heq] at hr
      exact h.foreign b hb r hr
  · have hne : chain ≠ "FORWARD" := fun heq => hnot (heq ▸ hfwd)
    change r ∈ Function.update t.rules "FORWARD" _ chain at hr
    rw [Function.update_of_ne hne] at hr
    exact h.others chain hc hnot r hr

theorem Inv.accept {ipv6 : Bool} {h h' : Host} (hinv : Inv l ipv6 h) {tool : String}
    {m : List String} (hstep : step l ipv6 h (.accept tool m) = some h') : Inv l ipv6 h' := by
  cases hstep
  intro f hf
  dsimp only
  by_cases heq : f.tool = tool
  · rw [heq, Function.update_self, Function.update_self]
    exact sound_accept (heq ▸ hinv f hf) m
  · rw [Function.update_of_ne heq, Function.update_of_ne heq]
    exact hinv f hf

theorem Inv.step {ipv6 : Bool} {h h' : Host} {a : Act l} (hinv : Inv l ipv6 h)
    (hstep : step l ipv6 h a = some h') : Inv l ipv6 h' := by
  cases a with
  | up c stop =>
      cases hstep
      refine Inv.halt (P := fun f t => c.Installed f (h.base f.tool) t) ((c.up_safe hinv).mono
        (fun _ hw f hf => (hw f hf).1) fun _ _ hw => ⟨hw.1, fun f hf => ?_⟩) stop
      exact ⟨(hw.2 f hf).1.1, (hw.2 f hf).2⟩
  | down stop =>
      cases hstep
      exact Inv.halt (Layout.down_safe hinv) stop
  | accept tool m => exact hinv.accept hstep

/-- **Whatever came before, `up` and `down` do their work.**  From tables without the node's
rules any runs of `up`, under any policies, and of `down` may have been, each complete or cut
off anywhere, with accept rules appended to FORWARD in between.  A complete `up` then returns
no error and leaves each of the node's chains with exactly the rules of its policy, in order,
and each jump once, ahead of the rules from elsewhere, the accept rules among them; a
complete `down` leaves none of the chains and jumps. -/
theorem up_down_recover (l : Layout) (ipv6 : Bool) (w : String → FilterTable)
    (hclean : ∀ f ∈ families ipv6, l.Clean (w f.tool)) (h : Host)
    (hreach : Steps.Reach (step l ipv6) (fun _ _ => True) (start w) h) :
    (∀ c : Chains l, ((c.up (families ipv6)).run allTables () h.tables).1 = none ∧
      ∀ f ∈ families ipv6, c.Installed f (h.base f.tool)
        (((c.up (families ipv6)).run allTables () h.tables).2 f.tool)) ∧
      ∀ f ∈ families ipv6,
        l.Gone (((l.down (families ipv6)).run allTables () h.tables).2 f.tool) := by
  have hinv : Inv l ipv6 h :=
    hreach.invariant (fun f hf => (hclean f hf).sound) fun hinv _ hstep => hinv.step hstep
  refine ⟨fun c => ?_, fun f hf => ((Layout.down_safe hinv).run.2 f hf).2⟩
  obtain ⟨hnone, hall⟩ := (c.up_safe hinv).run
  exact ⟨hnone, fun f hf => (hall f hf).2⟩

/-- The chains of an interface. -/
def wg0 : TunnelEgress := ⟨"wg0", by decide⟩

/-- Tables that are empty. -/
def noRules : String → FilterTable := fun _ => ⟨builtins, fun _ => []⟩

theorem noRules_clean (tool : String) : wg0.layout.Clean (noRules tool) where
  builtin _ hb := hb
  chains name hname hin := (wg0.layout.names_own name hname).1 hin
  foreign _ _ _ hr := absurd hr List.not_mem_nil

/-- An `up` that is cut off after its first jump, and an accept rule. -/
def cutRun : List (Act wg0.layout) := [.up (wg0.chains {}) (some 19), .accept "iptables" ["-i", "wg0"]]

/-- What they leave: one jump of two. -/
def Cut (h : Host) : Prop :=
  (h.tables "iptables").rules "FORWARD" =
      [["-i", "wg0", "-j", "DVPND-FWD-wg0"], ["-i", "wg0", "-j", "ACCEPT"]] ∧
    (h.tables "iptables").rules "INPUT" = []

instance (h : Host) : Decidable h.Cut :=
  inferInstanceAs (Decidable (_ ∧ _))

/-- The chains under a policy with an API port. -/
def openAPI : Chains wg0.layout := wg0.chains { apiPort := 8585 }

/-- From there `up` under another policy puts both jumps in. -/
theorem up_down_recover_cutRun : ∃ h : Host, h.Cut ∧
    ((openAPI.up (families true)).run allTables () h.tables).1 = none ∧
    ∀ f ∈ families true, openAPI.Installed f (h.base f.tool)
      (((openAPI.up (families true)).run allTables () h.tables).2 f.tool) := by
  obtain ⟨h, hreach, hcut⟩ := Steps.exists_reach (step wg0.layout true) (fun _ _ => True)
    (start noRules) cutRun (fun h => decide h.Cut) (by decide)
  obtain ⟨hup, -⟩ := up_down_recover wg0.layout true noRules (fun f _ => noRules_clean f.tool) h hreach
  exact ⟨h, of_decide_eq_true hcut, hup openAPI⟩

end Host

end Dvpnd
