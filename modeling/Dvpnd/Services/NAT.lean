import Dvpnd.Services.Chains

/-!
# The forwarding rules of a tunnel

`services/common/nat.go` appends the rules that let a tunnel's packets through and out of the
uplink, and deletes them again.  **It appends without looking and deletes one copy at a
time**, so the file counts the copies.

* `NAT.rules`, `NAT.up`, `NAT.down` — the rules and the two runs of commands.
* `Firewall`, `firewall` — the tables they work on, where any command may fail for a reason
  of its own.
* `Firewall.copies` — how often a rule is there; `natUp_spec`, `natDown_spec` — one more and
  one less of each, with what a command that fails does to that.
* `Layout.Issues` — the commands for the egress chains; `Undisturbed.of_uses`: they leave the
  copies alone.
-/

namespace Dvpnd

open Effect (Prog Machine)

/-! ## The rules -/

/-- `NAT`. -/
structure NAT where
  interface : String
  uplink : String

/-- `NAT.rules`: the tools, with the arguments of each command. -/
def NAT.rules (n : NAT) (action : String) : List (String × List String) :=
  ["iptables", "ip6tables"].flatMap fun tool =>
    [(tool, [action, "FORWARD", "-i", n.interface, "-j", "ACCEPT"]),
      (tool, [action, "FORWARD", "-o", n.interface, "-m", "conntrack", "--ctstate",
        "RELATED,ESTABLISHED", "-j", "ACCEPT"]),
      (tool, ["-t", "nat", action, "POSTROUTING", "-o", n.uplink, "-j", "MASQUERADE"])]

/-- `RunCommand` in `Up`: the error, when the command could not be carried out. -/
def natCommand (rule : String × List String) :
    Prog (fun _ : String × List String => Bool) (Option String) :=
  Prog.perform rule >>= fun ok =>
    let text := " ".intercalate (rule.1 :: rule.2)
    .ret (if ok then none else some s!"{text}: exit status 1")

/-- `NAT.Up`: the commands up to the first that fails. -/
def NAT.up (n : NAT) : Prog (fun _ : String × List String => Bool) (Option String) :=
  Prog.each natCommand (n.rules "-A")

/-- A command of `Down`, whose failure does not matter. -/
def natDrop (rule : String × List String) :
    Prog (fun _ : String × List String => Bool) (Option String) :=
  Prog.perform rule >>= fun _ => .ret none

/-- `NAT.Down`. -/
def NAT.down (n : NAT) : Prog (fun _ : String × List String => Bool) (Option String) :=
  Prog.each natDrop (n.rules "-D")

/-! ## The tables -/

/-- The tables of a host: the filter tables, and POSTROUTING in the nat table, of each tool.
`commands` counts the commands. -/
structure Firewall where
  tables : String → FilterTable
  postrouting : String → List (List String)
  commands : Nat := 0

section

-- named, so that membership is decided with one proof wherever the file is read
local instance lawfulBEq_rule : LawfulBEq (List String) := inferInstance

/-- A command on POSTROUTING. -/
def postroutingCommand : List String → List (List String) → Bool × List (List String)
  | "-A" :: "POSTROUTING" :: rule, rules => (true, rules ++ [rule])
  | "-D" :: "POSTROUTING" :: rule, rules =>
      if rule ∈ rules then (true, rules.erase rule) else (false, rules)
  | _, rules => (false, rules)

end

/-- A command that is carried out, or that the tool refuses. -/
def Firewall.command (s : Firewall) (tool : String) : List String → Bool × Firewall
  | "-t" :: "nat" :: args =>
      let out := postroutingCommand args (s.postrouting tool)
      (out.1, { s with postrouting := Function.update s.postrouting tool out.2 })
  | args =>
      let out := (s.tables tool).command args
      (out.1, { s with tables := Function.update s.tables tool out.2 })

/-- The tools.  The commands whose numbers are among `faults` fail for a reason of their own. -/
def firewall (faults : List Nat) :
    Machine (fun _ : String × List String => Bool) Unit Firewall where
  exec o s :=
    if s.commands ∈ faults then (false, { s with commands := s.commands + 1 })
    else
      let out := s.command o.1 o.2
      (out.1, { out.2 with commands := s.commands + 1 })
  acquire _ s := s

/-! ## How often a rule is there -/

/-- The chains the rules go to. -/
inductive Place
  | forward
  | postrouting
  deriving DecidableEq

/-- A rule, with the tool and the chain it is for. -/
@[ext] structure Spot where
  tool : String
  place : Place
  rule : List String
  deriving DecidableEq

/-- The rules of `NAT`. -/
def NAT.spots (n : NAT) : List Spot :=
  ["iptables", "ip6tables"].flatMap fun tool =>
    [⟨tool, .forward, ["-i", n.interface, "-j", "ACCEPT"]⟩,
      ⟨tool, .forward, ["-o", n.interface, "-m", "conntrack", "--ctstate", "RELATED,ESTABLISHED",
        "-j", "ACCEPT"]⟩,
      ⟨tool, .postrouting, ["-o", n.uplink, "-j", "MASQUERADE"]⟩]

/-- The command that does something with a rule. -/
def Spot.command (x : Spot) (action : String) : String × List String :=
  match x.place with
  | .forward => (x.tool, action :: "FORWARD" :: x.rule)
  | .postrouting => (x.tool, "-t" :: "nat" :: action :: "POSTROUTING" :: x.rule)

theorem NAT.rules_eq (n : NAT) (action : String) :
    n.rules action = n.spots.map (·.command action) := rfl

/-- The rules of NAT in FORWARD accept, so they are foreign to any layout. -/
theorem NAT.spots_accept {n : NAT} {x : Spot} (hx : x ∈ n.spots) (hplace : x.place = .forward) :
    target x.rule = some "ACCEPT" := by
  simp only [spots, List.flatMap_cons, List.flatMap_nil, List.mem_append, List.mem_cons,
    List.not_mem_nil, or_false] at hx
  rcases hx with (rfl | rfl | rfl) | (rfl | rfl | rfl)
  · rfl
  · rfl
  · cases hplace
  · rfl
  · rfl
  · cases hplace

/-- No rule is among them twice. -/
theorem NAT.spots_nodup (n : NAT) : n.spots.Nodup := by
  simp [spots]

/-- The chain of a rule. -/
def Firewall.chain (s : Firewall) (x : Spot) : List (List String) :=
  match x.place with
  | .forward => (s.tables x.tool).rules "FORWARD"
  | .postrouting => s.postrouting x.tool

/-- How often a rule is there. -/
def Firewall.copies (s : Firewall) (x : Spot) : Nat := (s.chain x).count x.rule

/-- FORWARD is there, whatever the tool. -/
def Firewall.Whole (s : Firewall) : Prop := ∀ tool, "FORWARD" ∈ (s.tables tool).names

/-- None of the rules is left. -/
def NAT.Gone (n : NAT) (s : Firewall) : Prop := ∀ x ∈ n.spots, x.rule ∉ s.chain x

instance (n : NAT) (s : Firewall) : Decidable (n.Gone s) :=
  inferInstanceAs (Decidable (∀ x ∈ n.spots, x.rule ∉ s.chain x))

theorem NAT.gone_iff {n : NAT} {s : Firewall} : n.Gone s ↔ ∀ x ∈ n.spots, s.copies x = 0 :=
  forall₂_congr fun _ _ => List.count_eq_zero.symm

/-- The tables with other rules in the chain of a rule. -/
def Firewall.putChain (s : Firewall) (x : Spot) (rules : List (List String)) : Firewall :=
  match x.place with
  | .forward => { s with
      tables := Function.update s.tables x.tool ((s.tables x.tool).put "FORWARD" rules) }
  | .postrouting => { s with postrouting := Function.update s.postrouting x.tool rules }

theorem Firewall.chain_putChain (s : Firewall) (x : Spot) (rules : List (List String)) (y : Spot) :
    (s.putChain x rules).chain y =
      if y.tool = x.tool ∧ y.place = x.place then rules else s.chain y := by
  obtain ⟨tool, place, rule⟩ := x
  obtain ⟨tool', place', rule'⟩ := y
  by_cases htool : tool' = tool
  · subst htool
    cases place <;> cases place' <;> simp [putChain, chain, FilterTable.put]
  · cases place <;> cases place' <;> simp [putChain, chain, htool]

theorem Firewall.Whole.putChain {s : Firewall} (h : s.Whole) (x : Spot) (rules : List (List String)) :
    (s.putChain x rules).Whole := by
  intro tool
  obtain ⟨xtool, place, rule⟩ := x
  cases place with
  | postrouting => exact h tool
  | forward =>
      show "FORWARD" ∈ (Function.update s.tables xtool ((s.tables xtool).put "FORWARD" rules) tool).names
      by_cases htool : tool = xtool
      · rw [htool, Function.update_self]
        exact h xtool
      · rw [Function.update_of_ne htool]
        exact h tool

/-- `-D` is `erase`, whether the rule is there or not. -/
theorem FilterTable.delete_eq {t : FilterTable} {chain : String} (h : chain ∈ t.names)
    (rule : List String) : (t.delete chain rule).2 = t.put chain ((t.rules chain).erase rule) := by
  unfold delete
  by_cases hin : rule ∈ t.rules chain
  · rw [if_pos ⟨h, hin⟩]
  · rw [if_neg fun hc => hin hc.2, List.erase_of_not_mem hin]
    simp [put]

theorem postroutingCommand_delete (rule : List String) (rules : List (List String)) :
    (postroutingCommand ("-D" :: "POSTROUTING" :: rule) rules).2 = rules.erase rule := by
  show (if rule ∈ rules then (true, rules.erase rule) else (false, rules)).2 = rules.erase rule
  split
  · rfl
  · rename_i hnot
    exact (List.erase_of_not_mem hnot).symm

section Commands

variable {s : Firewall} {x : Spot} {n : NAT}

/-- A rule of NAT can be appended wherever FORWARD is. -/
theorem command_append (h : s.Whole) (hx : x ∈ n.spots) :
    s.command (x.command "-A").1 (x.command "-A").2 = (true, s.putChain x (s.chain x ++ [x.rule])) := by
  have haccept := NAT.spots_accept hx
  obtain ⟨tool, place, rule⟩ := x
  cases place with
  | postrouting => rfl
  | forward =>
      have hknown : "FORWARD" ∈ (s.tables tool).names ∧ (s.tables tool).Known rule :=
        ⟨h tool, "ACCEPT", haccept rfl, .inl List.mem_cons_self⟩
      show (((s.tables tool).append "FORWARD" rule).1, { s with
        tables := Function.update s.tables tool ((s.tables tool).append "FORWARD" rule).2 }) = _
      rw [FilterTable.append, if_pos hknown]
      rfl

/-- A rule that is deleted is there once less, if it is there. -/
theorem command_delete (h : s.Whole) (x : Spot) :
    (s.command (x.command "-D").1 (x.command "-D").2).2 = s.putChain x ((s.chain x).erase x.rule) := by
  obtain ⟨tool, place, rule⟩ := x
  cases place with
  | postrouting =>
      show { s with
        postrouting := Function.update s.postrouting tool
          (postroutingCommand ("-D" :: "POSTROUTING" :: rule) (s.postrouting tool)).2 } = _
      rw [postroutingCommand_delete]
      rfl
  | forward =>
      show { s with tables := Function.update s.tables tool ((s.tables tool).delete "FORWARD" rule).2 } = _
      rw [FilterTable.delete_eq (h tool)]
      rfl

end Commands

/-! ## What the commands do to the copies -/

theorem Firewall.copies_putChain (s : Firewall) (x : Spot) (rules : List (List String)) (y : Spot) :
    (s.putChain x rules).copies y =
      if y.tool = x.tool ∧ y.place = x.place then rules.count y.rule else s.copies y := by
  unfold copies
  rw [chain_putChain]
  split <;> rfl

theorem Firewall.chain_congr {x y : Spot} (s : Firewall) (h : y.tool = x.tool ∧ y.place = x.place) :
    s.chain y = s.chain x := by
  unfold chain
  rw [h.1, h.2]

theorem Spot.count_singleton (x y : Spot) :
    [x].count y = if y.tool = x.tool ∧ y.place = x.place then [x.rule].count y.rule else 0 := by
  by_cases h : y.tool = x.tool ∧ y.place = x.place
  · rw [if_pos h]
    by_cases hrule : y.rule = x.rule
    · obtain rfl : y = x := Spot.ext h.1 h.2 hrule
      rw [List.count_singleton_self, List.count_singleton_self]
    · rw [List.count_eq_zero.2 fun hin => hrule (congrArg rule (List.mem_singleton.1 hin)),
        List.count_eq_zero.2 fun hin => hrule (List.mem_singleton.1 hin)]
  · rw [if_neg h, List.count_eq_zero]
    exact fun hin => h (List.mem_singleton.1 hin ▸ ⟨rfl, rfl⟩)

/-- One rule more in the chain of a rule is one copy of it more. -/
theorem Firewall.copies_append (s : Firewall) (x y : Spot) :
    (s.putChain x (s.chain x ++ [x.rule])).copies y = s.copies y + [x].count y := by
  rw [copies_putChain, Spot.count_singleton]
  split
  · rename_i h
    rw [List.count_append, ← s.chain_congr h, copies]
  · rfl

/-- One less is one copy less. -/
theorem Firewall.copies_erase (s : Firewall) (x y : Spot) :
    (s.putChain x ((s.chain x).erase x.rule)).copies y = s.copies y - [x].count y := by
  rw [copies_putChain, Spot.count_singleton]
  split
  · rename_i h
    rw [List.count_erase, List.count_singleton, ← s.chain_congr h, copies]
  · rfl

section Machine

open Effect.Prog

variable {n : NAT} {faults : List Nat} {s : Firewall} {x : Spot}

/-- A command of `Up`: it is carried out and the rule is there once more, or it fails for a reason
of its own. -/
theorem exec_append (faults : List Nat) (h : s.Whole) (hx : x ∈ n.spots) :
    ∃ ok s', (firewall faults).exec (x.command "-A") s = (ok, s') ∧ s'.Whole ∧
      s'.commands = s.commands + 1 ∧
      ((ok = true ∧ ∀ y, s'.copies y = s.copies y + [x].count y) ∨
        (ok = false ∧ s.commands ∈ faults ∧ ∀ y, s'.copies y = s.copies y)) := by
  by_cases hfault : s.commands ∈ faults
  · exact ⟨false, { s with commands := s.commands + 1 }, if_pos hfault, h, rfl,
      .inr ⟨rfl, hfault, fun _ => rfl⟩⟩
  · refine ⟨true, { s.putChain x (s.chain x ++ [x.rule]) with commands := s.commands + 1 }, ?_,
      h.putChain x _, rfl, .inl ⟨rfl, s.copies_append x⟩⟩
    refine (if_neg hfault).trans ?_
    rw [command_append h hx]

/-- A command of `Down`: the rule is there once less, unless the command fails for a reason of its
own. -/
theorem exec_delete (faults : List Nat) (h : s.Whole) (x : Spot) :
    ((firewall faults).exec (x.command "-D") s).2.Whole ∧
      ((firewall faults).exec (x.command "-D") s).2.commands = s.commands + 1 ∧
      (s.commands ∉ faults → ∀ y,
        ((firewall faults).exec (x.command "-D") s).2.copies y = s.copies y - [x].count y) := by
  by_cases hfault : s.commands ∈ faults
  · have hexec : (firewall faults).exec (x.command "-D") s = (false, { s with commands := s.commands + 1 }) :=
      if_pos hfault
    rw [hexec]
    exact ⟨h, rfl, fun hnot => absurd hfault hnot⟩
  · have hexec : ((firewall faults).exec (x.command "-D") s).2 =
        { s.putChain x ((s.chain x).erase x.rule) with commands := s.commands + 1 } := by
      refine (congrArg Prod.snd (if_neg hfault)).trans ?_
      rw [← command_delete h x]
    rw [hexec]
    exact ⟨h.putChain x _, rfl, fun _ => s.copies_erase x⟩

theorem run_natCommand (faults : List Nat) (o : String × List String) (s : Firewall) :
    ((natCommand o).run (firewall faults) () s).2 = ((firewall faults).exec o s).2 ∧
      (((natCommand o).run (firewall faults) () s).1 = none ↔ ((firewall faults).exec o s).1 = true) := by
  refine ⟨rfl, ?_⟩
  show (if ((firewall faults).exec o s).1 = true then none else some _) = none ↔ _
  split
  · rename_i hok
    exact iff_of_true rfl hok
  · rename_i hok
    exact iff_of_false (Option.some_ne_none _) hok

/-- How far the appending of some rules has come: all are there, or a command has failed and those
before it are. -/
inductive Appended (faults : List Nat) (xs : List Spot) (s : Firewall) : Option String × Firewall → Prop
  | all {s' : Firewall} (copies : ∀ y, s'.copies y = s.copies y + xs.count y) : Appended faults xs s (none, s')
  | some {s' : Firewall} {e : String} (whole : s'.Whole) (done : List Spot) (first : done <+: xs)
      (copies : ∀ y, s'.copies y = s.copies y + done.count y)
      (fault : ∃ m ∈ faults, m < s'.commands) : Appended faults xs s (.some e, s')

theorem natUp_spec (faults : List Nat) (xs : List Spot) (hxs : ∀ x ∈ xs, x ∈ n.spots) (h : s.Whole) :
    Appended faults xs s
      ((each natCommand (xs.map (·.command "-A"))).run (firewall faults) () s) := by
  induction xs generalizing s with
  | nil => exact .all fun _ => rfl
  | cons x xs ih =>
      obtain ⟨ok, s₁, hexec, hwhole, hcommands, hcases⟩ := exec_append faults h (hxs x List.mem_cons_self)
      have hrun := run_natCommand faults (x.command "-A") s
      rw [hexec] at hrun
      rw [List.map_cons, each, andThen, run_bind]
      generalize (natCommand (x.command "-A")).run (firewall faults) () s = out at hrun
      obtain ⟨r, s'⟩ := out
      obtain rfl : s' = s₁ := hrun.1
      rcases hcases with ⟨rfl, hcopies⟩ | ⟨rfl, hfault, hcopies⟩
      · obtain rfl : r = none := hrun.2.2 rfl
        have hrest := ih (fun y hy => hxs y (List.mem_cons_of_mem _ hy)) hwhole
        dsimp only
        generalize (each natCommand (xs.map (·.command "-A"))).run (firewall faults) () s' = out at hrest
        have hcons : ∀ y (l : List Spot), s'.copies y + l.count y = s.copies y + (x :: l).count y :=
          fun y l => by
            rw [hcopies y, Nat.add_assoc, ← List.count_append]
            rfl
        cases hrest with
        | all hall => exact .all fun y => (hall y).trans (hcons y xs)
        | some hwhole' done hfirst hdone hfault =>
            exact .some hwhole' (x :: done) (List.cons_prefix_cons.2 ⟨rfl, hfirst⟩)
              (fun y => (hdone y).trans (hcons y done)) hfault
      · cases r with
        | none => exact absurd (hrun.2.1 rfl) Bool.false_ne_true
        | some e =>
            refine .some hwhole [] List.nil_prefix hcopies ⟨s.commands, hfault, ?_⟩
            exact hcommands ▸ Nat.lt_succ_self _

/-- Deleting some rules, once no command fails for a reason of its own: each is there once
less. -/
theorem natDown_spec (faults : List Nat) (xs : List Spot) (h : s.Whole)
    (hpast : ∀ m ∈ faults, m < s.commands) (y : Spot) :
    ((each natDrop (xs.map (·.command "-D"))).run (firewall faults) () s).2.copies y =
      s.copies y - xs.count y := by
  induction xs generalizing s with
  | nil => rfl
  | cons x xs ih =>
      obtain ⟨hwhole, hcommands, hcopies⟩ := exec_delete faults h x
      have hnow : s.commands ∉ faults := fun hin => absurd (hpast _ hin) (lt_irrefl _)
      show ((each natDrop (xs.map (·.command "-D"))).run (firewall faults) ()
        ((firewall faults).exec (x.command "-D") s).2).2.copies y = _
      rw [ih hwhole fun m hm => hcommands ▸ Nat.lt_succ_of_lt (hpast m hm), hcopies hnow y, Nat.sub_sub,
        ← List.count_append]
      rfl

end Machine

/-! ## The egress chains leave the copies alone -/

section Egress

open Effect.Prog

variable {l : Layout} {t : FilterTable}

/-- The commands of `up` and `down`: they are for the node's chains and jumps. -/
inductive Layout.Issues (l : Layout) : List String → Prop
  | new {name : String} (h : name ∈ l.names) : l.Issues ["-N", name]
  | flush {name : String} (h : name ∈ l.names) : l.Issues ["-F", name]
  | remove {name : String} (h : name ∈ l.names) : l.Issues ["-X", name]
  | append {name : String} (h : name ∈ l.names) (rule : List String) : l.Issues ("-A" :: name :: rule)
  | check (b : String) (rule : List String) : l.Issues ("-C" :: b :: rule)
  | insert {b : String} {j : List String} (h : b :: j ∈ l.jumps) : l.Issues ("-I" :: b :: "1" :: j)
  | drop {b : String} {j : List String} (h : b :: j ∈ l.jumps) : l.Issues ("-D" :: b :: j)

/-- `FORWARD` has as many copies of each foreign rule, and is there if it was. -/
structure Layout.Steady (l : Layout) (t t' : FilterTable) : Prop where
  copies : ∀ rule, l.Foreign rule → (t'.rules "FORWARD").count rule = (t.rules "FORWARD").count rule
  names : "FORWARD" ∈ t.names → "FORWARD" ∈ t'.names

theorem Layout.Steady.refl (l : Layout) (t : FilterTable) : l.Steady t t := ⟨fun _ _ => rfl, id⟩

theorem Layout.forward_ne {name : String} (h : name ∈ l.names) : "FORWARD" ≠ name :=
  fun heq => (l.names_own name h).1 (heq ▸ List.mem_cons_self)

theorem Layout.steady_put_own {name : String} (h : name ∈ l.names) (rules : List (List String)) :
    l.Steady t (t.put name rules) where
  copies rule _ := congrArg (List.count rule) (Function.update_of_ne (Layout.forward_ne h) _ _)
  names := id

/-- The chain may be FORWARD, as long as only jumps come and go. -/
theorem Layout.steady_put_jumps {b : String} {rules : List (List String)}
    (h : ∀ rule, l.Foreign rule → rules.count rule = (t.rules b).count rule) :
    l.Steady t (t.put b rules) where
  copies rule hrule := by
    show (Function.update t.rules b rules "FORWARD").count rule = _
    by_cases heq : "FORWARD" = b
    · subst heq
      rw [Function.update_self, h rule hrule]
    · rw [Function.update_of_ne heq]
  names := id

theorem Layout.Issues.steady {args : List String} (h : l.Issues args) (t : FilterTable) :
    l.Steady t (t.command args).2 := by
  have hne : ∀ {b : String} {j : List String}, b :: j ∈ l.jumps → ∀ rule, l.Foreign rule → j ≠ rule :=
    fun hj rule hrule heq => Layout.jump_not_foreign hj (heq ▸ hrule)
  cases h with
  | @new name h =>
      show l.Steady t (t.newChain name).2
      unfold FilterTable.newChain
      split
      · exact .refl l t
      · exact ⟨(Layout.steady_put_own h []).copies, List.mem_cons_of_mem _⟩
  | @flush name h =>
      show l.Steady t (t.flush name).2
      unfold FilterTable.flush
      split
      · exact Layout.steady_put_own h []
      · exact .refl l t
  | @remove name h =>
      show l.Steady t (t.deleteChain name).2
      unfold FilterTable.deleteChain
      split
      · exact ⟨fun _ _ => rfl,
          fun hin => List.mem_filter.2 ⟨hin, decide_eq_true (Layout.forward_ne h)⟩⟩
      · exact .refl l t
  | @append name h rule =>
      show l.Steady t (t.append name rule).2
      unfold FilterTable.append
      split
      · exact Layout.steady_put_own h _
      · exact .refl l t
  | check b rule => exact .refl l t
  | @insert b j h =>
      show l.Steady t (t.insert b j).2
      unfold FilterTable.insert
      split
      · exact Layout.steady_put_jumps fun rule hrule => List.count_cons_of_ne (hne h rule hrule)
      · exact .refl l t
  | @drop b j h =>
      show l.Steady t (t.delete b j).2
      unfold FilterTable.delete
      split
      · exact Layout.steady_put_jumps fun rule hrule => List.count_erase_of_ne (hne h rule hrule).symm
      · exact .refl l t

theorem Chains.up_uses (c : Chains l) (fs : List Family) :
    Uses (fun o => l.Issues o.2) (c.up fs) := by
  refine Uses.each fun f _ => Uses.at ?_ f.tool
  refine (Uses.each fun name hname => ?_).andThen ((Uses.each fun rule hrule => ?_).andThen
    (Uses.each fun jump hjump => ?_))
  · refine ⟨.new hname, fun ok => ?_⟩
    cases ok with
    | true => trivial
    | false => exact ⟨.flush hname, fun _ => trivial⟩
  · obtain ⟨name, hname, m, x, -, rfl⟩ := c.rules_own f rule hrule
    exact ⟨.append hname _, fun _ => trivial⟩
  · obtain ⟨b, -, m, name, -, rfl⟩ := l.jumps_own jump hjump
    refine ⟨.check _ _, fun ok => ?_⟩
    cases ok with
    | true => trivial
    | false => exact ⟨.insert hjump, fun _ => trivial⟩

theorem Layout.down_uses (l : Layout) (fs : List Family) :
    Uses (fun o => l.Issues o.2) (l.down fs) := by
  refine Uses.each fun f _ => Uses.at ?_ f.tool
  refine (Uses.each fun jump hjump => ?_).andThen (Uses.each fun name hname => ?_)
  · obtain ⟨b, -, m, name, -, rfl⟩ := l.jumps_own jump hjump
    exact ⟨.drop hjump, fun _ => trivial⟩
  · exact ⟨.flush hname, fun _ => ⟨.remove hname, fun _ => trivial⟩⟩

variable {n : NAT} {faults : List Nat} {s s₁ : Firewall} {x : Spot}

theorem NAT.spots_foreign (hx : x ∈ n.spots) (hplace : x.place = .forward) : l.Foreign x.rule := by
  intro name hname heq
  rw [NAT.spots_accept hx hplace, Option.some.injEq] at heq
  exact (l.names_own name hname).2 (heq ▸ List.mem_cons_self)

/-- What the commands for the node's chains leave as it is. -/
structure Undisturbed (n : NAT) (s s' : Firewall) : Prop where
  copies : ∀ x ∈ n.spots, s'.copies x = s.copies x
  whole : s.Whole → s'.Whole

theorem Undisturbed.refl (n : NAT) (s : Firewall) : Undisturbed n s s := ⟨fun _ _ => rfl, id⟩

theorem Undisturbed.trans {s₂ : Firewall} (h : Undisturbed n s s₁) (h' : Undisturbed n s₁ s₂) :
    Undisturbed n s s₂ where
  copies x hx := (h'.copies x hx).trans (h.copies x hx)
  whole := h'.whole ∘ h.whole

/-- They are for the filter table. -/
theorem Layout.Issues.command {args : List String} (h : l.Issues args) (s : Firewall) (tool : String) :
    (s.command tool args).2 =
      { s with tables := Function.update s.tables tool ((s.tables tool).command args).2 } := by
  cases h <;> rfl

theorem Layout.Issues.exec {o : String × List String} (h : l.Issues o.2) (s : Firewall) :
    Undisturbed n s ((firewall faults).exec o s).2 := by
  by_cases hfault : s.commands ∈ faults
  · rw [show (firewall faults).exec o s = (false, { s with commands := s.commands + 1 }) from if_pos hfault]
    exact ⟨fun _ _ => rfl, id⟩
  have hexec : ((firewall faults).exec o s).2 = { s with
      tables := Function.update s.tables o.1 ((s.tables o.1).command o.2).2
      commands := s.commands + 1 } := by
    refine (congrArg Prod.snd (if_neg hfault)).trans ?_
    rw [h.command s o.1]
  have hsteady := h.steady (s.tables o.1)
  rw [hexec]
  refine ⟨fun x hx => ?_, fun hwhole tool => ?_⟩
  · obtain ⟨tool, place, rule⟩ := x
    cases place with
    | postrouting => rfl
    | forward =>
        have hforeign : l.Foreign rule := NAT.spots_foreign hx rfl
        show ((Function.update s.tables o.1 _ tool).rules "FORWARD").count rule = _
        by_cases htool : tool = o.1
        · subst htool
          rw [Function.update_self]
          exact hsteady.copies rule hforeign
        · rw [Function.update_of_ne htool]
          rfl
  · show "FORWARD" ∈ (Function.update s.tables o.1 _ tool).names
    by_cases htool : tool = o.1
    · subst htool
      rw [Function.update_self]
      exact hsteady.names (hwhole o.1)
    · rw [Function.update_of_ne htool]
      exact hwhole tool

/-- So the egress chains can be put in and taken out, whatever fails. -/
theorem Undisturbed.of_uses {α : Type} {p : Prog (fun _ : String × List String => Bool) α}
    (h : Uses (fun o => l.Issues o.2) p) (s : Firewall) :
    Undisturbed n s (p.run (firewall faults) () s).2 :=
  Uses.run_rel (firewall faults) () (R := Undisturbed n) (.refl n) .trans (fun _ => .refl n _)
    (fun _ s ho => ho.exec s) h s

end Egress

end Dvpnd
