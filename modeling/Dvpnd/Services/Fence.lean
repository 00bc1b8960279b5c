import Dvpnd.Services.Traversal

/-!
# A policy in force

Around what a service brings up, a tunnel or a daemon, stand the chains of its egress policy.
This file says what it is for **a policy to be in force** on a host, whatever else its tables
hold, and what follows for a packet.

* `Layout.Kept`, `Chains.Upheld`, `Layout.Removed` — the tables are such as the runs of `up` and
  `down` leave; the policy is installed; nothing of it is left.
* `Shielded`, `TornDown` — what an operation of a service keeps as it goes, and what is left at
  the end; `raise_safe`, `lower_safe` — the two runs in these terms.
* `Outsider`, `Chains.Upheld.command` — the accept rules that others append and delete
  leave the policy in force.
* `Chains.Upheld.lets_verdict` — **what gets through is what the policy's rules decide**, and what
  they leave open to the rules from elsewhere; `TunnelEgress.upheld_forward`,
  `TunnelEgress.upheld_input`, `ProxyEgress.upheld_output` say so in the words of the policies.
-/

namespace Dvpnd

open Effect (Prog Machine)
open Effect.Prog (Safe Fine)

/-! ## Tables -/

/-- The tables are such as runs leave that may have been cut off. -/
def Layout.Kept (l : Layout) (ipv6 : Bool) (w : String → FilterTable) : Prop :=
  ∃ base : String → String → List (List String), Host.Inv l ipv6 ⟨w, base⟩

/-- The policy is in force. -/
def Chains.Upheld {l : Layout} (c : Chains l) (ipv6 : Bool) (w : String → FilterTable) : Prop :=
  ∃ base : String → String → List (List String), Host.Inv l ipv6 ⟨w, base⟩ ∧
    ∀ f ∈ families ipv6, c.Installed f (base f.tool) (w f.tool)

/-- Nothing of the node is left. -/
def Layout.Removed (l : Layout) (ipv6 : Bool) (w : String → FilterTable) : Prop :=
  l.Kept ipv6 w ∧ ∀ f ∈ families ipv6, l.Gone (w f.tool)

variable {l : Layout} {c : Chains l} {ipv6 : Bool} {w : String → FilterTable}

theorem Chains.Upheld.kept (h : c.Upheld ipv6 w) : l.Kept ipv6 w := by
  obtain ⟨base, hinv, -⟩ := h
  exact ⟨base, hinv⟩

theorem Layout.Kept.of_clean (h : ∀ f ∈ families ipv6, l.Clean (w f.tool)) : l.Kept ipv6 w :=
  ⟨fun tool => (w tool).rules, fun f hf => (h f hf).sound⟩

section Runs

variable {κ τ : Type} {A : Prop} {live : τ → Bool}
  {other : κ → (String → FilterTable) × τ → Bool × (String → FilterTable) × τ}

/-- What holds wherever an operation of a service is cut off.  The tables are such as runs leave;
and under the condition `A`, that the operation did not start with something left over, the
policy is in force as long as what it is for is live. -/
structure Shielded (A : Prop) (c : Chains l) (ipv6 : Bool) (live : τ → Bool)
    (x : (String → FilterTable) × τ) : Prop where
  kept : l.Kept ipv6 x.1
  upheld : A → live x.2 = true → c.Upheld ipv6 x.1

/-- Neither that nor anything of the policy is there. -/
def TornDown (l : Layout) (ipv6 : Bool) (live : τ → Bool) (x : (String → FilterTable) × τ) : Prop :=
  live x.2 = false ∧ l.Removed ipv6 x.1

theorem Shielded.of_upheld {x : (String → FilterTable) × τ} (h : c.Upheld ipv6 x.1) :
    Shielded A c ipv6 live x :=
  ⟨h.kept, fun _ _ => h⟩

theorem Shielded.of_absent {x : (String → FilterTable) × τ} (h : l.Kept ipv6 x.1)
    (habsent : A → live x.2 = false) : Shielded A c ipv6 live x :=
  ⟨h, fun hA hlive => absurd (hlive.symm.trans (habsent hA)) Bool.noConfusion⟩

theorem TornDown.shielded {x : (String → FilterTable) × τ} (h : TornDown l ipv6 live x) :
    Shielded A c ipv6 live x :=
  .of_absent h.2.1 fun _ => h.1

/-- `up`, with nothing live or something left over: at its end the policy is in force. -/
theorem raise_safe (h : l.Kept ipv6 w) {t : τ} (habsent : A → live t = false) :
    Safe (allTables.beside other) () (Shielded A c ipv6 live)
      (Fine fun x => c.Upheld ipv6 x.1 ∧ x.2 = t) (c.up (families ipv6)).inner (w, t) := by
  obtain ⟨base, hinv⟩ := h
  refine ((c.up_safe hinv).inner t).mono ?_ ?_
  · rintro x ⟨hx, rfl⟩
    exact .of_absent ⟨base, fun f hf => (hx f hf).1⟩ habsent
  · rintro err x ⟨⟨hnone, hx⟩, hrest⟩
    exact ⟨hnone, ⟨base, fun f hf => (hx f hf).1.1, fun f hf => (hx f hf).2⟩, hrest⟩

/-- `down`, once nothing is live: at its end nothing is left. -/
theorem lower_safe {α : Type} (h : l.Kept ipv6 w) {t : τ} (habsent : A → live t = false)
    (result : α) :
    Safe (allTables.beside other) () (Shielded A c ipv6 live)
      (fun a x => a = result ∧ x.2 = t ∧ l.Removed ipv6 x.1)
      ((l.down (families ipv6)).inner >>= fun _ => .ret result) (w, t) := by
  obtain ⟨base, hinv⟩ := h
  have hdown : Safe (allTables.beside other) () (Shielded A c ipv6 live)
      (fun _ x => x.2 = t ∧ l.Removed ipv6 x.1) (l.down (families ipv6)).inner (w, t) := by
    refine ((Layout.down_safe hinv).inner t).mono ?_ ?_
    · rintro x ⟨hx, rfl⟩
      exact .of_absent ⟨base, hx⟩ habsent
    · rintro - x ⟨⟨-, hx⟩, hrest⟩
      exact ⟨hrest, ⟨base, fun f hf => (hx f hf).1⟩, fun f hf => (hx f hf).2⟩
  refine hdown.bind ?_
  rintro - x ⟨rfl, hremoved⟩
  exact .ret (.of_absent hremoved.1 habsent) ⟨rfl, rfl, hremoved⟩

end Runs

/-! ## The rules of others -/

/-- What others do to the tables: they append accept rules to FORWARD and delete them, and have
commands for another table. -/
inductive Outsider : List String → Prop
  | append (m : List String) : Outsider ("-A" :: "FORWARD" :: Host.acceptRule m)
  | delete (m : List String) : Outsider ("-D" :: "FORWARD" :: Host.acceptRule m)
  | elsewhere (args : List String) : Outsider ("-t" :: args)

/-- Between the two tables only rules from elsewhere have changed. -/
structure Layout.Beyond (l : Layout) (base base' : String → List (List String))
    (t t' : FilterTable) : Prop where
  sound : l.Sound base' t'
  names : t'.names = t.names
  chains : ∀ x, x ∉ builtins → t'.rules x = t.rules x
  front : ∀ b ∈ builtins, ∃ js, t.rules b = js ++ base b ∧ t'.rules b = js ++ base' b

variable {base base' : String → List (List String)} {t t' : FilterTable}

theorem Layout.Beyond.refl (h : l.Sound base t) : l.Beyond base base t t where
  sound := h
  names := rfl
  chains _ _ := rfl
  front b hb := by
    obtain ⟨js, heq, -⟩ := h.front b hb
    exact ⟨js, heq, heq⟩

/-- A jump is there as it was. -/
theorem Layout.Beyond.jump_mem (h : l.Beyond base base' t t') (hsound : l.Sound base t) {b : String}
    {j : List String} (hj : b :: j ∈ l.jumps) : j ∈ t'.rules b ↔ j ∈ t.rules b := by
  obtain ⟨js, heq, heq'⟩ := h.front b (jump_cases hj).1
  rw [heq, heq', List.mem_append, List.mem_append, or_iff_left (hsound.jump_notMem hj),
    or_iff_left (h.sound.jump_notMem hj)]

theorem Layout.Beyond.installed (h : l.Beyond base base' t t') (hsound : l.Sound base t)
    {f : Family} (hinst : c.Installed f base t) : c.Installed f base' t' where
  chains name hname := by
    rw [h.names, h.chains name (l.names_own name hname).1]
    exact hinst.chains name hname
  jumps b j hj := by
    obtain ⟨-, front, heq, hmem⟩ := hinst.jumps b j hj
    refine h.sound.jump_once hj ((h.jump_mem hsound hj).2 ?_)
    rw [heq]
    exact List.mem_append_left _ hmem

/-- Other rules from elsewhere in a chain `iptables` has. -/
theorem Layout.Sound.put_rest (h : l.Sound base t) {b : String} (hb : b ∈ builtins)
    (rest : List (List String)) (hrest : ∀ r ∈ rest, l.Foreign r) :
    ∃ js, t.rules b = js ++ base b ∧ (∀ j ∈ js, b :: j ∈ l.jumps) ∧
      l.Beyond base (Function.update base b rest) t (t.put b (js ++ rest)) := by
  obtain ⟨js, heq, hnodup, hjs⟩ := h.front b hb
  refine ⟨js, heq, hjs, ⟨h.builtin, fun x hx => ?_, fun x hx r hr => ?_, fun x hx hnot r hr => ?_⟩, rfl,
    fun x hx => Function.update_of_ne (fun hxb : x = b => hx (hxb ▸ hb)) _ _, fun x hx => ?_⟩
  · show ∃ js', Function.update t.rules b (js ++ rest) x = js' ++ Function.update base b rest x ∧ _
    by_cases hxb : x = b
    · subst hxb
      rw [Function.update_self, Function.update_self]
      exact ⟨js, rfl, hnodup, hjs⟩
    · rw [Function.update_of_ne hxb, Function.update_of_ne hxb]
      exact h.front x hx
  · by_cases hxb : x = b
    · subst hxb
      rw [Function.update_self] at hr
      exact hrest r hr
    · rw [Function.update_of_ne hxb] at hr
      exact h.foreign x hx r hr
  · change r ∈ Function.update t.rules b (js ++ rest) x at hr
    rw [Function.update_of_ne fun hxb : x = b => hnot (hxb ▸ hb)] at hr
    exact h.others x hx hnot r hr
  · show ∃ js', _ ∧ Function.update t.rules b (js ++ rest) x = js' ++ Function.update base b rest x
    by_cases hxb : x = b
    · subst hxb
      rw [Function.update_self, Function.update_self]
      exact ⟨js, heq, rfl⟩
    · rw [Function.update_of_ne hxb, Function.update_of_ne hxb]
      obtain ⟨js', heq', -⟩ := h.front x hx
      exact ⟨js', heq', heq'⟩

theorem Outsider.beyond {args : List String} (ho : Outsider args) (h : l.Sound base t) :
    ∃ base', l.Beyond base base' t (t.command args).2 := by
  have hfwd : "FORWARD" ∈ builtins := List.mem_cons_self
  cases ho with
  | append m =>
      have hknown : "FORWARD" ∈ t.names ∧ t.Known (Host.acceptRule m) :=
        ⟨h.builtin _ hfwd, "ACCEPT", target_jump m _, .inl List.mem_cons_self⟩
      obtain ⟨js, heq, -, hbeyond⟩ := h.put_rest hfwd (base "FORWARD" ++ [Host.acceptRule m])
        fun r hr => (List.mem_append.1 hr).elim (h.foreign _ hfwd r)
          fun hr => List.mem_singleton.1 hr ▸ Host.acceptRule_foreign m
      show ∃ base', l.Beyond base base' t (t.append "FORWARD" (Host.acceptRule m)).2
      rw [FilterTable.append, if_pos hknown, heq, List.append_assoc]
      exact ⟨_, hbeyond⟩
  | delete m =>
      show ∃ base', l.Beyond base base' t (t.delete "FORWARD" (Host.acceptRule m)).2
      rw [FilterTable.delete]
      split
      · obtain ⟨js, heq, hjs, hbeyond⟩ := h.put_rest hfwd
          ((base "FORWARD").erase (Host.acceptRule m))
          fun r hr => h.foreign _ hfwd r (List.mem_of_mem_erase hr)
        have hnot : Host.acceptRule m ∉ js := fun hin =>
          Layout.jump_not_foreign (hjs _ hin) (Host.acceptRule_foreign m)
        rw [heq, List.erase_append_right _ hnot]
        exact ⟨_, hbeyond⟩
      · exact ⟨base, .refl h⟩
  | elsewhere args => exact ⟨base, .refl h⟩

/-- A command of others, on the tables of all families. -/
theorem Outsider.tables {args : List String} (ho : Outsider args) (tool : String)
    {base : String → String → List (List String)} (h : Host.Inv l ipv6 ⟨w, base⟩) :
    ∃ base' : String → String → List (List String), ∀ f ∈ families ipv6,
      l.Beyond (base f.tool) (base' f.tool) (w f.tool) ((allTables.exec (tool, args) w).2 f.tool) := by
  by_cases htool : ∃ f ∈ families ipv6, f.tool = tool
  · obtain ⟨f₀, hf₀, rfl⟩ := htool
    obtain ⟨b, hb⟩ := ho.beyond (h f₀ hf₀)
    refine ⟨Function.update base f₀.tool b, fun f hf => ?_⟩
    show l.Beyond _ _ _ (Function.update w f₀.tool _ f.tool)
    by_cases heq : f.tool = f₀.tool
    · rw [heq, Function.update_self, Function.update_self]
      exact hb
    · rw [Function.update_of_ne heq, Function.update_of_ne heq]
      exact .refl (h f hf)
  · refine ⟨base, fun f hf => ?_⟩
    show l.Beyond _ _ _ (Function.update w tool _ f.tool)
    rw [Function.update_of_ne fun heq => htool ⟨f, hf, heq⟩]
    exact .refl (h f hf)

theorem Layout.Kept.command (h : l.Kept ipv6 w) {args : List String} (ho : Outsider args)
    (tool : String) : l.Kept ipv6 (allTables.exec (tool, args) w).2 := by
  obtain ⟨base, hinv⟩ := h
  obtain ⟨base', hbeyond⟩ := ho.tables tool hinv
  exact ⟨base', fun f hf => (hbeyond f hf).sound⟩

theorem Chains.Upheld.command (h : c.Upheld ipv6 w) {args : List String} (ho : Outsider args)
    (tool : String) : c.Upheld ipv6 (allTables.exec (tool, args) w).2 := by
  obtain ⟨base, hinv, hinst⟩ := h
  obtain ⟨base', hbeyond⟩ := ho.tables tool hinv
  exact ⟨base', fun f hf => (hbeyond f hf).sound,
    fun f hf => (hbeyond f hf).installed (hinv f hf) (hinst f hf)⟩

/-! ## Packets -/

/-- The fate a verdict is. -/
def Fate.ofVerdict : Option Target → Fate
  | none => .returned
  | some .accept => .accepted
  | some .drop => .dropped
  | some .reject => .dropped

/-- Whether a packet gets through, when `rest` says so for one that comes back. -/
def Fate.lets (rest : Bool) : Fate → Bool
  | .accepted => true
  | .dropped => false
  | .returned => rest

/-- `holds` is right about the rules of a policy: in the form in which they stand in a table, the
packet meets those it matches. -/
def MeetsRules (holds : List String → Bool) (rules : List Rule) (p : Packet) : Prop :=
  ∀ r ∈ rules, holds (r.args.drop 2) = r.holds p

section Packets

variable {holds : List String → Bool} {f : Family} {p : Packet}

/-- The rules of a policy in a table decide as they do in the policy. -/
theorem fate_args (enter : String → Fate) {rules : List Rule} (h : MeetsRules holds rules p) :
    fate enter holds (rules.map fun r => r.args.drop 2) =
      Fate.ofVerdict (FirstMatch.verdict Rule.holds Rule.target rules p) := by
  induction rules with
  | nil => rfl
  | cons r rules ih =>
      have hrest := ih fun x hx => h x (List.mem_cons_of_mem _ hx)
      have htarget : target (r.args.drop 2) = some r.target.text := target_jump _ _
      rw [List.map_cons, fate, FirstMatch.verdict, h r List.mem_cons_self, htarget, hrest]
      by_cases hr : r.holds p = true
      · rw [if_pos hr, if_pos hr]
        cases r.target with
        | accept => rfl
        | drop => rfl
        | reject => rfl
      · rw [if_neg hr, if_neg hr]

/-- The rules of one chain, as they stand in a table. -/
theorem filter_args (rules : List Rule) (name : String) :
    ((rules.map Rule.args).filter (·.getD 1 "" = name)).map (·.drop 2) =
      (rules.filter (·.chain = name)).map fun r => r.args.drop 2 := by
  rw [List.filter_map, List.map_map]
  rfl

/-- **With a policy in force**, a packet that meets a jump gets through as the rules of the
chain decide, and those from elsewhere where they do not. -/
theorem Chains.Upheld.lets_eq (h : c.Upheld ipv6 w) (hl : l.Simple) (hf : f ∈ families ipv6)
    (depth : Nat) (pol : Bool) {b : String} {j : List String} {name : String} (hj : b :: j ∈ l.jumps)
    (htarget : target j = some name) (hmet : holds j = true) :
    ∃ rest, (w f.tool).lets holds (depth + 1) pol b =
      (fate ((w f.tool).enter holds depth) holds
        (((c.rules f).filter (·.getD 1 "" = name)).map (·.drop 2))).lets rest := by
  obtain ⟨base, hinv, hinst⟩ := h
  have hsound : l.Sound (base f.tool) (w f.tool) := hinv f hf
  obtain ⟨hb, own, hown, howns⟩ := Layout.jump_cases hj
  obtain rfl : own = name := Option.some.inj (howns.symm.trans htarget)
  -- the jump that is in front is this one
  have hrules : (w f.tool).rules b = j :: base f.tool b := by
    obtain ⟨-, front, heq, hmem⟩ := (hinst f hf).jumps b j hj
    rcases hsound.front_cases hl hb with hnone | ⟨j', -, hj', -, -, hfront⟩
    · exact absurd (hnone ▸ heq ▸ List.mem_append_left _ hmem) (hsound.jump_notMem hj)
    · rw [hfront, hl.single b j j' hj hj']
  obtain ⟨hname, hfilled⟩ := (hinst f hf).chains own hown
  have henter : (w f.tool).enter holds (depth + 1) own =
      fate ((w f.tool).enter holds depth) holds ((w f.tool).rules own) :=
    if_pos ⟨hname, (l.names_own own hown).1⟩
  refine ⟨(w f.tool).passes holds (depth + 1) pol (base f.tool b), ?_⟩
  rw [FilterTable.lets, hrules, passes_jump hl hown htarget hmet, henter, hfilled]
  cases fate ((w f.tool).enter holds depth) holds
    (((c.rules f).filter (·.getD 1 "" = own)).map (·.drop 2)) with
  | accepted => rfl
  | dropped => rfl
  | returned => rfl

/-- The same, for the rules a policy is given by. -/
theorem Chains.Upheld.lets_verdict (h : c.Upheld ipv6 w) (hl : l.Simple) (hf : f ∈ families ipv6)
    (depth : Nat) (pol : Bool) {rules : List Rule} (hrules : c.rules f = rules.map Rule.args)
    (hmeets : MeetsRules holds rules p) {b : String} {j : List String} {name : String}
    (hj : b :: j ∈ l.jumps) (htarget : target j = some name) (hmet : holds j = true) :
    ∃ rest, (w f.tool).lets holds (depth + 1) pol b =
      (Fate.ofVerdict (verdict rules name p)).lets rest := by
  obtain ⟨rest, heq⟩ := h.lets_eq hl hf depth pol hj htarget hmet
  refine ⟨rest, heq.trans ?_⟩
  rw [hrules, filter_args, fate_args _ fun r hr => hmeets r (List.mem_of_mem_filter hr)]
  rfl

/-- A packet that comes in on the tunnel is not forwarded if the policy drops it. -/
theorem TunnelEgress.upheld_forward {e : TunnelEgress} {policy : Egress}
    (h : (e.chains policy).Upheld ipv6 w) (hf : f ∈ families ipv6) (depth : Nat) (pol : Bool)
    (hmeets : MeetsRules holds (e.rules policy f) p)
    (hin : holds ["-i", e.interface, "-j", e.forwardChain] = true)
    (hlets : (w f.tool).lets holds (depth + 1) pol "FORWARD" = true) : ¬ e.Drops policy f p := by
  classical
  obtain ⟨rest, heq⟩ := h.lets_verdict e.layout_simple hf depth pol rfl hmeets List.mem_cons_self
    (target_jump ["-i", e.interface] e.forwardChain) hin
  intro hdrops
  rw [e.verdict_forward, if_pos hdrops] at heq
  exact Bool.false_ne_true (heq.symm.trans hlets)

/-- A packet that comes in on the tunnel is delivered to the host just if the policy accepts
it. -/
theorem TunnelEgress.upheld_input {e : TunnelEgress} {policy : Egress}
    (h : (e.chains policy).Upheld ipv6 w) (hf : f ∈ families ipv6) (depth : Nat) (pol : Bool)
    (hmeets : MeetsRules holds (e.rules policy f) p)
    (hin : holds ["-i", e.interface, "-j", e.inputChain] = true) :
    (w f.tool).lets holds (depth + 1) pol "INPUT" = true ↔ TunnelEgress.Accepts policy f p := by
  classical
  obtain ⟨rest, heq⟩ := h.lets_verdict e.layout_simple hf depth pol rfl hmeets
    (List.mem_cons_of_mem _ List.mem_cons_self) (target_jump ["-i", e.interface] e.inputChain) hin
  rw [heq, e.verdict_input]
  by_cases haccepts : TunnelEgress.Accepts policy f p
  · rw [if_pos haccepts]
    exact iff_of_true rfl haccepts
  · rw [if_neg haccepts]
    exact iff_of_false Bool.false_ne_true haccepts

end Packets

end Dvpnd
