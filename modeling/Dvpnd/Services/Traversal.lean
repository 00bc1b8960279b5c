import Dvpnd.Services.Chains

/-!
# What gets through while the rules go in

`up` is to put its rules in without a moment at which a packet passes that was dropped before:
it fills its chains before it jumps to them.  That is so when it starts without its jumps.
**A node that died without `down` has left them behind**, and `up` begins by emptying the
chains they lead to; until these are filled again, the accept rules further down decide.

* `fate`, `FilterTable.lets` — what becomes of a packet in a chain, and in a table.
* `enter_frame` — the rules from elsewhere do not see the node's chains.
* `Underway.not_lets` — between two commands of `up`: a packet that the rules from elsewhere do
  not let through, nor the rules of the policy, is not let through.
* `up_opens_no_window` — **`up` lets nothing through that was dropped when it started, exactly if
  it started without its jumps, or the rules from elsewhere drop it as well**;
  `flush_opens_window`: after a crash it does.
-/

namespace Dvpnd

open Effect (Prog)

/-! ## Packets in chains -/

/-- What becomes of a packet in a chain: it is decided, or it comes back. -/
inductive Fate
  | accepted
  | dropped
  | returned
  deriving DecidableEq

/-- The fate of a packet under some rules.  `holds` says which rules it meets, and `enter` what
becomes of it in another chain; a target that is neither a verdict nor a chain is passed
over. -/
def fate (enter : String → Fate) (holds : List String → Bool) : List (List String) → Fate
  | [] => .returned
  | rule :: rest =>
      if holds rule = true then
        match target rule with
        | none => fate enter holds rest
        | some x =>
            if x = "ACCEPT" then .accepted
            else if x = "DROP" ∨ x = "REJECT" then .dropped
            else if x = "RETURN" then .returned
            else
              match enter x with
              | .accepted => .accepted
              | .dropped => .dropped
              | .returned => fate enter holds rest
      else fate enter holds rest

namespace FilterTable

/-- The fate of a packet in a chain that is jumped to, through so many jumps. -/
def enter (t : FilterTable) (holds : List String → Bool) : Nat → String → Fate
  | 0, _ => .returned
  | depth + 1, x =>
      if x ∈ t.names ∧ x ∉ builtins then fate (t.enter holds depth) holds (t.rules x) else .returned

/-- The packet gets through the rules of a chain `iptables` has, whose policy decides where they
do not. -/
def passes (t : FilterTable) (holds : List String → Bool) (depth : Nat) (policy : Bool)
    (rules : List (List String)) : Bool :=
  match fate (t.enter holds depth) holds rules with
  | .accepted => true
  | .dropped => false
  | .returned => policy

/-- The packet gets through a chain `iptables` has. -/
def lets (t : FilterTable) (holds : List String → Bool) (depth : Nat) (policy : Bool) (b : String) :
    Bool :=
  t.passes holds depth policy (t.rules b)

end FilterTable

section Fate

variable {enter enter' : String → Fate} {holds : List String → Bool} {rules : List (List String)}

/-- Only the chains the rules jump to matter. -/
theorem fate_congr (h : ∀ r ∈ rules, ∀ x, target r = some x → enter x = enter' x) :
    fate enter holds rules = fate enter' holds rules := by
  induction rules with
  | nil => rfl
  | cons rule rest ih =>
      have hrest := ih fun r hr => h r (List.mem_cons_of_mem _ hr)
      unfold fate
      cases htarget : target rule with
      | none => rw [hrest]
      | some x =>
          dsimp only
          rw [h rule List.mem_cons_self x htarget, hrest]

variable (enter enter' holds) in
/-- Verdicts that are not all there yet are those of the whole, or none. -/
theorem fate_begun {done : List (List String)}
    (h : ∀ r ∈ rules, ∃ x ∈ targets, target r = some x) (hdone : done <+: rules) :
    fate enter holds done = .returned ∨ fate enter holds done = fate enter' holds rules := by
  induction rules generalizing done with
  | nil =>
      obtain rfl := List.prefix_nil.1 hdone
      exact .inl rfl
  | cons rule rest ih =>
      cases done with
      | nil => exact .inl rfl
      | cons first done =>
          obtain ⟨rfl, hrest⟩ := List.cons_prefix_cons.1 hdone
          have ih' := ih (fun r hr => h r (List.mem_cons_of_mem _ hr)) hrest
          obtain ⟨x, hx, htarget⟩ := h first List.mem_cons_self
          unfold fate
          rw [htarget]
          by_cases hholds : holds first = true
          · rw [if_pos hholds, if_pos hholds]
            dsimp only
            -- a verdict is the same with or without the rest
            have hverdict : x = "ACCEPT" ∨ x = "DROP" ∨ x = "REJECT" := by simpa [targets] using hx
            rcases hverdict with rfl | rfl | rfl
            · exact .inr rfl
            · exact .inr rfl
            · exact .inr rfl
          · rw [if_neg hholds, if_neg hholds]
            exact ih'

/-- Rules that only drop accept nothing. -/
theorem fate_ne_accepted (h : ∀ r ∈ rules, target r = some "DROP") :
    fate enter holds rules ≠ .accepted := by
  induction rules with
  | nil => exact fun h => by cases h
  | cons rule rest ih =>
      unfold fate
      rw [h rule List.mem_cons_self]
      split
      · exact fun h => by cases h
      · exact ih fun r hr => h r (List.mem_cons_of_mem _ hr)

end Fate

/-! ## The rules from elsewhere -/

variable {l : Layout} {base : String → List (List String)} {t t' : FilterTable}
  {holds : List String → Bool} {depth : Nat} {policy : Bool}

/-- The tables have the same chains beside those of the node and of `iptables`. -/
def Layout.Agree (l : Layout) (t t' : FilterTable) : Prop :=
  ∀ x, x ∉ l.names → x ∉ builtins → (x ∈ t'.names ↔ x ∈ t.names) ∧ t'.rules x = t.rules x

theorem Layout.Foreign.notMem {rule : List String} (h : l.Foreign rule) {x : String}
    (htarget : target rule = some x) : x ∉ l.names :=
  fun hx => h x hx htarget

/-- A chain from elsewhere is entered as before: it does not lead to those of the node. -/
theorem enter_frame (h : l.Sound base t) (hagree : l.Agree t t') {x : String} (hx : x ∉ l.names) :
    t'.enter holds depth x = t.enter holds depth x := by
  induction depth generalizing x with
  | zero => rfl
  | succ depth ih =>
      unfold FilterTable.enter
      by_cases hb : x ∈ builtins
      · rw [if_neg fun hc => hc.2 hb, if_neg fun hc => hc.2 hb]
      · obtain ⟨hnames, hrules⟩ := hagree x hx hb
        by_cases hin : x ∈ t.names
        · rw [if_pos ⟨hnames.2 hin, hb⟩, if_pos ⟨hin, hb⟩, hrules]
          exact fate_congr fun r hr y hy => ih ((h.others x hin hb r hr).notMem hy)
        · rw [if_neg fun hc => hin (hnames.1 hc.1), if_neg fun hc => hin hc.1]

/-- So the rules from elsewhere decide as before. -/
theorem passes_frame (h : l.Sound base t) (hagree : l.Agree t t') {rules : List (List String)}
    (hforeign : ∀ r ∈ rules, l.Foreign r) :
    t'.passes holds depth policy rules = t.passes holds depth policy rules := by
  unfold FilterTable.passes
  rw [fate_congr fun r hr x hx => enter_frame h hagree ((hforeign r hr).notMem hx)]

theorem Chains.Underway.agree {c : Chains l} {f : Family} (h : c.Underway f t t') : l.Agree t t' := by
  intro x hx hb
  cases h with
  | filling hapart _ => exact ⟨hapart.names x hx, hapart.rules x hx⟩
  | jumping hnames hrules _ => exact ⟨hnames x hx, hrules x hx hb⟩

/-! ## Between two commands -/

/-- No two jumps start from one chain, and none of the node's chains has the name of a
verdict. -/
structure Layout.Simple (l : Layout) : Prop where
  single : ∀ b j j', b :: j ∈ l.jumps → b :: j' ∈ l.jumps → j = j'
  chains : "RETURN" ∉ l.names

theorem TunnelEgress.layout_simple (e : TunnelEgress) : e.layout.Simple where
  single b j j' h h' := by
    simp only [layout, List.mem_cons, List.not_mem_nil, or_false, List.cons.injEq] at h h'
    rcases h with ⟨rfl, rfl⟩ | ⟨rfl, rfl⟩ <;> rcases h' with ⟨hb, rfl⟩ | ⟨hb, rfl⟩
    · rfl
    · exact absurd hb (by decide)
    · exact absurd hb (by decide)
    · rfl
  chains h := by
    have hname : ∀ name ∈ e.layout.names, name.toList.take 5 = "DVPND".toList := by
      simp [layout, forwardChain, inputChain]
    exact absurd (hname _ h) (by decide)

theorem ProxyEgress.layout_simple (e : ProxyEgress) : e.layout.Simple where
  single b j j' h h' := by
    simp only [layout, List.mem_cons, List.not_mem_nil, or_false, List.cons.injEq] at h h'
    rw [h.2, h'.2]
  chains := by
    show "RETURN" ∉ [proxyChain]
    decide

/-- The rules of a policy accept the packet: those of a chain it is sent to from `b`. -/
def Chains.Accepts (c : Chains l) (f : Family) (holds : List String → Bool) (b : String) : Prop :=
  ∃ j name, b :: j ∈ l.jumps ∧ holds j = true ∧ target j = some name ∧
    fate (fun _ => .returned) holds (((c.rules f).filter (·.getD 1 "" = name)).map (·.drop 2)) =
      .accepted

/-- The rules of a policy have verdicts for targets. -/
theorem Chains.rules_target (c : Chains l) (f : Family) {name : String} {r : List String}
    (h : r ∈ ((c.rules f).filter (·.getD 1 "" = name)).map (·.drop 2)) :
    ∃ x ∈ targets, target r = some x := by
  obtain ⟨rule, hrule, rfl⟩ := List.mem_map.1 h
  obtain ⟨own, -, m, x, hx, rfl⟩ := c.rules_own f rule (List.mem_of_mem_filter hrule)
  exact ⟨x, hx, target_jump m x⟩

/-- One jump, or none, is ahead of the rules from elsewhere. -/
theorem Layout.Sound.front_cases (h : l.Sound base t) (hl : l.Simple) {b : String}
    (hb : b ∈ builtins) :
    t.rules b = base b ∨ ∃ j name, b :: j ∈ l.jumps ∧ target j = some name ∧ name ∈ l.names ∧
      t.rules b = j :: base b := by
  obtain ⟨js, heq, hnodup, hjs⟩ := h.front b hb
  rcases js with _ | ⟨j, _ | ⟨j', js⟩⟩
  · exact .inl heq
  · have hj := hjs j List.mem_cons_self
    obtain ⟨-, name, hname, htarget⟩ := jump_cases hj
    exact .inr ⟨j, name, hj, htarget, hname, heq⟩
  · have hsame : j = j' := hl.single b j j' (hjs j List.mem_cons_self)
      (hjs j' (List.mem_cons_of_mem _ List.mem_cons_self))
    exact absurd (hsame ▸ List.mem_cons_self) (List.nodup_cons.1 hnodup).1

/-- The packet meets a jump and is sent to the node's chain; if it comes back, the rules from
elsewhere decide. -/
theorem passes_jump (hl : l.Simple) {j : List String} {name : String} (hname : name ∈ l.names)
    (htarget : target j = some name) (hj : holds j = true) (rules : List (List String)) :
    t.passes holds depth policy (j :: rules) =
      match t.enter holds depth name with
      | .accepted => true
      | .dropped => false
      | .returned => t.passes holds depth policy rules := by
  have hverdict := (l.names_own name hname).2
  have hreturn : name ≠ "RETURN" := fun h => hl.chains (h ▸ hname)
  have haccept : name ≠ "ACCEPT" := fun h => hverdict (by rw [h]; decide)
  have hdrop : ¬ (name = "DROP" ∨ name = "REJECT") := by
    rintro (h | h) <;> exact hverdict (by rw [h]; decide)
  unfold FilterTable.passes
  rw [fate, if_pos hj, htarget]
  dsimp only
  rw [if_neg haccept, if_neg hdrop, if_neg hreturn]
  cases t.enter holds depth name <;> rfl

/-- A jump the packet does not meet makes no difference. -/
theorem passes_unmet {j : List String} (hj : holds j ≠ true) (rules : List (List String)) :
    t.passes holds depth policy (j :: rules) = t.passes holds depth policy rules := by
  unfold FilterTable.passes
  rw [fate, if_neg hj]

/-- As far as they have gone in, the rules of a policy that does not accept the packet do not
either. -/
theorem Chains.fate_ne_accepted {c : Chains l} {f : Family} {b : String} (h : ¬ c.Accepts f holds b)
    {j : List String} {name : String} (hj : b :: j ∈ l.jumps) (hholds : holds j = true)
    (htarget : target j = some name) {done : List (List String)} (hdone : done <+: c.rules f)
    {enter : String → Fate} :
    fate enter holds ((done.filter (·.getD 1 "" = name)).map (·.drop 2)) ≠ .accepted := by
  intro haccept
  rcases fate_begun enter (fun _ => .returned) holds (fun r hr => c.rules_target f hr)
    ((hdone.filter _).map _) with hreturned | hsame
  · rw [hreturned] at haccept
    cases haccept
  · exact h ⟨j, name, hj, hholds, htarget, hsame.symm.trans haccept⟩

/-- A chain of the node that is as it was is entered as it was. -/
theorem enter_own (h : l.Sound base t) (hagree : l.Agree t t') {name : String}
    (hnames : name ∈ t'.names ↔ name ∈ t.names) (hrules : t'.rules name = t.rules name) :
    t'.enter holds depth name = t.enter holds depth name := by
  cases depth with
  | zero => rfl
  | succ depth =>
      unfold FilterTable.enter
      by_cases hin : name ∈ t.names ∧ name ∉ builtins
      · rw [if_pos ⟨hnames.2 hin.1, hin.2⟩, if_pos hin, hrules]
        exact fate_congr fun r hr x hx =>
          enter_frame h hagree ((h.others name hin.1 hin.2 r hr).notMem hx)
      · rw [if_neg fun hc => hin ⟨hnames.1 hc.1, hc.2⟩, if_neg hin]

/-- Entering a chain is to meet its rules, or none. -/
theorem enter_ne_accepted {name : String}
    (h : ∀ enter, fate enter holds (t.rules name) ≠ .accepted) :
    t.enter holds depth name ≠ .accepted := by
  cases depth with
  | zero => exact fun h => by cases h
  | succ depth =>
      unfold FilterTable.enter
      split
      · exact h _
      · exact fun h => by cases h

namespace Chains.Underway

variable {c : Chains l} {f : Family} {b : String}

/-- The node's chain does not accept the packet: it is as it was when the packet was not let
through, or it holds what has gone in of the policy's rules. -/
theorem enter_ne (hl : l.Simple) (hs : l.Sound base t) (h : c.Underway f t t') (hb : b ∈ builtins)
    (hrefuse : ¬ c.Accepts f holds b) (hstart : t.lets holds depth policy b = false)
    {j : List String} {name : String} (hj : b :: j ∈ l.jumps) (hname : name ∈ l.names)
    (htarget : target j = some name) (hholds : holds j = true) (heq : t'.rules b = j :: base b) :
    t'.enter holds depth name ≠ .accepted := by
  have hagree := h.agree
  cases h with
  | filling hapart hown =>
      rcases hown name hname with ⟨hrules, hnames⟩ | ⟨done, hdone, hrules⟩
      · -- the jump was there from the start
        have hout : b ∉ l.names := fun hin => (l.names_own b hin).1 hb
        rw [enter_own hs hagree hnames hrules]
        intro haccept
        unfold FilterTable.lets at hstart
        rw [← hapart.rules b hout, heq, passes_jump hl hname htarget hholds, haccept] at hstart
        cases hstart
      · refine enter_ne_accepted fun enter => ?_
        rw [hrules]
        exact c.fate_ne_accepted hrefuse hj hholds htarget hdone
  | jumping _ _ hfilled =>
      refine enter_ne_accepted fun enter => ?_
      rw [(hfilled name hname).2]
      exact c.fate_ne_accepted hrefuse hj hholds htarget (List.prefix_refl _)

/-- **Between two commands of `up`** a packet is not let through that was not when it started, if
neither the rules from elsewhere let it through nor those of the policy. -/
theorem not_lets (hl : l.Simple) (hs : l.Sound base t) (hs' : l.Sound base t')
    (h : c.Underway f t t') (hb : b ∈ builtins) (hrefuse : ¬ c.Accepts f holds b)
    (hbase : t.passes holds depth policy (base b) = false)
    (hstart : t.lets holds depth policy b = false) : t'.lets holds depth policy b = false := by
  have hbase' : t'.passes holds depth policy (base b) = false :=
    (passes_frame hs h.agree (hs.foreign b hb)).trans hbase
  unfold FilterTable.lets
  rcases hs'.front_cases hl hb with heq | ⟨j, name, hj, htarget, hname, heq⟩
  · rw [heq]
    exact hbase'
  · rw [heq]
    by_cases hholds : holds j = true
    · rw [passes_jump hl hname htarget hholds]
      have hne := h.enter_ne hl hs hb hrefuse hstart hj hname htarget hholds heq
      cases henter : t'.enter holds depth name with
      | accepted => exact absurd henter hne
      | dropped => rfl
      | returned => exact hbase'
    · rw [passes_unmet hholds]
      exact hbase'

end Chains.Underway

/-- An empty chain is left at once. -/
theorem enter_empty {name : String} (h : t.rules name = []) :
    t.enter holds depth name = .returned := by
  cases depth with
  | zero => rfl
  | succ depth =>
      unfold FilterTable.enter
      rw [h]
      exact ite_self _

/-- **With the node's chains empty, the rules from elsewhere decide**, whether or not its jumps are
there. -/
theorem lets_of_empty (hl : l.Simple) (hs : l.Sound base t) (hs' : l.Sound base t')
    (hapart : l.Apart t t') (hempty : l.Filled [] t') {b : String} (hb : b ∈ builtins) :
    t'.lets holds depth policy b = t.passes holds depth policy (base b) := by
  have hagree : l.Agree t t' := fun x hx _ => ⟨hapart.names x hx, hapart.rules x hx⟩
  rw [← passes_frame hs hagree (hs.foreign b hb)]
  unfold FilterTable.lets
  rcases hs'.front_cases hl hb with heq | ⟨j, name, hj, htarget, hname, heq⟩
  · rw [heq]
  · rw [heq]
    by_cases hholds : holds j = true
    · rw [passes_jump hl hname htarget hholds, enter_empty (hempty name hname).2]
    · rw [passes_unmet hholds]

/-- At some time in `up` the node's chains are all there, and empty. -/
theorem Chains.up_empties (c : Chains l) {ipv6 : Bool} {h : Host} (hinv : h.Inv l ipv6) {f : Family}
    (hf : f ∈ families ipv6) : ∃ w, Prog.Visits allTables () (c.up (families ipv6)) h.tables w ∧
      l.Sound (h.base f.tool) (w f.tool) ∧ l.Apart (h.tables f.tool) (w f.tool) ∧
        l.Filled [] (w f.tool) := by
  have hempty := (emptyChains_safe c f (hinv f hf)).run.2
  have hvisits : Prog.Visits tables () (c.upFamily f) (h.tables f.tool) _ :=
    (Prog.Visits.run (Prog.each (emptyChain f.tool) l.names) (h.tables f.tool)).left
      (fun _ => rfl) _
  obtain ⟨w, hw, heq⟩ := Prog.Visits.each_at (fun _ => rfl) Family.tool c.upFamily
    (families_tools ipv6) (fun g hg => (c.upFamily_safe g (hinv g hg)).run.1) hf hvisits
  exact ⟨w, hw, heq ▸ hempty⟩

/-- The forward chain of a tunnel accepts nothing, under any policy. -/
theorem TunnelEgress.forward_not_accepts (e : TunnelEgress) (policy : Egress) (f : Family)
    (holds : List String → Bool) : ¬ (e.chains policy).Accepts f holds "FORWARD" := by
  rintro ⟨j, name, hj, -, htarget, haccepted⟩
  simp only [layout, List.mem_cons, List.not_mem_nil, or_false, List.cons.injEq] at hj
  obtain ⟨-, rfl⟩ := hj.resolve_right fun h => absurd h.1 (by decide)
  obtain rfl : e.forwardChain = name := Option.some.inj
    ((target_jump ["-i", e.interface] e.forwardChain).symm.trans htarget)
  refine Dvpnd.fate_ne_accepted (fun r hr => ?_) haccepted
  obtain ⟨args, hargs, rfl⟩ := List.mem_map.1 hr
  obtain ⟨hin, hchain⟩ := List.mem_filter.1 hargs
  obtain ⟨rule, hrule, rfl⟩ := List.mem_map.1 hin
  have hown : rule.chain = e.forwardChain := of_decide_eq_true hchain
  rcases List.mem_append.1 hrule with hfwd | hin
  · rw [show (rule.args.drop 2) = rule.conditions.flatMap Match.args ++ ["-j", rule.target.text] from rfl,
      target_jump, (of_forwardRules hfwd).2]
    rfl
  · exact absurd (hown.symm.trans (of_inputRules hin)) e.chains_ne

namespace Host

/-- **When `up` opens no window.**  Any runs of `up` and `down` may have been before, each complete
or cut off anywhere, with accept rules in between.  A packet that a chain of `iptables` does not
let through when `up` starts, and that the rules of the policy do not accept, is not let through
between any two commands of `up` either, exactly if none of the node's jumps from that chain is in
place at the start, or if the rules from elsewhere do not let it through. -/
theorem up_opens_no_window (l : Layout) (hl : l.Simple) (ipv6 : Bool) (w : String → FilterTable)
    (hclean : ∀ f ∈ families ipv6, l.Clean (w f.tool)) (h : Host)
    (hreach : Steps.Reach (step l ipv6) (fun _ _ => True) (start w) h) (c : Chains l) (f : Family)
    (hf : f ∈ families ipv6) (b : String) (hb : b ∈ builtins) (holds : List String → Bool)
    (depth : Nat) (policy : Bool) (hrefuse : ¬ c.Accepts f holds b)
    (hdropped : (h.tables f.tool).lets holds depth policy b = false) :
    (∀ n, ((c.up (families ipv6)).cut allTables () n h.tables f.tool).lets holds depth policy b =
      false) ↔
    (∀ j, b :: j ∈ l.jumps → j ∉ (h.tables f.tool).rules b) ∨
      (h.tables f.tool).passes holds depth policy (h.base f.tool b) = false := by
  have hinv : Inv l ipv6 h :=
    hreach.invariant (fun f hf => (hclean f hf).sound) fun hinv _ hstep => hinv.step hstep
  have hs := hinv f hf
  constructor
  · intro hnever
    obtain ⟨w', ⟨n, hn⟩, hs', hapart, hempty⟩ := c.up_empties hinv hf
    have hn' := hnever n
    rw [hn, lets_of_empty hl hs hs' hapart hempty hb] at hn'
    exact .inr hn'
  · intro hclear n
    have hbase : (h.tables f.tool).passes holds depth policy (h.base f.tool b) = false := by
      rcases hclear with hnone | hbase
      · -- without a jump the chain has the rules from elsewhere only
        rcases hs.front_cases hl hb with heq | ⟨j, name, hj, -, -, heq⟩
        · rw [← heq]
          exact hdropped
        · exact absurd (heq ▸ List.mem_cons_self) (hnone j hj)
      · exact hbase
    obtain ⟨hs', hunderway⟩ := (c.up_safe hinv).cut n f hf
    exact hunderway.not_lets hl hs hs' hb hrefuse hbase hdropped

/-! ### A client of `wg0` -/

/-- A packet a client sends to a private address. -/
def privatePacket : Packet where
  out := "eth0"
  dst := [10, 0, 0, 1]
  transport := .tcp 80
  reply := false
  origDst := [10, 0, 0, 1]
  origPort := 80
  toHost := false

/-- The rules it meets, of those in FORWARD and the node's chain. -/
def meets (rule : List String) : Bool :=
  [["-i", "wg0", "-j", "DVPND-FWD-wg0"], ["-d", "10.0.0.0/8", "-j", "DROP"],
    ["-i", "wg0", "-j", "ACCEPT"]].contains rule

/-- The IPv4 family. -/
def ipv4 : Family := ⟨"iptables", false, blockedNetworksV4⟩

/-- The packet goes to a blocked network, and `meets` is right about the rules of the chain. -/
theorem meets_forwardRules : ipv4.Blocks privatePacket ∧
    ∀ r ∈ wg0.forwardRules {} ipv4, meets (r.args.drop 2) = r.holds privatePacket :=
  ⟨⟨cidr [10, 0, 0, 0] 8, List.mem_cons_of_mem _ List.mem_cons_self, by decide⟩, by decide⟩

/-- A node with no accept rules in FORWARD that died without `down`: the packet is dropped all the
time while the next one installs its rules. -/
theorem up_opens_no_window_dropPolicy : ∃ h : Host,
    ["-i", "wg0", "-j", "DVPND-FWD-wg0"] ∈ (h.tables "iptables").rules "FORWARD" ∧
      ∀ n, ((openAPI.up (families true)).cut allTables () n h.tables "iptables").lets meets 1 false
        "FORWARD" = false := by
  obtain ⟨h, hreach, hh⟩ := Steps.exists_reach (step wg0.layout true) (fun _ _ => True)
    (start noRules) [.up (wg0.chains {}) none] (fun h =>
      decide (["-i", "wg0", "-j", "DVPND-FWD-wg0"] ∈ (h.tables "iptables").rules "FORWARD") &&
        !(h.tables "iptables").lets meets 1 false "FORWARD" &&
        !(h.tables "iptables").passes meets 1 false (h.base "iptables" "FORWARD")) (by decide)
  simp only [Bool.and_eq_true, Bool.not_eq_true', decide_eq_true_eq] at hh
  obtain ⟨⟨hjump, hdropped⟩, hbase⟩ := hh
  refine ⟨h, hjump, ?_⟩
  exact (up_opens_no_window wg0.layout wg0.layout_simple true noRules
    (fun f _ => noRules_clean f.tool) h hreach openAPI ipv4 List.mem_cons_self "FORWARD"
    List.mem_cons_self meets 1 false (wg0.forward_not_accepts _ ipv4 meets) hdropped).2 (.inr hbase)

/-- **After a crash `up` opens a window.**  A complete `up`, the accept rule of the tunnel, and the
node dies; the next `up` is between its second command and its third.  The packet to a
private address, which was dropped, gets through. -/
theorem flush_opens_window : ipv4.Blocks privatePacket ∧
    (∀ r ∈ wg0.forwardRules {} ipv4, meets (r.args.drop 2) = r.holds privatePacket) ∧
    ∃ h : Host, Steps.Reach (step wg0.layout true) (fun _ _ => True) (start noRules) h ∧
      (h.tables "iptables").lets meets 1 false "FORWARD" = false ∧
      (((wg0.chains {}).up (families true)).cut allTables () 2 h.tables "iptables").lets meets 1 false
        "FORWARD" = true := by
  obtain ⟨h, hreach, hh⟩ := Steps.exists_reach (step wg0.layout true) (fun _ _ => True)
    (start noRules) [.up (wg0.chains {}) none, .accept "iptables" ["-i", "wg0"]] (fun h =>
      !(h.tables "iptables").lets meets 1 false "FORWARD" &&
        (((wg0.chains {}).up (families true)).cut allTables () 2 h.tables "iptables").lets meets 1 false
          "FORWARD") (by decide)
  simp only [Bool.and_eq_true, Bool.not_eq_true'] at hh
  exact ⟨meets_forwardRules.1, meets_forwardRules.2, h, hreach, hh.1, hh.2⟩

end Host

end Dvpnd
