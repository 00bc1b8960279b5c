import Dvpnd.Lib.FirstMatch
import Dvpnd.Services.IPPool

/-!
# The egress policy as firewall rules

`services/common/egress.go` keeps the clients of a tunnel, and a proxy that runs under an
account of its own, off the host and the networks around it.  It renders the node's policy
as `iptables` rules, which **decide by the first that matches**.

* `Rule`, `Rule.args` — a rule, and the arguments it is rendered as.
* `TunnelEgress.rules`, `ProxyEgress.rules` — the rules of the chains, per address family.
* `Packet`, `Rule.holds` — the packets the rules are about, and which of them match.
* `rules_decide` — **every packet is decided as documented**, under every policy, in every
  family, with any resolvers and ports.
-/

namespace Dvpnd

/-! ## Rules -/

/-- An address of package `net`: IPv4 in four bytes or sixteen, or IPv6. -/
structure HostIP where
  bytes : List UInt8
  valid : bytes.length = 4 ∨ bytes.length = 16

/-- The address as it is on the wire. -/
def HostIP.wire (ip : HostIP) : List UInt8 := (to4 ip.bytes).getD ip.bytes

/-- The protocols the rules name. -/
inductive Proto
  | udp
  | tcp
  deriving DecidableEq

def Proto.text : Proto → String
  | .udp => "udp"
  | .tcp => "tcp"

/-- What a rule asks of a packet. -/
inductive Match
  | outInterface (name : String)
  | destination (n : Cidr)
  | host (ip : HostIP)
  | protocol (p : Proto)
  | dport (port : UInt16)
  | reply
  | origDestination (ip : HostIP) (port : UInt16)
  | localDestination

/-- The arguments of a condition. -/
def Match.args : Match → List String
  | .outInterface name => ["-o", name]
  | .destination n => ["-d", n.text]
  | .host ip => ["-d", ipText ip.bytes]
  | .protocol p => ["-p", p.text]
  | .dport port => ["--dport", toString port]
  | .reply => ["-m", "conntrack", "--ctstate", "RELATED,ESTABLISHED"]
  | .origDestination ip port =>
      ["-m", "conntrack", "--ctorigdst", ipText ip.bytes, "--ctorigdstport", toString port]
  | .localDestination => ["-m", "addrtype", "--dst-type", "LOCAL"]

/-- What becomes of the packet. -/
inductive Target
  | accept
  | drop
  | reject
  deriving DecidableEq

def Target.text : Target → String
  | .accept => "ACCEPT"
  | .drop => "DROP"
  | .reject => "REJECT"

/-- A rule of a chain. -/
structure Rule where
  chain : String
  conditions : List Match
  target : Target

/-- The command that appends the rule. -/
def Rule.args (r : Rule) : List String :=
  "-A" :: r.chain :: r.conditions.flatMap Match.args ++ ["-j", r.target.text]

/-! ## The policy -/

/-- A CIDR, of which it can be decided that it is a plain one. -/
def cidr (ip : List UInt8) (ones : Nat)
    (h : ip.length = 4 ∧ ones ≤ 32 ∨ ip.length = 16 ∧ to4 ip = none ∧ ones ≤ 128 := by decide) :
    Cidr :=
  ⟨ip, ones, h⟩

/-- `BlockedNetworksV4`. -/
def blockedNetworksV4 : List Cidr :=
  [cidr [0, 0, 0, 0] 8, cidr [10, 0, 0, 0] 8, cidr [100, 64, 0, 0] 10, cidr [127, 0, 0, 0] 8,
    cidr [169, 254, 0, 0] 16, cidr [172, 16, 0, 0] 12, cidr [192, 0, 0, 0] 24,
    cidr [192, 168, 0, 0] 16, cidr [198, 18, 0, 0] 15, cidr [224, 0, 0, 0] 4,
    cidr [240, 0, 0, 0] 4]

/-- `BlockedNetworksV6`. -/
def blockedNetworksV6 : List Cidr :=
  [cidr (List.replicate 16 0) 128, cidr (List.replicate 15 0 ++ [1]) 128,
    cidr (0xfc :: List.replicate 15 0) 7, cidr (0xfe :: 0x80 :: List.replicate 14 0) 10,
    cidr (0xff :: List.replicate 15 0) 8]

example : (blockedNetworksV4 ++ blockedNetworksV6).map Cidr.text =
    ["0.0.0.0/8", "10.0.0.0/8", "100.64.0.0/10", "127.0.0.0/8", "169.254.0.0/16", "172.16.0.0/12",
      "192.0.0.0/24", "192.168.0.0/16", "198.18.0.0/15", "224.0.0.0/4", "240.0.0.0/4", "::/128",
      "::1/128", "fc00::/7", "fe80::/10", "ff00::/8"] := by decide

/-- `Egress`. -/
structure Egress where
  allowSMTP : Bool := false
  apiPort : UInt16 := 0
  resolver : Option HostIP := none

/-- `family`. -/
structure Family where
  tool : String
  v6 : Bool
  blocked : List Cidr

/-- `families`, of a kernel with IPv6 or without. -/
def families (ipv6 : Bool) : List Family :=
  ⟨"iptables", false, blockedNetworksV4⟩ ::
    if ipv6 then [⟨"ip6tables", true, blockedNetworksV6⟩] else []

/-- `inFamily`. -/
def Family.inFamily (f : Family) (ip : HostIP) : Bool := (to4 ip.bytes == none) == f.v6

/-- `SMTPPort`. -/
def smtpPort : UInt16 := 25

/-! ## The chains -/

/-- `TunnelEgress`.  To `iptables` a name that ends in `+` would stand for all that begin
like it. -/
structure TunnelEgress where
  interface : String
  plain : interface.toList.getLast? ≠ some '+'

/-- `ForwardChain`. -/
def TunnelEgress.forwardChain (e : TunnelEgress) : String := "DVPND-FWD-" ++ e.interface

/-- `InputChain`. -/
def TunnelEgress.inputChain (e : TunnelEgress) : String := "DVPND-IN-" ++ e.interface

/-- The rules of the forward chain. -/
def TunnelEgress.forwardRules (e : TunnelEgress) (policy : Egress) (f : Family) : List Rule :=
  [⟨e.forwardChain, [.outInterface e.interface], .drop⟩] ++
    f.blocked.map (fun n => ⟨e.forwardChain, [.destination n], .drop⟩) ++
    if policy.allowSMTP then []
    else [⟨e.forwardChain, [.protocol .tcp, .dport smtpPort], .drop⟩]

/-- The rules of the input chain that accept: replies, the resolver, the API. -/
def TunnelEgress.acceptRules (e : TunnelEgress) (policy : Egress) (f : Family) : List Rule :=
  [⟨e.inputChain, [.reply], .accept⟩] ++
    (policy.resolver.toList.filter f.inFamily).flatMap (fun ip =>
      [Proto.udp, Proto.tcp].map fun proto =>
        ⟨e.inputChain, [.host ip, .protocol proto, .dport 53], .accept⟩) ++
    if policy.apiPort ≠ 0 then
      [⟨e.inputChain, [.protocol .tcp, .dport policy.apiPort], .accept⟩]
    else []

/-- The rules of the input chain. -/
def TunnelEgress.inputRules (e : TunnelEgress) (policy : Egress) (f : Family) : List Rule :=
  e.acceptRules policy f ++ [⟨e.inputChain, [], .drop⟩]

/-- The rules of `TunnelEgress.chains`. -/
def TunnelEgress.rules (e : TunnelEgress) (policy : Egress) (f : Family) : List Rule :=
  e.forwardRules policy f ++ e.inputRules policy f

/-- `ProxyChain`. -/
def proxyChain : String := "DVPND-PROXY"

/-- `ProxyEgress`. -/
structure ProxyEgress where
  uid : UInt32
  loopbackPorts : List UInt16

/-- 127.0.0.1. -/
def loopbackHost : HostIP := ⟨[127, 0, 0, 1], .inl rfl⟩

/-- The first rules of a proxy's chain, which accept: replies, the loopback ports, the
resolvers. -/
def ProxyEgress.acceptRules (e : ProxyEgress) (resolvers : List HostIP) (f : Family) : List Rule :=
  [⟨proxyChain, [.reply], .accept⟩] ++
    (if f.v6 then []
    else e.loopbackPorts.map fun port =>
      ⟨proxyChain, [.outInterface "lo", .host loopbackHost, .protocol .tcp, .dport port], .accept⟩) ++
    (resolvers.filter f.inFamily).flatMap fun ip =>
      [Proto.udp, Proto.tcp].map fun proto =>
        ⟨proxyChain, [.protocol proto, .origDestination ip 53], .accept⟩

/-- The rules of `ProxyEgress.chains`.  The blocked networks come before the API port, so
that it is not open on loopback. -/
def ProxyEgress.rules (e : ProxyEgress) (policy : Egress) (resolvers : List HostIP) (f : Family) :
    List Rule :=
  e.acceptRules resolvers f ++
    f.blocked.map (fun n => ⟨proxyChain, [.destination n], .reject⟩) ++
    (if policy.apiPort ≠ 0 then
      [⟨proxyChain, [.localDestination, .protocol .tcp, .dport policy.apiPort], .accept⟩]
    else []) ++
    [⟨proxyChain, [.localDestination], .reject⟩] ++
    if policy.allowSMTP then []
    else [⟨proxyChain, [.protocol .tcp, .dport smtpPort], .reject⟩]

/-! ## Packets -/

/-- The transport of a packet, with the port it is sent to. -/
inductive Transport
  | udp (dport : UInt16)
  | tcp (dport : UInt16)
  | other

/-- What the rules see of a packet. -/
structure Packet where
  /-- The interface it leaves by. -/
  out : String
  dst : List UInt8
  transport : Transport
  /-- It belongs to a connection that is known or to one next to it. -/
  reply : Bool
  /-- Where the connection was first sent to, before any translation. -/
  origDst : List UInt8
  origPort : UInt16
  /-- The destination is an address of the host. -/
  toHost : Bool

/-- The packet goes over a protocol. -/
def Packet.over (p : Packet) (proto : Proto) : Bool :=
  match p.transport, proto with
  | .udp _, .udp => true
  | .tcp _, .tcp => true
  | _, _ => false

/-- The packet is sent to a port. -/
def Packet.toPort (p : Packet) (port : UInt16) : Bool :=
  match p.transport with
  | .udp q => q == port
  | .tcp q => q == port
  | .other => false

/-- The address is in the network, for the kernel. -/
def Cidr.holds (n : Cidr) (ip : List UInt8) : Bool :=
  ip.length == n.ip.length &&
    Masks.both n.ip (cidrMask n.ones n.ip.length) == Masks.both ip (cidrMask n.ones n.ip.length)

/-- An interface in a rule stands for another. -/
def namesInterface (name out : String) : Bool :=
  if name.toList.getLast? = some '+' then name.toList.dropLast.isPrefixOf out.toList
  else name == out

/-- The packet meets a condition. -/
def Match.holds : Match → Packet → Bool
  | .outInterface name, p => namesInterface name p.out
  | .destination n, p => n.holds p.dst
  | .host ip, p => p.dst == ip.wire
  | .protocol proto, p => p.over proto
  | .dport port, p => p.toPort port
  | .reply, p => p.reply
  | .origDestination ip port, p => p.origDst == ip.wire && p.origPort == port
  | .localDestination, p => p.toHost

/-- The packet matches a rule. -/
def Rule.holds (r : Rule) (p : Packet) : Bool := r.conditions.all (·.holds p)

/-- What a chain of the rules does with a packet: the target of the first rule of it that
matches, or nothing. -/
def verdict (rules : List Rule) (chain : String) (p : Packet) : Option Target :=
  FirstMatch.verdict Rule.holds Rule.target (rules.filter (·.chain = chain)) p

/-! ## What is documented -/

/-- The packet goes to a blocked network. -/
def Family.Blocks (f : Family) (p : Packet) : Prop := ∃ n ∈ f.blocked, n.holds p.dst = true

/-- The packet is mail, and mail is not allowed. -/
def Egress.RefusesMail (policy : Egress) (p : Packet) : Prop :=
  policy.allowSMTP = false ∧ p.over .tcp = true ∧ p.toPort smtpPort = true

/-- The packet is for the node's API. -/
def Egress.ForAPI (policy : Egress) (p : Packet) : Prop :=
  policy.apiPort ≠ 0 ∧ p.over .tcp = true ∧ p.toPort policy.apiPort = true

/-- What the forward chain of a tunnel drops. -/
def TunnelEgress.Drops (e : TunnelEgress) (policy : Egress) (f : Family) (p : Packet) : Prop :=
  p.out = e.interface ∨ f.Blocks p ∨ policy.RefusesMail p

/-- What the input chain of a tunnel accepts. -/
def TunnelEgress.Accepts (policy : Egress) (f : Family) (p : Packet) : Prop :=
  p.reply = true ∨
    (∃ ip, policy.resolver = some ip ∧ f.inFamily ip = true ∧ p.dst = ip.wire ∧
      (p.over .udp = true ∨ p.over .tcp = true) ∧ p.toPort 53 = true) ∨
    policy.ForAPI p

/-- What the chain of a proxy accepts wherever it goes: replies, the loopback ports and the
resolvers. -/
def ProxyEgress.Accepts (e : ProxyEgress) (resolvers : List HostIP) (f : Family) (p : Packet) :
    Prop :=
  p.reply = true ∨
    (f.v6 = false ∧ ∃ port ∈ e.loopbackPorts,
      p.out = "lo" ∧ p.dst = [127, 0, 0, 1] ∧ p.over .tcp = true ∧ p.toPort port = true) ∨
    ∃ ip ∈ resolvers, f.inFamily ip = true ∧ (p.over .udp = true ∨ p.over .tcp = true) ∧
      p.origDst = ip.wire ∧ p.origPort = 53

/-- What the chain of a proxy lets out. -/
def ProxyEgress.LetsOut (e : ProxyEgress) (policy : Egress) (resolvers : List HostIP) (f : Family)
    (p : Packet) : Prop :=
  e.Accepts resolvers f p ∨ ¬ f.Blocks p ∧
    (p.toHost = true ∧ policy.ForAPI p ∨ p.toHost = false ∧ ¬ policy.RefusesMail p)

/-! ### The chains do what is documented -/

theorem namesInterface_iff {name out : String} (h : name.toList.getLast? ≠ some '+') :
    namesInterface name out = true ↔ out = name := by
  rw [namesInterface, if_neg h, beq_iff_eq, eq_comm]

/-- The two chains of a tunnel have different names. -/
theorem TunnelEgress.chains_ne (e : TunnelEgress) : e.forwardChain ≠ e.inputChain := by
  intro h
  have hlist := congrArg (fun s : String => s.toList.take 7) h
  simp [forwardChain, inputChain] at hlist

theorem TunnelEgress.of_forwardRules {e : TunnelEgress} {policy : Egress} {f : Family}
    {r : Rule} (hr : r ∈ e.forwardRules policy f) :
    r.chain = e.forwardChain ∧ r.target = .drop := by
  unfold forwardRules at hr
  simp only [List.mem_append, List.mem_singleton, List.mem_map] at hr
  rcases hr with (rfl | ⟨n, -, rfl⟩) | hr
  · exact ⟨rfl, rfl⟩
  · exact ⟨rfl, rfl⟩
  · split at hr
    · cases hr
    · exact (List.mem_singleton.1 hr) ▸ ⟨rfl, rfl⟩

theorem TunnelEgress.of_acceptRules {e : TunnelEgress} {policy : Egress} {f : Family}
    {r : Rule} (hr : r ∈ e.acceptRules policy f) :
    r.chain = e.inputChain ∧ r.target = .accept := by
  unfold acceptRules at hr
  simp only [List.mem_append, List.mem_singleton, List.mem_flatMap, List.mem_map] at hr
  rcases hr with (rfl | ⟨ip, -, proto, -, rfl⟩) | hr
  · exact ⟨rfl, rfl⟩
  · exact ⟨rfl, rfl⟩
  · split at hr
    · exact (List.mem_singleton.1 hr) ▸ ⟨rfl, rfl⟩
    · cases hr

theorem TunnelEgress.of_inputRules {e : TunnelEgress} {policy : Egress} {f : Family}
    {r : Rule} (hr : r ∈ e.inputRules policy f) : r.chain = e.inputChain := by
  rcases List.mem_append.1 hr with hr | hr
  · exact (of_acceptRules hr).1
  · exact (List.mem_singleton.1 hr) ▸ rfl

theorem ProxyEgress.of_acceptRules {e : ProxyEgress} {resolvers : List HostIP} {f : Family}
    {r : Rule} (hr : r ∈ e.acceptRules resolvers f) :
    r.chain = proxyChain ∧ r.target = .accept := by
  unfold acceptRules at hr
  simp only [List.mem_append, List.mem_singleton, List.mem_flatMap, List.mem_map] at hr
  rcases hr with (rfl | hr) | ⟨ip, -, proto, -, rfl⟩
  · exact ⟨rfl, rfl⟩
  · split at hr
    · cases hr
    · obtain ⟨port, -, rfl⟩ := List.mem_map.1 hr
      exact ⟨rfl, rfl⟩
  · exact ⟨rfl, rfl⟩

theorem ProxyEgress.of_rules {e : ProxyEgress} {policy : Egress} {resolvers : List HostIP}
    {f : Family} {r : Rule} (hr : r ∈ e.rules policy resolvers f) : r.chain = proxyChain := by
  unfold rules at hr
  simp only [List.mem_append, List.mem_singleton, List.mem_map] at hr
  rcases hr with (((hr | ⟨n, -, rfl⟩) | hr) | rfl) | hr
  · exact (of_acceptRules hr).1
  · rfl
  · split at hr
    · exact (List.mem_singleton.1 hr) ▸ rfl
    · cases hr
  · rfl
  · split at hr
    · cases hr
    · exact (List.mem_singleton.1 hr) ▸ rfl

/-- A rule is in one of two lists. -/
theorem exists_append {rules rules' : List Rule} {p : Packet} :
    (∃ r ∈ rules ++ rules', r.holds p = true) ↔
      (∃ r ∈ rules, r.holds p = true) ∨ ∃ r ∈ rules', r.holds p = true := by
  simp only [List.mem_append, or_and_right, exists_or]

theorem exists_singleton {r : Rule} {p : Packet} :
    (∃ x ∈ [r], x.holds p = true) ↔ r.holds p = true := by
  simp only [List.mem_singleton, exists_eq_left]

/-- The rules that are there under a condition only. -/
theorem exists_ite {c : Prop} [Decidable c] {rules rules' : List Rule} {p : Packet} :
    (∃ r ∈ if c then rules else rules', r.holds p = true) ↔
      (c ∧ ∃ r ∈ rules, r.holds p = true) ∨ ¬ c ∧ ∃ r ∈ rules', r.holds p = true := by
  split
  · simp [*]
  · simp [*]

/-- The rules that block the networks of the family. -/
theorem exists_blocked {chain : String} {target : Target} {f : Family} {p : Packet} :
    (∃ r ∈ f.blocked.map (fun n => (⟨chain, [.destination n], target⟩ : Rule)), r.holds p = true) ↔
      f.Blocks p := by
  simp [Rule.holds, Match.holds, Family.Blocks]

theorem mail_holds {chain : String} {target : Target} {p : Packet} {port : UInt16} :
    (⟨chain, [.protocol .tcp, .dport port], target⟩ : Rule).holds p = true ↔
      p.over .tcp = true ∧ p.toPort port = true := by
  simp [Rule.holds, Match.holds]

theorem TunnelEgress.exists_forwardRules {e : TunnelEgress} {policy : Egress} {f : Family}
    {p : Packet} : (∃ r ∈ e.forwardRules policy f, r.holds p = true) ↔ e.Drops policy f p := by
  have hout : (⟨e.forwardChain, [.outInterface e.interface], .drop⟩ : Rule).holds p = true ↔
      p.out = e.interface := by
    simp [Rule.holds, Match.holds, namesInterface_iff e.plain]
  rw [forwardRules, exists_append, exists_append, exists_singleton, hout, exists_blocked, exists_ite,
    exists_singleton, mail_holds, or_assoc]
  simp [Drops, Egress.RefusesMail]

/-- The rules for the resolvers of the family, two for each. -/
theorem exists_resolvers {ips : List HostIP} {f : Family} {m : HostIP → Proto → Rule}
    {p : Packet} :
    (∃ r ∈ (ips.filter f.inFamily).flatMap (fun ip => [Proto.udp, Proto.tcp].map fun proto => m ip proto),
      r.holds p = true) ↔
      ∃ ip ∈ ips, f.inFamily ip = true ∧
        ((m ip .udp).holds p = true ∨ (m ip .tcp).holds p = true) := by
  simp only [List.mem_flatMap, List.mem_filter, List.map_cons, List.map_nil, List.mem_cons,
    List.not_mem_nil, or_false]
  constructor
  · rintro ⟨r, ⟨ip, ⟨hip, hfam⟩, rfl | rfl⟩, hr⟩
    · exact ⟨ip, hip, hfam, .inl hr⟩
    · exact ⟨ip, hip, hfam, .inr hr⟩
  · rintro ⟨ip, hip, hfam, hr | hr⟩
    · exact ⟨_, ⟨ip, ⟨hip, hfam⟩, .inl rfl⟩, hr⟩
    · exact ⟨_, ⟨ip, ⟨hip, hfam⟩, .inr rfl⟩, hr⟩

theorem TunnelEgress.exists_acceptRules {e : TunnelEgress} {policy : Egress} {f : Family}
    {p : Packet} : (∃ r ∈ e.acceptRules policy f, r.holds p = true) ↔ Accepts policy f p := by
  have hreply : (⟨e.inputChain, [.reply], .accept⟩ : Rule).holds p = true ↔ p.reply = true := by
    simp [Rule.holds, Match.holds]
  have hdns : ∀ (ip : HostIP) (proto : Proto),
      (⟨e.inputChain, [.host ip, .protocol proto, .dport 53], .accept⟩ : Rule).holds p = true ↔
        p.dst = ip.wire ∧ p.over proto = true ∧ p.toPort 53 = true := by
    intro ip proto
    simp [Rule.holds, Match.holds]
  rw [acceptRules, exists_append, exists_append, exists_singleton, hreply, exists_resolvers,
    exists_ite, exists_singleton, mail_holds, or_assoc]
  simp only [hdns, ← and_or_left, ← or_and_right, Option.mem_toList]
  simp [Accepts, Egress.ForAPI]

theorem ProxyEgress.exists_acceptRules {e : ProxyEgress} {resolvers : List HostIP} {f : Family}
    {p : Packet} : (∃ r ∈ e.acceptRules resolvers f, r.holds p = true) ↔ e.Accepts resolvers f p := by
  have hreply : (⟨proxyChain, [.reply], .accept⟩ : Rule).holds p = true ↔ p.reply = true := by
    simp [Rule.holds, Match.holds]
  have hdns : ∀ (ip : HostIP) (proto : Proto),
      (⟨proxyChain, [.protocol proto, .origDestination ip 53], .accept⟩ : Rule).holds p = true ↔
        p.over proto = true ∧ p.origDst = ip.wire ∧ p.origPort = 53 := by
    intro ip proto
    simp [Rule.holds, Match.holds]
  have hlo : ∀ port : UInt16,
      (⟨proxyChain, [.outInterface "lo", .host loopbackHost, .protocol .tcp, .dport port], .accept⟩ :
        Rule).holds p = true ↔
        p.out = "lo" ∧ p.dst = [127, 0, 0, 1] ∧ p.over .tcp = true ∧ p.toPort port = true := by
    intro port
    have hname : namesInterface "lo" p.out = true ↔ p.out = "lo" := namesInterface_iff (by decide)
    simp [Rule.holds, Match.holds, hname, HostIP.wire, loopbackHost, to4]
  rw [acceptRules, exists_append, exists_append, exists_singleton, hreply, exists_resolvers,
    exists_ite, or_assoc]
  simp only [hdns, ← or_and_right, List.mem_map, exists_exists_and_eq_and, hlo]
  simp [Accepts]

/-- What the forward chain does: it drops, or leaves the packet to the rules after it. -/
theorem TunnelEgress.verdict_forward (e : TunnelEgress) (policy : Egress) (f : Family)
    (p : Packet) [Decidable (e.Drops policy f p)] :
    verdict (e.rules policy f) e.forwardChain p =
      if e.Drops policy f p then some .drop else none := by
  have hfilter : (e.rules policy f).filter (·.chain = e.forwardChain) = e.forwardRules policy f := by
    rw [rules, List.filter_append,
      List.filter_eq_self.2 fun r hr => decide_eq_true (of_forwardRules hr).1,
      List.filter_eq_nil_iff.2 fun r hr => ?_, List.append_nil]
    rw [of_inputRules hr, decide_eq_true_iff]
    exact e.chains_ne.symm
  rw [verdict, hfilter, FirstMatch.verdict_block fun r hr => (of_forwardRules hr).2]
  exact if_congr exists_forwardRules rfl rfl

/-- What the input chain does: it accepts, or drops. -/
theorem TunnelEgress.verdict_input (e : TunnelEgress) (policy : Egress) (f : Family) (p : Packet)
    [Decidable (Accepts policy f p)] :
    verdict (e.rules policy f) e.inputChain p =
      if Accepts policy f p then some .accept else some .drop := by
  have hfilter : (e.rules policy f).filter (·.chain = e.inputChain) = e.inputRules policy f := by
    rw [rules, List.filter_append, List.filter_eq_nil_iff.2 fun r hr => ?_, List.nil_append,
      List.filter_eq_self.2 fun r hr => decide_eq_true (of_inputRules hr)]
    rw [(of_forwardRules hr).1, decide_eq_true_iff]
    exact e.chains_ne
  rw [verdict, hfilter, inputRules, FirstMatch.verdict_append,
    FirstMatch.verdict_block fun r hr => (of_acceptRules hr).2]
  simp only [exists_acceptRules]
  split
  · rfl
  · rfl

/-- What the chain of a proxy does with what it does not accept at once. -/
theorem ProxyEgress.verdict_rules (e : ProxyEgress) (policy : Egress) (resolvers : List HostIP)
    (f : Family) (p : Packet) [Decidable (e.Accepts resolvers f p)] [Decidable (f.Blocks p)]
    [Decidable (policy.ForAPI p)] [Decidable (policy.RefusesMail p)] :
    verdict (e.rules policy resolvers f) proxyChain p =
      if e.Accepts resolvers f p then some .accept
      else if f.Blocks p then some .reject
      else if p.toHost = true ∧ policy.ForAPI p then some .accept
      else if p.toHost = true then some .reject
      else if policy.RefusesMail p then some .reject
      else none := by
  have hfilter : (e.rules policy resolvers f).filter (·.chain = proxyChain) =
      e.rules policy resolvers f := List.filter_eq_self.2 fun r hr => decide_eq_true (of_rules hr)
  have hblocked : ∀ r ∈ f.blocked.map (fun n => (⟨proxyChain, [.destination n], .reject⟩ : Rule)),
      r.target = .reject := by
    simp only [List.mem_map]
    rintro r ⟨n, -, rfl⟩
    rfl
  have hapi : FirstMatch.verdict Rule.holds Rule.target
      (if policy.apiPort ≠ 0 then
        [⟨proxyChain, [.localDestination, .protocol .tcp, .dport policy.apiPort], .accept⟩]
      else []) p = if p.toHost = true ∧ policy.ForAPI p then some .accept else none := by
    by_cases h0 : policy.apiPort = 0
    · simp [h0, FirstMatch.verdict, Egress.ForAPI]
    · simp [h0, FirstMatch.verdict, Egress.ForAPI, Rule.holds, Match.holds]
  have hlocal : FirstMatch.verdict Rule.holds Rule.target
      [⟨proxyChain, [.localDestination], .reject⟩] p =
        if p.toHost = true then some .reject else none := by
    simp [FirstMatch.verdict, Rule.holds, Match.holds]
  have hmail : FirstMatch.verdict Rule.holds Rule.target
      (if policy.allowSMTP = true then []
      else [⟨proxyChain, [.protocol .tcp, .dport smtpPort], .reject⟩]) p =
        if policy.RefusesMail p then some .reject else none := by
    by_cases h0 : policy.allowSMTP = true
    · simp [h0, FirstMatch.verdict, Egress.RefusesMail]
    · simp [h0, FirstMatch.verdict, Egress.RefusesMail, Rule.holds, Match.holds]
  rw [verdict, hfilter, rules, FirstMatch.verdict_append, FirstMatch.verdict_append,
    FirstMatch.verdict_append, FirstMatch.verdict_append,
    FirstMatch.verdict_block fun r hr => (of_acceptRules hr).2, FirstMatch.verdict_block hblocked,
    hapi, hlocal, hmail]
  simp only [exists_acceptRules, exists_blocked]
  repeat' split
  all_goals rfl

/-- **The rules decide every packet as documented.**  The forward chain of a tunnel drops
exactly what it should and leaves the rest to the rules after it; the input chain accepts
exactly what it should and drops the rest; and the chain of a proxy lets out, by accepting
it or by having nothing to say, exactly what it should, and rejects the rest. -/
theorem rules_decide (e : TunnelEgress) (x : ProxyEgress) (policy : Egress) (f : Family)
    (resolvers : List HostIP) (p : Packet) :
    (verdict (e.rules policy f) e.forwardChain p = some .drop ↔ e.Drops policy f p) ∧
      (verdict (e.rules policy f) e.forwardChain p = none ↔ ¬ e.Drops policy f p) ∧
      (verdict (e.rules policy f) e.inputChain p = some .accept ↔
        TunnelEgress.Accepts policy f p) ∧
      (verdict (e.rules policy f) e.inputChain p = some .drop ↔
        ¬ TunnelEgress.Accepts policy f p) ∧
      (verdict (x.rules policy resolvers f) proxyChain p ≠ some .reject ↔
        x.LetsOut policy resolvers f p) := by
  classical
  refine ⟨?_, ?_, ?_, ?_, ?_⟩
  · rw [e.verdict_forward]
    split <;> simp [*]
  · rw [e.verdict_forward]
    split <;> simp [*]
  · rw [e.verdict_input]
    split <;> simp [*]
  · rw [e.verdict_input]
    split <;> simp [*]
  · rw [x.verdict_rules, ProxyEgress.LetsOut]
    repeat' split
    all_goals simp_all

end Dvpnd
