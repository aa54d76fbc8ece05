import Meshp.Base.Text

/-!
# Packets, Rules and Chains

What a packet filter of the Linux kernel decides about one packet. A rule is a
list of matches and a verdict; it hits when every match does, and the first rule
of a chain that hits with a terminal verdict ends the chain. A jump runs another
chain of the same table and comes back if that chain ends undecided.
-/

namespace Meshp.Netfilter

open Netip (Addr Prefix)

inductive CtState
  | new
  | established
  | related
  | invalid
  | untracked
  deriving DecidableEq

/-- The extension headers that may stand between an IPv6 header and what the packet carries. -/
inductive Extension
  | hopByHop
  | routing
  | fragment
  | authentication
  | destination

def Extension.number : Extension → Nat
  | hopByHop => 0
  | routing => 43
  | fragment => 44
  | authentication => 51
  | destination => 60

/-- A packet at some hook. The interface it came in by is empty for one this host sent, and the one
it leaves by is empty for one this host receives. -/
structure Packet where
  iif : String
  oif : String
  src : Addr
  dst : Addr
  /-- Both ends of a packet are of one family. -/
  oneFamily : src.is4 = dst.is4
  extensions : List Extension
  /-- Only IPv6 has extension headers. -/
  bare : src.is4 = true → extensions = []
  /-- The transport protocol, behind whatever extension headers there are. -/
  l4proto : Nat
  dport : Nat
  ct : CtState

def Packet.header (p : Packet) : Nat :=
  match p.extensions with
  | [] => p.l4proto
  | e :: _ => e.number

inductive IpFamily
  | ip
  | ip6
  deriving DecidableEq

def IpFamily.has : IpFamily → Addr → Bool
  | ip, a => a.is4
  | ip6, a => !a.is4

inductive Transport
  | tcp
  | udp
  deriving DecidableEq

def Transport.number : Transport → Nat
  | tcp => 6
  | udp => 17

def IpFamily.icmp : IpFamily → Nat
  | ip => 1
  | ip6 => 58

inductive Ports
  | one (port : Nat)
  | range (first last : Nat)
  deriving DecidableEq

def Ports.contains : Ports → Nat → Bool
  | one port, n => n == port
  | range first last, n => first ≤ n && n ≤ last

inductive Match
  | iifname (name : String)
  | iifnameNot (name : String)
  /-- `oif`: an interface that is there when the rule is loaded. -/
  | oif (name : String)
  | oifname (name : String)
  | oifnameNot (name : String)
  | ctState (states : List CtState)
  | saddr (family : IpFamily) (set : List Prefix)
  | daddr (family : IpFamily) (set : List Prefix)
  /-- `ip protocol icmp` and `ip6 nexthdr ipv6-icmp`. -/
  | icmp (family : IpFamily)
  /-- `meta l4proto icmp` and `meta l4proto ipv6-icmp`, whatever the packet's own family. -/
  | l4icmp (family : IpFamily)
  | l4proto (transport : Transport)
  | dport (transport : Transport) (set : List Ports)
  deriving DecidableEq

def Match.hits (p : Packet) : Match → Bool
  | iifname name => p.iif == name
  | iifnameNot name => p.iif != name
  | oif name => p.oif == name
  | oifname name => p.oif == name
  | oifnameNot name => p.oif != name
  | ctState states => states.contains p.ct
  | saddr family set => family.has p.src && set.any (·.contains p.src)
  | daddr family set => family.has p.dst && set.any (·.contains p.dst)
  | icmp family => family.has p.src && p.header == family.icmp
  | l4icmp family => p.l4proto == family.icmp
  | l4proto transport => p.l4proto == transport.number
  | dport transport set => p.l4proto == transport.number && set.any (·.contains p.dport)

section Hits

variable {p : Packet}

theorem Match.hits_iifname (name : String) : (Match.iifname name).hits p = (p.iif == name) := rfl

theorem Match.hits_oifname (name : String) : (Match.oifname name).hits p = (p.oif == name) := rfl

theorem Match.hits_iifnameNot (name : String) :
    (Match.iifnameNot name).hits p = (p.iif != name) := rfl

theorem Match.hits_oifnameNot (name : String) :
    (Match.oifnameNot name).hits p = (p.oif != name) := rfl

theorem Match.hits_ctState (states : List CtState) :
    (Match.ctState states).hits p = states.contains p.ct := rfl

theorem Match.hits_saddr (family : IpFamily) (set : List Prefix) :
    (Match.saddr family set).hits p = (family.has p.src && set.any (·.contains p.src)) := rfl

theorem Match.hits_daddr (family : IpFamily) (set : List Prefix) :
    (Match.daddr family set).hits p = (family.has p.dst && set.any (·.contains p.dst)) := rfl

end Hits

inductive Rewrite
  | masquerade
  | snat (address : Addr)
  deriving DecidableEq

inductive Action
  | accept
  | drop
  | reject
  | rewrite (how : Rewrite)
  deriving DecidableEq

inductive Verdict
  | act (action : Action)
  | jump (chain : String)
  deriving DecidableEq

/-- Conditions, and what becomes of a packet that meets all of them. A counter counts and decides
nothing. -/
structure Rule where
  conds : List Match
  counter : Bool := false
  verdict : Verdict
  deriving DecidableEq

def Rule.hits (p : Packet) (r : Rule) : Bool :=
  r.conds.all (·.hits p)

def Rule.target? (r : Rule) : Option String :=
  match r.verdict with
  | .act _ => none
  | .jump chain => some chain

inductive Hook
  | prerouting
  | input
  | forward
  | output
  | postrouting
  deriving DecidableEq

inductive ChainType
  | filter
  | nat
  deriving DecidableEq

inductive Policy
  | accept
  | drop
  deriving DecidableEq

structure Base where
  type : ChainType
  hook : Hook
  priority : Int
  policy : Policy
  deriving DecidableEq

/-- A chain is a base chain, which packets enter at a hook, or one that is only ever jumped to. -/
structure Chain where
  name : String
  base : Option Base
  rules : List Rule
  deriving DecidableEq

inductive TableFamily
  | inet
  | ip
  | ip6
  deriving DecidableEq

structure Key where
  family : TableFamily
  name : String
  deriving DecidableEq

structure Table where
  key : Key
  chains : List Chain
  deriving DecidableEq

/-- The first terminal verdict some rules give a packet, where `call` says what a jump comes to. -/
def decideRules (call : String → Option Action) (p : Packet) : List Rule → Option Action
  | [] => none
  | r :: rs =>
    if r.hits p then
      match r.verdict with
      | .act action => some action
      | .jump chain => (call chain).or (decideRules call p rs)
    else decideRules call p rs

namespace Table

def rulesOf (t : Table) (name : String) : List Rule :=
  ((t.chains.find? (·.name = name)).map Chain.rules).getD []

/-- What running a chain by name comes to, with `depth` jumps left. -/
def call (t : Table) (p : Packet) : Nat → String → Option Action
  | 0, _ => none
  | depth + 1, name => decideRules (t.call p depth) p (t.rulesOf name)

def jumpDepth : Nat := 16

def outcome (t : Table) (p : Packet) (c : Chain) : Option Action :=
  decideRules (t.call p jumpDepth) p c.rules

end Table

section Decide

variable {call call' : String → Option Action} {p : Packet}

theorem decideRules_append (rs rs' : List Rule) :
    decideRules call p (rs ++ rs') = (decideRules call p rs).or (decideRules call p rs') := by
  induction rs with
  | nil => rfl
  | cons r rs ih =>
    cases hv : r.verdict with
    | act action =>
      by_cases hr : r.hits p
      · simp only [List.cons_append, decideRules, hr, if_true, hv, Option.some_or]
      · simp only [List.cons_append, decideRules, hr, Bool.false_eq_true, if_false, ih]
    | jump chain =>
      by_cases hr : r.hits p
      · simp only [List.cons_append, decideRules, hr, if_true, hv, ih, Option.or_assoc]
      · simp only [List.cons_append, decideRules, hr, Bool.false_eq_true, if_false, ih]

theorem decideRules_congr (rs : List Rule)
    (h : ∀ r ∈ rs, ∀ c, r.target? = some c → call c = call' c) :
    decideRules call p rs = decideRules call' p rs := by
  induction rs with
  | nil => rfl
  | cons r rs ih =>
    have hrest := ih fun r' hr' => h r' (.tail _ hr')
    have hr := h r (.head _)
    cases hv : r.verdict with
    | act action => simp only [decideRules, hv, hrest]
    | jump chain =>
      have hcall : call chain = call' chain := hr chain (by simp only [Rule.target?, hv])
      simp only [decideRules, hv, hrest, hcall]

theorem decideRules_uniform (a : Action) (rs : List Rule) (h : ∀ r ∈ rs, r.verdict = .act a) :
    decideRules call p rs = if rs.any (·.hits p) then some a else none := by
  induction rs with
  | nil => rfl
  | cons r rs ih =>
    have hrest := ih fun r' hr' => h r' (.tail _ hr')
    have hr := h r (.head _)
    cases hhit : r.hits p with
    | true => simp only [decideRules, hhit, hr, if_true, List.any_cons, Bool.true_or]
    | false =>
      simp only [decideRules, hhit, Bool.false_eq_true, if_false, List.any_cons,
        Bool.false_or, hrest]

end Decide

end Meshp.Netfilter
