import Meshp.Acl.Document
import Meshp.Netfilter.Ruleset
import Meshp.Wire.State

/-!
# Rendering Rulesets

The three scripts a membership loads: the table that enforces its policy, the
table that carries what it advertises, and the chain inside the host's own filter
table that lets carried packets past a foreign policy. A script is a list of
commands here, and a rule holds parsed values.
-/

namespace Meshp.Nftables

open Acl (Protocol)
open Base (refuseIf)
open Netip (Prefix parsePrefix parseAddr)
open Netfilter
open Wire (FilterRule PacketFilter AdvertisedGroup)

inductive PortFault
  | notANumber
  | outside
  deriving DecidableEq

inductive RuleFault
  | notAllow
  | source (raw : String)
  | destination (raw : String)
  | protocol (raw : String)
  | portsWithout (protocol : Protocol)
  | port (spec : String) (why : PortFault)
  | portsReversed (spec : String)
  deriving DecidableEq

inductive Fault
  | badInterface (name : String)
  | rule (chain : String) (index : Nat) (why : RuleFault)
  | carried (raw : String)
  | carriedUnparsed (raw : String)
  | loading
  deriving DecidableEq

/-- `interfaceNamePattern`: one to fifteen letters, digits, underscores, dots and hyphens. -/
def interfaceNameOk (name : String) : Bool :=
  let cs := name.toList
  1 ≤ cs.length && cs.length ≤ 15 &&
    cs.all fun c => ('A' ≤ c && c ≤ 'Z') || ('a' ≤ c && c ≤ 'z') || ('0' ≤ c && c ≤ '9') ||
      c = '_' || c = '.' || c = '-'

/-- `TableName`. -/
def tableKey : Key := ⟨.inet, "meshp"⟩

structure Families where
  v4 : List Prefix
  v6 : List Prefix

def Families.side (f : Families) : IpFamily → List Prefix
  | .ip => f.v4
  | .ip6 => f.v6

def ofFamily (family : IpFamily) (ps : List Prefix) : List Prefix :=
  ps.filter fun p => family.has p.addr

def readPrefix (raw : String) : Except String Prefix :=
  match parsePrefix raw with
  | some p => .ok p
  | none => .error raw

/-- `byFamily`, with the text it refuses. Each side is in the order of its elements' texts. -/
def byFamily (prefixes : List String) : Except String Families := do
  let ps ← prefixes.mapM readPrefix
  let side (family : IpFamily) :=
    ((ofFamily family ps).map Prefix.masked).insertionSort fun a b => ¬b.text < a.text
  pure ⟨side .ip, side .ip6⟩

def protocolOf (p : String) : Except RuleFault Protocol :=
  match p with
  | "" => .ok .any
  | "any" => .ok .any
  | "tcp" => .ok .tcp
  | "udp" => .ok .udp
  | "icmp" => .ok .icmp
  | _ => .error (.protocol p)

def parsePort (s : String) : Except PortFault Nat :=
  match Text.atoi s with
  | none => .error .notANumber
  | some n => if n < 1 ∨ 65535 < n then .error .outside else .ok n.toNat

def portOf (spec : String) : Except RuleFault Ports :=
  match Text.cut '-' spec with
  | (single, none) => (parsePort single).mapError (.port spec) |>.map .one
  | (first, some last) => do
    let lo ← (parsePort first).mapError (.port spec)
    let hi ← (parsePort last).mapError (.port spec)
    refuseIf (hi < lo) (.portsReversed spec)
    pure (.range lo hi)

def portsOf (specs : List String) (proto : Protocol) : Except RuleFault (List Ports) := do
  refuseIf (specs ≠ [] ∧ proto ≠ .tcp ∧ proto ≠ .udp) (.portsWithout proto)
  specs.mapM portOf

def transportConds (transport : Transport) (ports : List Ports) : List Match :=
  if ports = [] then [.l4proto transport] else [.dport transport ports]

def protocolConds (family : IpFamily) (ports : List Ports) : Protocol → List Match
  | .any => []
  | .icmp => [.icmp family]
  | .tcp => transportConds .tcp ports
  | .udp => transportConds .udp ports

def familyConds (src dst : Families) (proto : Protocol) (ports : List Ports)
    (family : IpFamily) : List (List Match) :=
  if src.side family = [] ∨ dst.side family = [] then []
  else [[.saddr family (src.side family), .daddr family (dst.side family)] ++
    protocolConds family ports proto]

/-- `renderRule`: the conditions of each rule a compiled rule becomes, IPv4 first. -/
def renderRule (rule : FilterRule) : Except RuleFault (List (List Match)) := do
  refuseIf (rule.allow = false) .notAllow
  let src ← (byFamily rule.srcPrefixes).mapError .source
  let dst ← (byFamily rule.dstPrefixes).mapError .destination
  let proto ← protocolOf rule.protocol
  let ports ← portsOf rule.ports proto
  pure ([.ip, .ip6].flatMap (familyConds src dst proto ports))

/-- The rules of a chain that starts counting at index `i`. -/
def renderRules (chain : String) : Nat → List FilterRule → Except Fault (List (List Match))
  | _, [] => .ok []
  | i, rule :: rules => do
    let first ← (renderRule rule).mapError (.rule chain i)
    let rest ← renderRules chain (i + 1) rules
    pure (first ++ rest)

def filterBase (hook : Hook) : Netfilter.Base := ⟨.filter, hook, 0, .accept⟩

def preamble (elsewhere : Match) : List Rule :=
  [{ conds := [elsewhere], verdict := .act .accept },
    { conds := [.ctState [.established, .related]], verdict := .act .accept },
    { conds := [.ctState [.invalid]], verdict := .act .drop }]

def denial (defaultDeny : Bool) : List Rule :=
  if defaultDeny then [{ conds := [], counter := true, verdict := .act .drop }] else []

def filterChain (name : String) (hook : Hook) (elsewhere : Match) (conds : List (List Match))
    (defaultDeny : Bool) : Chain :=
  { name, base := some (filterBase hook),
    rules := preamble elsewhere ++ conds.map (fun cs => { conds := cs, verdict := .act .accept }) ++
      denial defaultDeny }

def filterTable (iface : String) (filter : PacketFilter) : Except Fault Table := do
  let inbound ← renderRules "input" 0 filter.inbound
  let outbound ← renderRules "output" 0 filter.outbound
  pure ⟨tableKey, [filterChain "input" .input (.iifnameNot iface) inbound filter.defaultDeny,
    filterChain "output" .output (.oifnameNot iface) outbound filter.defaultDeny]⟩

/-- `Render`. No policy removes the table; a policy that permits nothing is not the same. -/
def render (iface : String) : Option PacketFilter → Except Fault (List Command)
  | none => do
    refuseIf (interfaceNameOk iface = false) (.badInterface iface)
    pure (remove tableKey)
  | some filter => do
    refuseIf (interfaceNameOk iface = false) (.badInterface iface)
    let table ← filterTable iface filter
    pure (remove tableKey ++ table.script)

/-- `ForwardTableName`. -/
def forwardKey : Key := ⟨.inet, "meshp_fwd"⟩

structure Carried extends Families where
  egress : Bool

def Carried.Nothing (c : Carried) : Prop :=
  c.v4 = [] ∧ c.v6 = [] ∧ c.egress = false

instance (c : Carried) : Decidable c.Nothing :=
  inferInstanceAs (Decidable (_ ∧ _ ∧ _))

def prefixLe (a b : Prefix) : Bool :=
  match a.addr.compare b.addr with
  | .lt => true
  | .eq => a.bits ≤ b.bits
  | .gt => false

/-- `carriedPrefixes`. A default route is not a prefix to match but the catch-all. -/
def carriedPrefixes (groups : List AdvertisedGroup) : Except Fault Carried := do
  let ps ← (groups.flatMap AdvertisedGroup.prefixes).mapM fun raw =>
    (readPrefix raw).mapError Fault.carried
  let seen := (((ps.filter (·.bits ≠ 0)).map Prefix.masked).dedup).insertionSort (prefixLe · ·)
  pure { v4 := ofFamily .ip seen, v6 := ofFamily .ip6 seen, egress := ps.any (·.bits = 0) }

/-- `stableEgressOf`: the first address named that can be read. -/
def stableEgressOf (groups : List AdvertisedGroup) : Rewrite :=
  match groups.findSome? fun g => if g.stableEgressIp = "" then none else parseAddr g.stableEgressIp with
  | some addr => .snat addr.unmap
  | none => .masquerade

def carryRules (iface : String) (c : Carried) (family : IpFamily) : List Rule :=
  if c.side family = [] then []
  else [{ conds := [.iifname iface, .daddr family (c.side family)], verdict := .act .accept },
    { conds := [.oifname iface, .saddr family (c.side family)], verdict := .act .accept }]

def rewriteRules (iface : String) (c : Carried) (stable : Rewrite) (family : IpFamily) : List Rule :=
  if c.side family = [] then []
  else [{ conds := [.iifname iface, .daddr family (c.side family)],
          verdict := .act (.rewrite stable) }]

def forwardRules (iface : String) (c : Carried) : List Rule :=
  [{ conds := [.ctState [.established, .related]], verdict := .act .accept }] ++
    [.ip, .ip6].flatMap (carryRules iface c) ++
    (if c.egress then [{ conds := [.iifname iface], verdict := .act .accept }] else [])

def postroutingRules (iface : String) (c : Carried) (stable : Rewrite) : List Rule :=
  [.ip, .ip6].flatMap (rewriteRules iface c stable) ++
    (if c.egress then [{ conds := [.iifname iface, .oifnameNot iface],
                         verdict := .act (.rewrite stable) }] else [])

def forwardTable (iface : String) (c : Carried) (stable : Rewrite) : Table :=
  ⟨forwardKey,
    [{ name := "forward", base := some (filterBase .forward), rules := forwardRules iface c },
      { name := "postrouting", base := some ⟨.nat, .postrouting, 100, .accept⟩,
        rules := postroutingRules iface c stable }]⟩

def renderForward (iface : String) (groups : List AdvertisedGroup) :
    Except Fault (List Command) := do
  refuseIf (interfaceNameOk iface = false) (.badInterface iface)
  let c ← carriedPrefixes groups
  pure (remove forwardKey ++
    if c.Nothing then [] else (forwardTable iface c (stableEgressOf groups)).script)

/-- `CarryTable`: where the host keeps its `FORWARD` chain. -/
def carryKey : Key := ⟨.ip, "filter"⟩

/-- `CarryChainName`. -/
def carryChain : String := "meshp_carry"

def carryPrefixRules (iface : String) (p : Prefix) : List Rule :=
  [{ conds := [.iifname iface, .daddr .ip [p.masked]], verdict := .act .accept },
    { conds := [.oifname iface, .saddr .ip [p.masked]], verdict := .act .accept }]

def carryChainRules (iface : String) (prefixes : List Prefix) : List Rule :=
  (ofFamily .ip prefixes).flatMap (carryPrefixRules iface)

def renderCarry (iface : String) (prefixes : List Prefix) : Except Fault (List Command) := do
  refuseIf (interfaceNameOk iface = false) (.badInterface iface)
  pure (refill carryKey carryChain (carryChainRules iface prefixes))

/-- The rule of `CarryJump`. -/
def carryJumpRule : Rule := { conds := [], verdict := .jump carryChain }

/-- `CarryJump`: the one rule in a chain that is not meshp's. -/
def carryJump : List Command := [.addRule carryKey "FORWARD" carryJumpRule]

/-- `carriedPrefixList`: what is forwarded into, without a default route. -/
def carriedPrefixList (groups : List AdvertisedGroup) : Except Fault (List Prefix) := do
  let ps ← (groups.flatMap AdvertisedGroup.prefixes).mapM fun raw =>
    (readPrefix raw).mapError Fault.carriedUnparsed
  pure ((ps.filter (·.bits ≠ 0)).map Prefix.masked)

end Meshp.Nftables
