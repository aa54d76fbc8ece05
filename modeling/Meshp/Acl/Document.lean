import Meshp.Base.Run
import Meshp.Base.Text

/-!
# Policy Documents

A network's policy is one document: rules that permit traffic, each naming who may
send, who may receive, a protocol and some ports. Nothing forbids; what no rule
permits is dropped where it arrives.
-/

namespace Meshp.Acl

open Base (refuseIf)
open Netip (Prefix)

abbrev Selector := String

inductive SelectorForm
  | everything
  | tag (name : String)
  | literal (p : Prefix)
  | unreadable

/-- `parsePrefix`: a CIDR, masked, or a bare address read as a single host. -/
def parsePrefix (s : String) : Option Prefix :=
  if s.toList.contains '/' then (Netip.parsePrefix s).map Prefix.masked
  else (Netip.parseAddr s).map fun a => Prefix.single a.unmap

/-- Which form a selector has: `*`, then `tag:`, then an address. -/
def Selector.read (s : Selector) : SelectorForm :=
  if s = "*" then .everything
  else if "tag:".toList.isPrefixOf s.toList then
    .tag (String.ofList (s.toList.drop 4))
  else match parsePrefix s with
    | some p => .literal p
    | none => .unreadable

/-- `Selector.Prefix`: the literal prefix a selector names, if it names one. -/
def Selector.literal? (s : Selector) : Option Prefix :=
  match Selector.read s with
  | .literal p => some p
  | _ => none

inductive Protocol
  | any
  | tcp
  | udp
  | icmp
  deriving DecidableEq

def Protocol.word : Protocol → String
  | any => "any"
  | tcp => "tcp"
  | udp => "udp"
  | icmp => "icmp"

structure PortRange where
  first : Nat
  last : Nat

/-- `PortRange.String`. -/
def PortRange.text (r : PortRange) : String :=
  if r.first = r.last then toString r.first else toString r.first ++ "-" ++ toString r.last

structure Rule where
  src : List Selector
  dst : List Selector
  protocol : String := ""
  ports : List String := []
  comment : String := ""

structure Document where
  version : Int
  rules : List Rule
  comment : String := ""

inductive RuleFault
  | noSource
  | noDestination
  | emptySelector
  | emptyTag
  | selector (text : String)
  | protocol (text : String)
  | portsWithout (protocol : Protocol)
  | portNotANumber (spec : String)
  | portOutside (spec : String)
  | portsReversed (spec : String)
  deriving DecidableEq

inductive Fault
  | version (found : Int)
  | rule (index : Nat) (why : RuleFault)
  | noAddresses
  deriving DecidableEq

def Selector.validate (s : Selector) : Except RuleFault Unit :=
  if s = "" then .error .emptySelector
  else match Selector.read s with
    | .everything => .ok ()
    | .tag name => if name = "" then .error .emptyTag else .ok ()
    | .literal _ => .ok ()
    | .unreadable => .error (.selector s)

/-- `Rule.protocol`: the rule's protocol in canonical form. -/
def Rule.protocolOf (r : Rule) : Except RuleFault Protocol :=
  match Text.toLower (Text.trimSpace r.protocol) with
  | "" => .ok .any
  | "any" => .ok .any
  | "tcp" => .ok .tcp
  | "udp" => .ok .udp
  | "icmp" => .ok .icmp
  | _ => .error (.protocol r.protocol)

/-- `CanonicalProtocol`: an unreadable protocol reads as any. -/
def Rule.canonicalProtocol (r : Rule) : Protocol :=
  match r.protocolOf with
  | .ok p => p
  | .error _ => .any

def parsePort (spec part : String) : Except RuleFault Nat :=
  match Text.atoi (Text.trimSpace part) with
  | none => .error (.portNotANumber spec)
  | some n => if n < 1 ∨ 65535 < n then .error (.portOutside spec) else .ok n.toNat

def parsePortRange (raw : String) : Except RuleFault PortRange := do
  let spec := Text.trimSpace raw
  let (from', to?) := Text.cut '-' spec
  let lo ← parsePort spec from'
  let hi ← match to? with
    | some to' => parsePort spec to'
    | none => pure lo
  refuseIf (hi < lo) (.portsReversed spec)
  pure ⟨lo, hi⟩

def PortRange.le (a b : PortRange) : Bool :=
  a.first < b.first || (a.first = b.first && a.last ≤ b.last)

/-- `PortRanges`: the rule's ports, sorted. None means every port. -/
def Rule.portRanges (r : Rule) : Except RuleFault (List PortRange) :=
  (r.ports.mapM parsePortRange).map fun rs => rs.insertionSort (PortRange.le · ·)

def Rule.validate (r : Rule) : Except RuleFault Unit := do
  refuseIf (r.src = []) .noSource
  refuseIf (r.dst = []) .noDestination
  (r.src ++ r.dst).forM Selector.validate
  let proto ← r.protocolOf
  refuseIf (r.ports ≠ [] ∧ proto ≠ .tcp ∧ proto ≠ .udp) (.portsWithout proto)
  let _ ← r.portRanges
  pure ()

/-- Every rule of a list that starts at index `i` is a usable one. -/
def validateRules : Nat → List Rule → Except Fault Unit
  | _, [] => .ok ()
  | i, r :: rs =>
    match r.validate with
    | .error why => .error (.rule i why)
    | .ok () => validateRules (i + 1) rs

def Document.validate (d : Document) : Except Fault Unit :=
  if d.version ≠ 1 then .error (.version d.version) else validateRules 0 d.rules

end Meshp.Acl
