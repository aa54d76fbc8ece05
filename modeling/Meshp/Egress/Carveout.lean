import Meshp.Base.Text

/-!
# What Stays Off a Full Tunnel

A device that sends everything through its tunnel still has to reach some things
directly: its control plane, its relays, the networks it is attached to, and what
an administrator named. `compute` collects them, as endpoints with a port and as
prefixes.
-/

namespace Meshp.Egress

open Netip (Addr AddrPort Prefix parseAddr parsePrefix writtenPrefix)

/-- `alwaysExcluded`: what does not route beyond the local link. -/
def alwaysExcluded : List Prefix :=
  ["169.254.0.0/16", "224.0.0.0/4", "255.255.255.255/32", "fe80::/10", "ff00::/8"].filterMap
    parsePrefix

/-- `normalise`: sorted, without repetition, and without a default route. -/
def normalise (ps : List Prefix) : List (Option Prefix) :=
  (((ps.filter (·.bits ≠ 0)).map fun p =>
    (Prefix.ofBits? p.addr.unmap p.bits).map Prefix.masked).dedup).insertionSort
      fun a b => ¬writtenPrefix b < writtenPrefix a

def normaliseEndpoints (eps : List AddrPort) : List AddrPort :=
  (((eps.filter (·.port ≠ 0)).map fun ep => (⟨ep.addr.unmap, ep.port⟩ : AddrPort)).dedup).insertionSort
    fun a b => ¬b.text < a.text

/-- `Resolver`: the addresses of a host name, if it resolves. -/
abbrev Resolver := String → Option (List Addr)

/-- `net.SplitHostPort`. A host in square brackets may hold colons, and no other may. -/
def splitHostPort (s : String) : Option (String × String) :=
  let port := (s.toList.reverse.takeWhile (· ≠ ':')).reverse
  match s.toList.reverse.dropWhile (· ≠ ':') with
  | [] => none
  | _ :: rest =>
    let host := rest.reverse
    match host with
    | '[' :: inner =>
      -- The closing bracket is the first one, and right before the last colon.
      let name := inner.takeWhile (· ≠ ']')
      if inner.dropWhile (· ≠ ']') ≠ [']'] ∨ '[' ∈ name ∨ '[' ∈ port ∨ ']' ∈ port then none
      else some (String.ofList name, String.ofList port)
    | _ =>
      if ':' ∈ host ∨ '[' ∈ host ∨ ']' ∈ host ∨ '[' ∈ port ∨ ']' ∈ port then none
      else some (String.ofList host, String.ofList port)

/-- A port, as `resolveHostPort` reads it: decimal, sixteen bits, not zero. -/
def portOf (port : String) : Option UInt16 :=
  if port = "" then none
  else ((Netip.number 10 Netip.digit? port.toList).filter fun n => n < 2 ^ 16 && n ≠ 0).map
    UInt16.ofNat

/-- `resolveHostPort`. An address needs no resolver. -/
def resolveHostPort (resolve : Resolver) (host port : String) : Option (List AddrPort) := do
  let n ← portOf port
  match parseAddr host with
  | some a => some [⟨a.unmap, n⟩]
  | none =>
    let found ← resolve host
    if found = [] then none else some (found.map fun a => ⟨a.unmap, n⟩)

structure URL where
  scheme : String
  host : String
  port : String

def URL.dialled (u : URL) : Option String :=
  if u.port ≠ "" then some u.port
  else if u.scheme ∈ ["https", "wss"] then some "443"
  else if u.scheme ∈ ["http", "ws"] then some "80"
  else none

/-- `endpointsOf`; a blank URL, and one that does not parse, is `none`. -/
def endpointsOf (resolve : Resolver) (url : Option URL) : Option (List AddrPort) := do
  let u ← url
  resolveHostPort resolve u.host (← u.dialled)

def hostPortEndpoints (resolve : Resolver) (raw : String) : Option (List AddrPort) := do
  let (host, port) ← splitHostPort (Text.trimSpace raw)
  resolveHostPort resolve host port

/-- `contributes`: an interface that carries one of the tunnel's addresses adds nothing. -/
def contributes (carried own : List Prefix) : List Prefix :=
  if carried.any fun p => own.any (·.addr = p.addr) then [] else carried.map Prefix.masked

/-- `LocalNetworks`, of the addresses of every interface that is up. -/
def localNetworks (interfaces : List (List Prefix)) (own : List Prefix) : List (Option Prefix) :=
  normalise (interfaces.flatMap (contributes · own))

structure Inputs where
  controlURL : Option URL
  relayEndpoints : List String
  localPrefixes : List (Option Prefix)
  extraPrefixes : List String

structure Carveout where
  prefixes : List (Option Prefix)
  endpoints : List AddrPort
  deriving DecidableEq

/-- `Compute`. Without a control plane there is no carve-out. -/
def compute (input : Inputs) (resolve : Resolver) : Option Carveout := do
  let control ← (endpointsOf resolve input.controlURL).filter (· ≠ [])
  let relays := (input.relayEndpoints.filterMap (hostPortEndpoints resolve)).flatten
  let extra := input.extraPrefixes.filterMap fun raw => parsePrefix (Text.trimSpace raw)
  pure
    { prefixes := normalise (alwaysExcluded ++ input.localPrefixes.reduceOption ++ extra)
      endpoints := normaliseEndpoints (control ++ relays) }

example : splitHostPort "[fd00::1]:443" = some ("fd00::1", "443") := by decide

end Meshp.Egress
