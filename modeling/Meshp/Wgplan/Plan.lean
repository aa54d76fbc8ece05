import Meshp.Base.Run
import Meshp.Netip.Text

/-!
# Planning an Interface

Package `wgplan`: from the interface that is wanted and the interface that is
there, an ordered list of operations. Nothing is touched here. An interface that
should not be applied at all is refused before any operation is planned.
-/

namespace Meshp.Wgplan

open Base (refuseIf)
open Netip (Prefix)

abbrev Key := String

/-- One peer of an interface. The handshake is reported, never wanted; its age is in nanoseconds. -/
structure Peer where
  publicKey : Key
  allowedIPs : List Prefix := []
  endpoint : String := ""
  relayed : Bool := false
  presharedKey : Key := ""
  keepaliveSeconds : Int := 0
  hasHandshake : Bool := false
  handshakeAge : Int := 0
  deriving DecidableEq

def endpointGrace : Int := 180 * 10 ^ 9

/-- The wanted state of one membership's interface. A listen port of zero is any port; `mapped` is
where a colliding prefix is reached. -/
structure Interface where
  name : String
  privateKey : Key
  listenPort : Int := 0
  mtu : Int
  addresses : List Prefix
  peers : List Peer := []
  mapped : Prefix → Option Prefix := fun _ => none

structure Observed where
  exists' : Bool := false
  up : Bool := false
  privateKey : Key := ""
  listenPort : Int := 0
  mtu : Int := 0
  addresses : List Prefix := []
  peers : List Peer := []
  routes : List Prefix := []

structure Device where
  privateKey : Key
  listenPort : Int
  mtu : Int
  deriving DecidableEq

inductive Op
  | createDevice
  | setDevice (device : Device)
  | removePeer (publicKey : Key)
  | setPeer (peer : Peer)
  | removeAddress (p : Prefix)
  | addAddress (p : Prefix)
  | removeRoute (p : Prefix)
  | addRoute (p : Prefix)
  | bringUp
  | destroyDevice
  deriving DecidableEq

/-- `isLoopback`: an endpoint is a socket of this host. -/
def isLoopback (endpoint : String) : Bool :=
  endpoint ≠ "" && (Netip.parseAddrPort endpoint).any fun a => a.1.isLoopback

def claim (i : Interface) (peer : Peer) :
    List (Prefix × Key) → List Prefix → Except String (List (Prefix × Key))
  | claimed, [] => .ok claimed
  | claimed, p :: ps => do
    refuseIf ((∃ own ∈ i.addresses, own.addr = p.addr) ∧ p.bits = p.addr.bitLen)
      ("wgplan: interface " ++ i.name ++ " peer " ++ peer.publicKey ++
        " claims this device's own address " ++ p.text)
    match claimed.lookup p with
    | some other =>
      .error ("wgplan: interface " ++ i.name ++ " peers " ++ other ++ " and " ++
        peer.publicKey ++ " both claim " ++ p.text)
    | none => claim i peer (claimed ++ [(p, peer.publicKey)]) ps

def checkPeers (i : Interface) :
    List Key → List (Prefix × Key) → List Peer → Except String (List (Prefix × Key))
  | _, claimed, [] => .ok claimed
  | seen, claimed, peer :: rest => do
    let who := "wgplan: interface " ++ i.name ++ " peer " ++ peer.publicKey
    refuseIf (peer.publicKey = "")
      ("wgplan: interface " ++ i.name ++ " has a peer with no public key")
    refuseIf (peer.publicKey ∈ seen)
      ("wgplan: interface " ++ i.name ++ " lists peer " ++ peer.publicKey ++ " twice")
    refuseIf (peer.relayed = true ∧ peer.endpoint = "")
      (who ++ " is relayed with no endpoint; a relayed peer must point at the socket serving it")
    refuseIf (peer.relayed = true ∧ isLoopback peer.endpoint = false)
      (who ++ " is relayed but points at " ++ peer.endpoint ++
        ", which is not a socket this agent serves")
    refuseIf (peer.relayed = false ∧ isLoopback peer.endpoint = true)
      (who ++ " points at " ++ peer.endpoint ++
        " without being marked relayed; nothing would keep that socket alive")
    refuseIf (peer.allowedIPs = []) (who ++ " has no allowed IPs")
    let claimed ← claim i peer claimed peer.allowedIPs
    checkPeers i (seen ++ [peer.publicKey]) claimed rest

def Contested (a b : Prefix × Key) : Prop :=
  a.2 ≠ b.2 ∧ (a.1.bits = 0 ↔ b.1.bits = 0) ∧ a.1.overlaps b.1 = true

instance decidableContested (a b : Prefix × Key) : Decidable (Contested a b) :=
  inferInstanceAs (Decidable (_ ∧ _ ∧ _))

def checkOverlaps (i : Interface) : List (Prefix × Key) → Except String Unit
  | [] => .ok ()
  | a :: rest => do
    rest.forM fun b => refuseIf (Contested a b)
      ("wgplan: interface " ++ i.name ++ " peer " ++ a.2 ++ " has " ++ a.1.text ++
        ", which overlaps " ++ b.1.text ++ " held by " ++ b.2)
    checkOverlaps i rest

def Interface.validate (i : Interface) : Except String Unit := do
  refuseIf (i.name = "") "wgplan: an interface needs a name"
  refuseIf (i.privateKey = "") ("wgplan: interface " ++ i.name ++ " has no private key")
  refuseIf (i.mtu ≤ 0) ("wgplan: interface " ++ i.name ++ " has MTU " ++ toString i.mtu)
  refuseIf (i.addresses = []) ("wgplan: interface " ++ i.name ++ " has no addresses")
  i.addresses.forM fun a => refuseIf (a.bits ≠ a.addr.bitLen)
    ("wgplan: interface " ++ i.name ++ " address " ++ a.text ++ " is not a host prefix")
  let claimed ← checkPeers i [] [] i.peers
  checkOverlaps i (claimed.insertionSort fun a b => a.1.text ≤ b.1.text)

/-- `indexPeers`, read at a key. -/
def indexPeers (peers : List Peer) (key : Key) : Option Peer :=
  peers.reverse.find? (·.publicKey = key)

/-- `sortedKeys` of `indexPeers`. -/
def sortedKeys (peers : List Peer) : List Key :=
  (peers.map Peer.publicKey).dedup.insertionSort (· ≤ ·)

/-- `sortPrefixes`: without duplicates, by text. -/
def sortPrefixes (ps : List Prefix) : List Prefix :=
  ps.dedup.insertionSort fun a b => a.text ≤ b.text

/-- `sameApartFromEndpoint`: what the control plane decides outright. -/
def sameApartFromEndpoint (have' want : Peer) : Bool :=
  have'.presharedKey = want.presharedKey &&
    have'.keepaliveSeconds = want.keepaliveSeconds &&
    sortPrefixes have'.allowedIPs = sortPrefixes want.allowedIPs

/-- `keepObservedEndpoint`: whether the endpoint the device has is left as it is. -/
def keepObservedEndpoint (have' want : Peer) : Bool :=
  if want.relayed then false
  else if isLoopback have'.endpoint then false
  else if want.endpoint = "" then true
  else if have'.endpoint = "" then false
  else if have'.endpoint = want.endpoint then false
  else have'.hasHandshake && have'.handshakeAge ≤ endpointGrace

/-- `resolvePeer`: whether a peer is written, and what. No endpoint is the one that is there. -/
def resolvePeer (have' want : Peer) : Bool × Peer :=
  let keep := keepObservedEndpoint have' want
  let out := if keep then { want with endpoint := "" } else want
  (!sameApartFromEndpoint have' want || (!keep && have'.endpoint ≠ want.endpoint), out)

def peerOps (have' : Option Peer) (want : Peer) : List Op :=
  match have' with
  | none => [.setPeer want]
  | some current =>
    if isLoopback current.endpoint && !want.relayed && want.endpoint = "" then
      [.removePeer want.publicKey, .setPeer want]
    else if (resolvePeer current want).1 then [.setPeer (resolvePeer current want).2]
    else []

/-- `wantRoutes`: a default route is never among them, and a colliding prefix is routed where it is
reached. -/
def wantRoutes (want : Interface) : List Prefix :=
  (want.peers.flatMap Peer.allowedIPs).filterMap fun p =>
    if p.bits = 0 then none else some ((want.mapped p).getD p)

/-- `addPrefixOps`: what is not wanted goes, then what is missing comes. -/
def prefixOps (have' want : List Prefix) (remove add : Prefix → Op) : List Op :=
  ((sortPrefixes have').filter (· ∉ want)).map remove ++
    ((sortPrefixes want).filter (· ∉ have')).map add

def deviceOps (want : Interface) (observed : Observed) : List Op :=
  if observed.exists' = false ∨ observed.privateKey ≠ want.privateKey ∨
      (want.listenPort ≠ 0 ∧ observed.listenPort ≠ want.listenPort) ∨ observed.mtu ≠ want.mtu then
    [.setDevice ⟨want.privateKey, want.listenPort, want.mtu⟩]
  else []

def peersOps (want have' : List Peer) : List Op :=
  ((sortedKeys have').filter fun key => (indexPeers want key).isNone).map Op.removePeer ++
    (sortedKeys want).flatMap fun key =>
      ((indexPeers want key).map (peerOps (indexPeers have' key))).getD []

/-- The operations of `For`, once the interface is known to be valid. -/
def operations (want : Interface) (observed : Observed) : List Op :=
  (if observed.exists' then [] else [.createDevice]) ++
    deviceOps want observed ++
    peersOps want.peers observed.peers ++
    prefixOps observed.addresses want.addresses .removeAddress .addAddress ++
    (if observed.exists' && observed.up then [] else [.bringUp]) ++
    prefixOps observed.routes (wantRoutes want) .removeRoute .addRoute

/-- `For`. -/
def planFor (want : Interface) (observed : Observed) : Except String (List Op) := do
  want.validate
  pure (operations want observed)

/-- `Teardown`: routes first, then addresses, then the interface. -/
def teardown (observed : Observed) : List Op :=
  if observed.exists' then
    (sortPrefixes observed.routes).map .removeRoute ++
      (sortPrefixes observed.addresses).map .removeAddress ++ [.destroyDevice]
  else []

end Meshp.Wgplan
