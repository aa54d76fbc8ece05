import Mathlib

/-!
# State on the Wire

The protobuf messages an agent's desired state is made of, field for field as far
as the control plane fills them in. Prefixes, addresses and identifiers are text
here because they are text on the wire.
-/

namespace Meshp.Wire

structure Peer where
  publicKey : String
  allowedIps : List String
  persistentKeepaliveSeconds : Nat
  deviceName : String
  dnsLabel : String
  tags : List String
  relayId : String := ""
  /-- Where the peer can be reached directly, best first. -/
  endpoints : List String := []
  deriving DecidableEq

structure Relay where
  id : String
  endpoints : List String
  deriving DecidableEq

structure RelayConfig where
  relays : List Relay
  deriving DecidableEq

inductive FailClosed
  | unspecified
  | enforced
  | disabled
  deriving DecidableEq

structure TunnelConfig where
  mtu : Nat
  failClosedPolicy : FailClosed
  deriving DecidableEq

structure DnsConfigRecord where
  name : String
  type : String
  value : String
  ttlSeconds : Nat
  deriving DecidableEq

structure DnsConfig where
  searchDomains : List String
  records : List DnsConfigRecord
  routes : List String
  deriving DecidableEq

/-- `PacketFilter_Rule`. -/
structure FilterRule where
  srcPrefixes : List String
  dstPrefixes : List String
  protocol : String
  ports : List String
  allow : Bool
  deriving DecidableEq

structure PacketFilter where
  defaultDeny : Bool
  inbound : List FilterRule := []
  outbound : List FilterRule := []
  deriving DecidableEq

inductive Mode
  | failover
  | pinned
  deriving DecidableEq

structure LocalFailoverPolicy where
  enabled : Bool
  failThreshold : Nat
  recoverThreshold : Nat
  minHoldSeconds : Nat
  probeTargets : List String
  probeQuorum : Nat
  probeIntervalMs : Nat
  deriving DecidableEq

structure MappedPrefix where
  real : String
  mapped : String
  deriving DecidableEq

/-- `RouteCandidate_Health`. -/
inductive CandidateHealth
  | unspecified
  | healthy
  | degraded
  | unhealthy
  | offline
  | draining
  deriving DecidableEq

structure RouteCandidate where
  advertiserId : String
  peerPublicKey : String
  priority : Nat
  weight : Nat
  serverHealth : CandidateHealth
  region : String
  city : String
  displayName : String
  deriving DecidableEq

structure RouteGroupAssignment where
  routeGroupId : String
  name : String
  mode : Mode
  localFailover : LocalFailoverPolicy
  prefixes : List String
  mappedPrefixes : List MappedPrefix
  stableEgressIp : String := ""
  candidates : List RouteCandidate
  deriving DecidableEq

/-- `AdvertisedRoutes_Group`. -/
structure AdvertisedGroup where
  routeGroupId : String
  name : String
  prefixes : List String
  stableEgressIp : String := ""
  deriving DecidableEq

structure AdvertisedRoutes where
  groups : List AdvertisedGroup
  deriving DecidableEq

/-- A change to an agent's desired state. From version zero it is a snapshot: the whole world rather
than a change to it. -/
structure StateDelta where
  fromVersion : Nat
  toVersion : Nat
  upsertPeers : List Peer := []
  removePeerKeys : List String := []
  tunnel : Option TunnelConfig := none
  dns : Option DnsConfig := none
  relays : Option RelayConfig := none
  filter : Option PacketFilter := none
  routeGroups : List RouteGroupAssignment := []
  removedRouteGroupIds : List String := []
  advertised : Option AdvertisedRoutes := none
  deriving DecidableEq

end Meshp.Wire
