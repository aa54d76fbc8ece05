import Meshp.Netip.Text

/-!
# The Tables Behind the Mesh

The PostgreSQL tables that decide what an agent is told, as lists of rows. A row
keeps the columns some modelled query reads; `created_at` and `updated_at`
columns, the audit trail, and presence are left out wherever nothing reads them.
-/

namespace Meshp.Store

open Netip (Addr Prefix)

abbrev Id := Nat

abbrev Time := Nat

abbrev Key := String

structure Organization where
  id : Id
  slug : String
  name : String
  deletedAt : Option Time := none

structure Network where
  id : Id
  organizationId : Id
  slug : String
  name : String
  stateVersion : Nat := 1
  oldestDeltaVersion : Nat := 0
  egressFailClosed : Bool := true
  deletedAt : Option Time := none

inductive Family
  | ipv4
  | ipv6
  deriving DecidableEq

structure AddressPool where
  id : Id
  networkId : Id
  network : Prefix
  family : Family

/-- An address taken out of a pool. Rows are only ever added, and outlive the membership that holds
them. -/
structure AddressAllocation where
  poolId : Id
  networkId : Id
  address : Addr
  holderId : Id
  /-- Set once the address is released into quarantine. -/
  releasedAt : Option Time := none

structure Device where
  id : Id
  organizationId : Id
  name : String
  identityPublicKey : List UInt8
  revokedAt : Option Time := none
  deriving DecidableEq

inductive MembershipState
  | pending
  | active
  | suspended
  | revoked
  deriving DecidableEq

structure Membership where
  id : Id
  deviceId : Id
  networkId : Id
  interfaceName : String
  addressV4 : Option Addr
  addressV6 : Option Addr
  state : MembershipState := .active
  tags : List String
  dnsLabel : String
  deriving DecidableEq

inductive KeyState
  | current
  | retiring
  | retired
  deriving DecidableEq

structure WireGuardKey where
  membershipId : Id
  publicKey : Key
  state : KeyState := .current

structure EnrollmentToken where
  id : Id
  networkId : Id
  organizationId : Id
  tokenHash : List UInt8
  preassignedTags : List String
  maxUses : Nat
  uses : Nat := 0
  expiresAt : Time
  revokedAt : Option Time := none

inductive RouteGroupKind
  | egress
  | subnet
  | service
  deriving DecidableEq

inductive SelectionMode
  | failover
  | pinned
  deriving DecidableEq

/-- `FailoverPolicy`: how patient a device is about moving. -/
structure FailoverPolicy where
  enabled : Option Bool := none
  failThreshold : Nat := 0
  recoverThreshold : Nat := 0
  minHoldSeconds : Nat := 0
  probeTargets : List String := []
  probeQuorum : Nat := 0
  probeIntervalMs : Nat := 0

/-- `MayMove`: an absent answer is yes. -/
def FailoverPolicy.mayMove (p : FailoverPolicy) : Bool :=
  p.enabled.getD true

structure RouteGroup where
  id : Id
  networkId : Id
  slug : String
  name : String
  kind : RouteGroupKind
  selectionMode : SelectionMode := .failover
  stableEgressIp : Option Addr := none
  localFailover : FailoverPolicy := {}

structure RouteGroupPrefix where
  routeGroupId : Id
  network : Prefix

inductive AdminState
  | enabled
  | draining
  | disabled
  deriving DecidableEq

structure RouteAdvertiser where
  id : Id
  routeGroupId : Id
  membershipId : Id
  priority : Int
  weight : Nat
  adminState : AdminState
  region : String := ""
  city : String := ""

inductive HealthState
  | unknown
  | healthy
  | degraded
  | unhealthy
  | offline
  deriving DecidableEq

structure AdvertiserHealth where
  advertiserId : Id
  state : HealthState

inductive RecordType
  | a
  | aaaa
  deriving DecidableEq

structure DnsRecord where
  id : Id
  networkId : Id
  name : String
  type : RecordType
  value : String
  ttl : Nat

/-- What a change-log row says changed. Removals name what they remove, since by the time the row is
read the thing itself may be gone. -/
inductive ChangeKind
  | peerUpsert (membershipId : Id)
  | peerRemove (peerPublicKey : Key)
  | policy
  | routes
  | tunnel
  | dns
  | routeGroupRemove (routeGroupId : Id)
  deriving DecidableEq

structure StateChange where
  networkId : Id
  version : Nat
  kind : ChangeKind
  createdAt : Time

end Meshp.Store
