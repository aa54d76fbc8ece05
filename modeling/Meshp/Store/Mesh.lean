import Meshp.Acl.Document
import Meshp.Store.Schema

/-!
# The Mesh as One State

Every table that bears on what an agent is told, in one record, and the two writes
every mutation is built from: a fresh identifier, and a version bump with the
changes that explain it.
-/

namespace Meshp.Store

open Base (refuseIf)

structure AclPolicy where
  id : Id
  networkId : Id
  version : Nat
  document : Acl.Document
  isActive : Bool

structure Tables where
  organizations : List Organization := []
  addressPools : List AddressPool := []
  addressAllocations : List AddressAllocation := []
  devices : List Device := []
  memberships : List Membership := []
  wireguardKeys : List WireGuardKey := []
  enrollmentTokens : List EnrollmentToken := []
  routeGroups : List RouteGroup := []
  routeGroupPrefixes : List RouteGroupPrefix := []
  routeAdvertisers : List RouteAdvertiser := []
  advertiserHealth : List AdvertiserHealth := []
  aclPolicies : List AclPolicy := []
  dnsRecords : List DnsRecord := []
  /-- The next identifier no row has had. -/
  nextId : Id := 1

structure Mesh extends Tables where
  networks : List Network := []
  stateChanges : List StateChange := []

/-- Why a mutation is refused. A constraint of the database that no caller turns into a refusal of
its own is named by the constraint. -/
inductive Refusal
  | emptyBump
  | changeNamesNothing
  | changeNamesSeveral
  | constraint (name : String)
  | invalid (message : String)
  | policy (fault : Acl.Fault)
  | organizationExists
  | noSuchNetwork
  | notAMember
  | noSuchDevice
  | noSuchRouteGroup
  | noSuchRecord
  | recordExists
  | noSuchAdvertiser
  | tokenUnknown
  | tokenRevoked
  | tokenExpired
  | tokenExhausted
  | proofFailed
  | deviceRevoked
  | alreadyInNetwork
  | labelTaken
  | labelsExhausted
  | wireGuardKeyInUse
  | noAddressPool
  | address (message : String)

/-- `Change`: one thing that changed about a network's desired state. Exactly one field is meant to
be set. -/
structure Change where
  membershipId : Option Id := none
  peerPublicKey : Option Key := none
  routeGroupId : Option Id := none
  policy : Bool := false
  routes : Bool := false
  tunnel : Bool := false
  dns : Bool := false

def peerUpserted (membershipId : Id) : Change := { membershipId := some membershipId }

def peerRemoved (publicKey : Key) : Change := { peerPublicKey := some publicKey }

def routesChanged : Change := { routes := true }

def routeGroupRemoved (id : Id) : Change := { routeGroupId := some id }

def policyChanged : Change := { policy := true }

def tunnelChanged : Change := { tunnel := true }

def dnsRecordsChanged : Change := { dns := true }

def Change.kinds (c : Change) : List ChangeKind :=
  (if c.policy then [.policy] else []) ++ (if c.routes then [.routes] else []) ++
    (if c.tunnel then [.tunnel] else []) ++ (if c.dns then [.dns] else []) ++
    (c.membershipId.map ChangeKind.peerUpsert).toList ++
    (c.peerPublicKey.map ChangeKind.peerRemove).toList ++
    (c.routeGroupId.map ChangeKind.routeGroupRemove).toList

/-- `kind`: which sort of change this is, refusing anything ambiguous. -/
def Change.kind (c : Change) : Except Refusal ChangeKind :=
  match c.kinds with
  | [k] => .ok k
  | [] => .error .changeNamesNothing
  | _ => .error .changeNamesSeveral

namespace Mesh

def network? (m : Mesh) (n : Id) : Option Network :=
  m.networks.find? (·.id = n)

def setNetwork (m : Mesh) (n : Id) (f : Network → Network) : Mesh :=
  { m with networks := m.networks.map fun r => if r.id = n then f r else r }

def version (m : Mesh) (n : Id) : Nat :=
  ((m.network? n).map Network.stateVersion).getD 0

def floor (m : Mesh) (n : Id) : Nat :=
  ((m.network? n).map Network.oldestDeltaVersion).getD 0

/-- One version bump of network `n`, logging `kinds` at the new version. -/
def record (m : Mesh) (now : Time) (n : Id) (kinds : List ChangeKind) : Mesh :=
  { m.setNetwork n fun r => { r with stateVersion := r.stateVersion + 1 } with
    stateChanges := m.stateChanges ++ kinds.map fun kind =>
      { networkId := n, version := m.version n + 1, kind, createdAt := now } }

end Mesh

/-- `BumpVersion`: advance a network's version and record what changed. -/
def bumpVersion (now : Time) (m : Mesh) (n : Id) (changes : List Change) : Except Refusal Mesh := do
  refuseIf (changes = []) .emptyBump
  refuseIf (m.network? n = none) .noSuchNetwork
  let kinds ← changes.mapM Change.kind
  pure (m.record now n kinds)

/-- `bumpVersion` of several networks in turn, each saying its routes moved. -/
def bumpRoutes (now : Time) : Mesh → List Id → Except Refusal Mesh
  | m, [] => .ok m
  | m, n :: ns => do
    let m ← bumpVersion now m n [routesChanged]
    bumpRoutes now m ns

/-- `OtherNetworksForDevice`: the networks a device is in, apart from one. -/
def otherNetworksForDevice (m : Tables) (device n : Id) : List Id :=
  ((m.memberships.filter fun x => x.deviceId = device ∧ x.networkId ≠ n ∧ x.state = .active).map
    Membership.networkId).dedup

/-- `NetworksSharingADeviceWith`: the networks that have a device in common with this one. -/
def networksSharingADeviceWith (m : Tables) (n : Id) : List Id :=
  ((m.memberships.filter fun ours => ours.networkId = n ∧ ours.state = .active).flatMap fun ours =>
    (m.memberships.filter fun theirs => theirs.deviceId = ours.deviceId ∧ theirs.networkId ≠ n ∧
      theirs.state = .active).map Membership.networkId).dedup

def bumpRoutesForSharedNetworks (now : Time) (m : Mesh) (n : Id) : Except Refusal Mesh :=
  bumpRoutes now m (networksSharingADeviceWith m.toTables n)

/-- `BumpRoutesEverywhere`: this network, and every network sharing a device with it. -/
def bumpRoutesEverywhere (now : Time) (m : Mesh) (n : Id) : Except Refusal Mesh := do
  let m ← bumpVersion now m n [routesChanged]
  bumpRoutesForSharedNetworks now m n

/-- One row of the join of an active membership, its current key and its unrevoked device. -/
structure LiveRow where
  membership : Membership
  key : WireGuardKey
  device : Device

def liveRowsOf (keys : List WireGuardKey) (devices : List Device) (x : Membership) : List LiveRow :=
  if x.state = .active then
    (keys.filter fun k => k.membershipId = x.id ∧ k.state = .current).flatMap fun k =>
      (devices.filter fun d => d.id = x.deviceId ∧ d.revokedAt = none).map fun d => ⟨x, k, d⟩
  else []

def liveRows (m : Tables) : List LiveRow :=
  m.memberships.flatMap (liveRowsOf m.wireguardKeys m.devices)

def groupsOf (t : Tables) (n : Id) : List RouteGroup :=
  t.routeGroups.filter (·.networkId = n)

def activePolicy (t : Tables) (n : Id) : Option AclPolicy :=
  t.aclPolicies.find? fun p => p.networkId = n ∧ p.isActive

end Meshp.Store
