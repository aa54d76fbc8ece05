import Meshp.Acl.Compile
import Meshp.Routes.Select
import Meshp.Store.Mutations

/-!
# Building an Agent's Desired State

What one membership should be told, worked out from the tables as they are: the
peers it has, the filter its network's policy compiles to, the prefixes others
carry for it and the ones it carries itself. A snapshot is all of that; a delta is
the part of it the change log says moved since some version.
-/

namespace Meshp.Session

open Netip (Addr Prefix)
open Store

inductive RelayState
  | active
  | draining
  | disabled
  deriving DecidableEq

structure Relay where
  slug : String
  endpoints : List String
  state : RelayState

structure PrefixMapping where
  networkId : Id
  real : Prefix
  mapped : Prefix
  deriving DecidableEq

structure Builder where
  /-- The relay registry, if it could be read. -/
  registry : Option (List Relay) := some []
  /-- What configuration names, for when it could not. -/
  relays : Option Wire.RelayConfig := none
  /-- A device's mapped ranges, none if they could not be ensured. -/
  mappings : Id → List PrefixMapping := fun _ => []
  score : Routes.Scorer Nat := fun _ _ _ => 0

inductive Failure
  | noMembership
  | unusablePolicy (fault : Acl.Fault)
  | notAmongPolicyDevices
  | compiling (fault : Acl.Fault)

structure SessionRow where
  membership : Membership
  network : Network

/-- `GetMembershipForSession`: a membership of any state, with its device and its network. -/
def sessionRow (m : Mesh) (id : Id) : Except Failure SessionRow :=
  match m.memberships.find? (·.id = id) with
  | none => .error .noMembership
  | some x =>
    match m.devices.find? (·.id = x.deviceId), m.network? x.networkId with
    | some _, some n => .ok ⟨x, n⟩
    | _, _ => .error .noMembership

/-- `ListPeersForMembership`: every live row of a network but one's own. -/
def peersOf (t : Tables) (n self : Id) : List LiveRow :=
  (liveRows t).filter fun r => r.membership.networkId = n ∧ r.membership.id ≠ self

/-- `GetPeerForMembership`. -/
def peerOf (t : Tables) (id : Id) : Option LiveRow :=
  (liveRows t).find? (·.membership.id = id)

/-- `ListStateChangesSince`: a network's changes in a window of versions, in the order they were
logged. -/
def changesSince (m : Mesh) (n : Id) (fromVersion head : Nat) : List ChangeKind :=
  (m.stateChanges.filter fun r => r.networkId = n ∧ fromVersion < r.version ∧ r.version ≤ head).map
    StateChange.kind

def keepaliveSeconds : Nat := 25

/-- `relayConfig`: what agents are told about relays. Nothing is said by a deployment that has none;
a deployment whose relays are all drained says there are none to use. -/
def Builder.relayConfig (b : Builder) : Option Wire.RelayConfig :=
  match b.registry with
  | none => b.relays
  | some [] => none
  | some all => some ⟨(all.filter (·.state = .active)).map fun r => ⟨r.slug, r.endpoints⟩⟩

def preferredRelay (relays : Option Wire.RelayConfig) : Option Wire.Relay :=
  relays.bind (·.relays.head?)

/-- `allowedIPs`: a host route per address. -/
def allowedIPs (v4 v6 : Option Addr) : List String :=
  (v4.toList ++ v6.toList).map fun a => (Prefix.single a).text

def peerFrom (relays : Option Wire.RelayConfig) (r : LiveRow) : Wire.Peer :=
  { publicKey := r.key.publicKey
    allowedIps := allowedIPs r.membership.addressV4 r.membership.addressV6
    persistentKeepaliveSeconds := keepaliveSeconds
    deviceName := r.device.name
    dnsLabel := r.membership.dnsLabel
    tags := r.membership.tags
    relayId := ((preferredRelay relays).map Wire.Relay.id).getD "" }

/-- `RelayedTunnelMTU`: a path of 1500, less an IPv6 header, a UDP header, the relay's header of a
type and a key, and WireGuard's own. -/
def relayedTunnelMTU : Nat := 1500 - 40 - 8 - (1 + 32) - 32

/-- `failClosedPolicy`: only the opt-out is ever stated. -/
def failClosedPolicy (enforced : Bool) : Wire.FailClosed :=
  if enforced then .unspecified else .disabled

def tunnelConfig (relays : Option Wire.RelayConfig) (row : SessionRow) : Wire.TunnelConfig :=
  { mtu := if (preferredRelay relays).isSome then relayedTunnelMTU else 1420
    failClosedPolicy := failClosedPolicy row.network.egressFailClosed }

def defaultDNSSuffix : String := "internal"

def recordTypeWord : RecordType → String
  | .a => "A"
  | .aaaa => "AAAA"

/-- The order of `ListDNSRecordsForNetwork`: by name, type and value. -/
def recordLe (a b : DnsRecord) : Bool :=
  if a.name ≠ b.name then a.name < b.name
  else if a.type ≠ b.type then recordTypeWord a.type < recordTypeWord b.type
  else a.value ≤ b.value

def dnsConfig (t : Tables) (row : SessionRow) : Wire.DnsConfig :=
  let suffix := row.network.slug ++ "." ++ defaultDNSSuffix
  let records := (t.dnsRecords.filter (·.networkId = row.network.id)).insertionSort (recordLe · ·)
  { searchDomains := [suffix]
    records := records.map fun r => ⟨r.name, recordTypeWord r.type, r.value, r.ttl⟩
    routes := [suffix] }

def policyAddresses (x : Membership) : List Prefix :=
  (x.addressV4.toList ++ x.addressV6.toList).map fun a => Prefix.single a.unmap

def policyDevice (r : LiveRow) : Acl.Device :=
  { key := r.key.publicKey
    addresses := policyAddresses r.membership
    tags := r.membership.tags }

/-- `PolicyDevices`: a member with no address is left out. -/
def policyDevices (t : Tables) (n : Id) : List Acl.Device :=
  (((liveRows t).filter (·.membership.networkId = n)).map policyDevice).filter (·.addresses ≠ [])

/-- `selfAmong`: the first device with one of a membership's addresses. -/
def selfAmong (devices : List Acl.Device) (x : Membership) : Option Acl.Device :=
  let want := (x.addressV4.toList ++ x.addressV6.toList).map Addr.unmap
  devices.find? fun d => d.addresses.any (want.contains ·.addr)

/-- `ActivePolicy`: a stored document is read again before it is used. -/
def activeDocument (t : Tables) (n : Id) : Except Failure (Option Acl.Document) :=
  match activePolicy t n with
  | none => .ok none
  | some p =>
    match p.document.validate with
    | .error fault => .error (.unusablePolicy fault)
    | .ok () => .ok (some p.document)

def compileFor (t : Tables) (x : Membership) (doc : Acl.Document) :
    Except Failure Wire.PacketFilter :=
  let devices := policyDevices t x.networkId
  match selfAmong devices x with
  | none => .error .notAmongPolicyDevices
  | some self =>
    match Acl.compile doc self devices with
    | .error fault => .error (.compiling fault)
    | .ok filter => .ok filter

/-- `filterFor`: nothing when the network has no policy. -/
def filterFor (t : Tables) (x : Membership) : Except Failure (Option Wire.PacketFilter) :=
  match activeDocument t x.networkId with
  | .error e => .error e
  | .ok none => .ok none
  | .ok (some doc) => (compileFor t x doc).map some

def idText (id : Id) : String := toString id

/-- One row of `ListRouteAdvertisers`: an advertiser, its live membership and what is known of its
health. -/
structure AdvertiserRow where
  advertiser : RouteAdvertiser
  live : LiveRow
  health : HealthState

/-- The order of `ListRouteAdvertisers` within a group. -/
def advertiserLe (a b : AdvertiserRow) : Bool :=
  if a.advertiser.priority ≠ b.advertiser.priority then
    a.advertiser.priority < b.advertiser.priority
  else a.advertiser.id ≤ b.advertiser.id

/-- `ListRouteAdvertisers` of one group. -/
def advertiserRows (t : Tables) (group : Id) : List AdvertiserRow :=
  ((t.routeAdvertisers.filter (·.routeGroupId = group)).flatMap fun a =>
    ((liveRows t).filter (·.membership.id = a.membershipId)).map fun r =>
      ⟨a, r, healthOf t a.id⟩).insertionSort (advertiserLe · ·)

theorem mem_advertiserRows {t : Tables} {group : Id} {r : AdvertiserRow}
    (hr : r ∈ advertiserRows t group) :
    r.advertiser ∈ t.routeAdvertisers ∧ r.advertiser.routeGroupId = group := by
  unfold advertiserRows at hr
  rw [List.mem_insertionSort, List.mem_flatMap] at hr
  rcases hr with ⟨a, ha, hr⟩
  rcases List.mem_map.1 hr with ⟨_, _, rfl⟩
  rcases List.mem_filter.1 ha with ⟨hmem, hag⟩
  exact ⟨hmem, by simpa using hag⟩

/-- `ListRouteGroupPrefixes` of one group. -/
def prefixesOf (t : Tables) (group : Id) : List Prefix :=
  ((t.routeGroupPrefixes.filter (·.routeGroupId = group)).map RouteGroupPrefix.network).insertionSort
    (Acl.prefixLe · ·)

structure GroupRow where
  group : RouteGroup
  prefixes : List Prefix
  advertisers : List AdvertiserRow

/-- `RouteGroupsFor` and `Advertisers`: a network's groups in the order of their slugs. -/
def groupRows (t : Tables) (n : Id) : List GroupRow :=
  ((groupsOf t n).insertionSort fun a b => a.slug ≤ b.slug).map fun g =>
    ⟨g, prefixesOf t g.id, advertiserRows t g.id⟩

def carriedPrefixes (g : GroupRow) : List String :=
  if g.group.kind = .egress then ["0.0.0.0/0", "::/0"] else g.prefixes.map Prefix.text

def addrText (a : Option Addr) : String :=
  (a.map Addr.text).getD ""

/-- `carriedBy`: what a device must forward for a group, if anything. -/
def carriedBy (g : GroupRow) (self : Id) : Option Wire.AdvertisedGroup :=
  match g.advertisers.find? (·.advertiser.membershipId = self) with
  | none => none
  | some row =>
    if row.advertiser.adminState = .disabled then none
    else
      some
        { routeGroupId := idText g.group.id
          name := g.group.name
          prefixes := carriedPrefixes g
          stableEgressIp := addrText g.group.stableEgressIp }

def advertiserOf (row : AdvertiserRow) : Routes.Advertiser :=
  { id := idText row.advertiser.id
    peerPublicKey := row.live.key.publicKey
    priority := row.advertiser.priority
    weight := row.advertiser.weight
    admin := row.advertiser.adminState
    health := row.health
    region := row.advertiser.region
    city := row.advertiser.city
    displayName := row.live.device.name }

/-- `selectFor`: one group's advertisers in order, for one device. A device is never offered itself.
-/
def selectFor (score : Routes.Scorer Nat) (g : GroupRow) (self : Id) : List Routes.Advertiser :=
  Routes.select score
    { deviceKey := idText self
      mode := g.group.selectionMode
      advertisers := (g.advertisers.filter (·.advertiser.membershipId ≠ self)).map advertiserOf }

def modeOf : SelectionMode → Wire.Mode
  | .failover => .failover
  | .pinned => .pinned

/-- `healthTo`: draining is reported as a health of its own. -/
def healthTo (admin : AdminState) (health : HealthState) : Wire.CandidateHealth :=
  if admin = .draining then .draining
  else match health with
    | .healthy => .healthy
    | .degraded => .degraded
    | .unhealthy => .unhealthy
    | .offline => .offline
    | .unknown => .unspecified

def candidateOf (a : Routes.Advertiser) : Wire.RouteCandidate :=
  { advertiserId := a.id
    peerPublicKey := a.peerPublicKey
    priority := (a.priority % 2 ^ 32).toNat
    weight := a.weight.toNat
    serverHealth := healthTo a.admin a.health
    region := a.region
    city := a.city
    displayName := a.displayName }

/-- `mappedByNetwork`: a device's mapped ranges in one network. -/
def mappedByNetwork (mappings : List PrefixMapping) (n : Id) (p : Prefix) : Option Prefix :=
  ((mappings.filter (·.networkId = n)).reverse.find? (·.real.masked = p.masked)).map
    PrefixMapping.mapped

def assignmentFor (g : GroupRow) (candidates : List Routes.Advertiser)
    (mapped : Prefix → Option Prefix) : Wire.RouteGroupAssignment :=
  { routeGroupId := idText g.group.id
    name := g.group.name
    mode := modeOf g.group.selectionMode
    localFailover :=
      { enabled := g.group.localFailover.mayMove
        failThreshold := g.group.localFailover.failThreshold
        recoverThreshold := g.group.localFailover.recoverThreshold
        minHoldSeconds := g.group.localFailover.minHoldSeconds
        probeTargets := g.group.localFailover.probeTargets
        probeQuorum := g.group.localFailover.probeQuorum
        probeIntervalMs := g.group.localFailover.probeIntervalMs }
    prefixes := carriedPrefixes g
    mappedPrefixes := g.prefixes.filterMap fun p =>
      (mapped p).map fun q => ⟨p.text, q.text⟩
    stableEgressIp := addrText g.group.stableEgressIp
    candidates := candidates.map candidateOf }

/-- What `routeGroupsFor` answers. -/
structure RouteAnswer where
  assigned : List Wire.RouteGroupAssignment := []
  withdrawn : List String := []
  advertised : Option Wire.AdvertisedRoutes := none

/-- `routeGroupsFor`: absent, rather than empty, for a network with no groups. -/
def routeGroupsFor (b : Builder) (t : Tables) (x : Membership) : RouteAnswer :=
  let groups := groupRows t x.networkId
  let mapped := mappedByNetwork (b.mappings x.deviceId) x.networkId
  let offered (g : GroupRow) := selectFor b.score g x.id
  if groups = [] then {}
  else
    { assigned := (groups.filter fun g => offered g ≠ []).map fun g =>
        assignmentFor g (offered g) mapped
      withdrawn := (groups.filter fun g => offered g = []).map fun g => idText g.group.id
      advertised := some ⟨groups.filterMap fun g => carriedBy g x.id⟩ }

/-- `snapshotFromPeers`: the whole world. -/
def snapshotFromPeers (b : Builder) (t : Tables) (row : SessionRow) (peers : List LiveRow) :
    Except Failure Wire.StateDelta := do
  let relays := b.relayConfig
  let filter ← filterFor t row.membership
  let routes := routeGroupsFor b t row.membership
  pure
    { fromVersion := 0
      toVersion := row.network.stateVersion
      upsertPeers := peers.map (peerFrom relays)
      tunnel := some (tunnelConfig relays row)
      dns := some (dnsConfig t row)
      relays
      filter
      routeGroups := routes.assigned
      removedRouteGroupIds := routes.withdrawn
      advertised := routes.advertised }

def upsertedIds (self : Id) (changes : List ChangeKind) : List Id :=
  (changes.filterMap fun
    | .peerUpsert id => if id = self then none else some id
    | _ => none).dedup

def removedKeys (changes : List ChangeKind) : List Key :=
  (changes.filterMap fun
    | .peerRemove key => some key
    | _ => none).dedup

def deletedGroups (changes : List ChangeKind) : List String :=
  (changes.filterMap fun
    | .routeGroupRemove id => some (idText id)
    | _ => none).dedup

def routesMoved (changes : List ChangeKind) : Bool :=
  changes.any fun
    | .routes => true
    | .routeGroupRemove _ => true
    | _ => false

def withdrawals (routes : RouteAnswer) (changes : List ChangeKind) : List String :=
  (routes.withdrawn ++
    (deletedGroups changes).filter (!routes.withdrawn.contains ·)).insertionSort (· ≤ ·)

def filterChange (t : Tables) (x : Membership) (changes : List ChangeKind) :
    Except Failure (Option Wire.PacketFilter) :=
  if .policy ∈ changes then filterFor t x else .ok none

/-- `delta`: what a window of changes amounts to now. -/
def delta (b : Builder) (m : Mesh) (row : SessionRow) (fromVersion : Nat) :
    Except Failure Wire.StateDelta := do
  let head := row.network.stateVersion
  let changes := changesSince m row.membership.networkId fromVersion head
  let relays := b.relayConfig
  let upserts := (upsertedIds row.membership.id changes).filterMap (peerOf m.toTables)
  let routes := if routesMoved changes then routeGroupsFor b m.toTables row.membership else {}
  let filter ← filterChange m.toTables row.membership changes
  pure
    { fromVersion
      toVersion := head
      relays
      tunnel := some (tunnelConfig relays row)
      dns := some (dnsConfig m.toTables row)
      upsertPeers := (upserts.map (peerFrom relays)).insertionSort (·.publicKey ≤ ·.publicKey)
      removePeerKeys := ((removedKeys changes).filter fun key =>
        !(upserts.map (·.key.publicKey)).contains key).insertionSort (· ≤ ·)
      routeGroups := routes.assigned
      removedRouteGroupIds := if routesMoved changes then withdrawals routes changes else []
      advertised := routes.advertised
      filter }

/-- `Snapshot`: the complete desired state of a membership. -/
def Builder.snapshot (b : Builder) (m : Mesh) (id : Id) : Except Failure Wire.StateDelta := do
  let row ← sessionRow m id
  snapshotFromPeers b m.toTables row
    (peersOf m.toTables row.membership.networkId row.membership.id)

def changeFrom (b : Builder) (m : Mesh) (row : SessionRow) (fromVersion : Nat) :
    Except Failure Wire.StateDelta :=
  let head := row.network.stateVersion
  let changes := (changesSince m row.membership.networkId fromVersion head).length
  let peers := peersOf m.toTables row.membership.networkId row.membership.id
  if changes = 0 then .ok { fromVersion, toVersion := head }
  else if peers.length < changes then snapshotFromPeers b m.toTables row peers
  else delta b m row fromVersion

/-- The rules `For` chooses by: an agent with nothing to build on, or ahead of the server, or below
the floor, is sent the snapshot; one already at the head is only told about relays. -/
def answer (b : Builder) (m : Mesh) (row : SessionRow) (fromVersion : Nat) :
    Except Failure Wire.StateDelta :=
  if fromVersion = 0 ∨ row.network.stateVersion < fromVersion ∨
      fromVersion < row.network.oldestDeltaVersion then
    snapshotFromPeers b m.toTables row
      (peersOf m.toTables row.membership.networkId row.membership.id)
  else if fromVersion = row.network.stateVersion then
    .ok { fromVersion, toVersion := row.network.stateVersion, relays := b.relayConfig }
  else changeFrom b m row fromVersion

/-- `For`: the state to send an agent that has applied `fromVersion`. -/
def Builder.for (b : Builder) (m : Mesh) (id : Id) (fromVersion : Nat) :
    Except Failure Wire.StateDelta := do
  let row ← sessionRow m id
  answer b m row fromVersion

end Meshp.Session
