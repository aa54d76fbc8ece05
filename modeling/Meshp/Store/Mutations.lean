import Meshp.Dns.Label
import Meshp.Store.StateLog

/-!
# Everything That Changes the Mesh

The store's mutations apart from enrolment, each one transaction: check, write the
tables, bump the versions, and either all of it lands or none of it does.
-/

namespace Meshp.Store

open Base (refuseIf)
open Netip (Addr Prefix)
open Text (quote slugOk trimSpace)

/-- What `validateSlug` says of a slug it refuses. -/
def badSlug (what slug : String) : Refusal :=
  .invalid (quote slug ++ " is not a usable " ++ what ++
    " name; use lowercase letters, digits and hyphens")

def createOrganization (m : Mesh) (slug name : String) : Except Refusal Mesh :=
  if !slugOk slug then .error (badSlug "organisation" slug)
  else if name = "" then .error (.invalid "an organisation needs a name")
  else if m.organizations.any (·.slug = slug) then .error .organizationExists
  else .ok { m with
    organizations := m.organizations ++ [{ id := m.nextId, slug, name }]
    nextId := m.nextId + 1 }

/-- `orSlug`: a name, or the slug when there is none to speak of. -/
def orSlug (name slug : String) : String :=
  if trimSpace name = "" then slug else name

def createPools (n : Id) : Tables → List Prefix → Except Refusal Tables
  | t, [] => .ok t
  | t, p :: ps =>
    if t.addressPools.any fun q => q.networkId = n ∧ q.network = p.masked then
      .error (.constraint "address_pools_network_id_prefix_key")
    else
      createPools n
        { t with
          addressPools := t.addressPools ++
            [{ id := t.nextId, networkId := n, network := p.masked,
               family := if p.addr.is4 then .ipv4 else .ipv6 }]
          nextId := t.nextId + 1 } ps

/-- `CreateNetwork`. A network starts at version one with an empty log. -/
def createNetwork (m : Mesh) (org : Id) (slug name : String) (pools : List Prefix) :
    Except Refusal Mesh := do
  refuseIf (!slugOk slug) (badSlug "network" slug)
  refuseIf (∀ o ∈ m.organizations, o.id ≠ org) (.constraint "networks_organization_id_fkey")
  refuseIf (∃ r ∈ m.networks, r.organizationId = org ∧ r.slug = slug)
    (.constraint "networks_organization_id_slug_key")
  let t ← createPools m.nextId { m.toTables with nextId := m.nextId + 1 } pools
  pure
    { toTables := t
      networks := m.networks ++
        [{ id := m.nextId, organizationId := org, slug, name := orSlug name slug }]
      stateChanges := m.stateChanges }

/-- `CreateEnrollmentToken`, for a network that exists. -/
def createEnrollmentToken (m : Mesh) (n : Id) (tokenHash : List UInt8) (tags : List String)
    (maxUses : Nat) (expiresAt : Time) : Except Refusal Mesh :=
  match m.network? n with
  | none => .error .noSuchNetwork
  | some r =>
    if maxUses = 0 then .error (.constraint "enrollment_tokens_max_uses_check")
    else if m.enrollmentTokens.any (·.tokenHash = tokenHash) then
      .error (.constraint "enrollment_tokens_token_hash_key")
    else .ok { m with
      enrollmentTokens := m.enrollmentTokens ++
        [{ id := m.nextId, networkId := n, organizationId := r.organizationId, tokenHash,
           preassignedTags := tags, maxUses, expiresAt }]
      nextId := m.nextId + 1 }

def currentKey (t : Tables) (membership : Id) : Option Key :=
  (t.wireguardKeys.find? fun k => k.membershipId = membership ∧ k.state = .current).map
    WireGuardKey.publicKey

def markRevoked (t : Tables) (id : Id) : Tables :=
  { t with memberships := t.memberships.map fun x =>
      if x.id = id then { x with state := .revoked } else x }

/-- `RevokeMembership`: the membership is marked, and its key is logged as no longer a peer.
Revoking twice is a refusal. -/
def revokeMembership (now : Time) (m : Mesh) (n id : Id) : Except Refusal Mesh :=
  match m.memberships.find? fun x => x.id = id ∧ x.networkId = n ∧ x.state ≠ .revoked,
      currentKey m.toTables id with
  | some _, some key =>
    bumpVersion now { m with toTables := markRevoked m.toTables id } n [peerRemoved key]
  | _, _ => .error .notAMember

def advertises (t : Tables) (id : Id) : Bool :=
  t.routeAdvertisers.any (·.membershipId = id)

def announceKey (now : Time) (m : Mesh) (x : Membership) : Except Refusal Mesh :=
  match currentKey m.toTables x.id with
  | some key => if key ≠ "" then bumpVersion now m x.networkId [peerRemoved key] else .ok m
  | none => .ok m

def announceLeaving (now : Time) (m : Mesh) (x : Membership) : Except Refusal Mesh := do
  let m ← announceKey now m x
  if advertises m.toTables x.id then bumpRoutesEverywhere now m x.networkId else pure m

/-- `DeleteDevice`, with everything its foreign keys cascade to. -/
def deleteDevice (m : Mesh) (device : Id) : Mesh :=
  let gone := (m.memberships.filter (·.deviceId = device)).map Membership.id
  let goneAdvertisers :=
    (m.routeAdvertisers.filter (gone.contains ·.membershipId)).map RouteAdvertiser.id
  { m with
    devices := m.devices.filter (·.id ≠ device)
    memberships := m.memberships.filter (·.deviceId ≠ device)
    wireguardKeys := m.wireguardKeys.filter fun k => !gone.contains k.membershipId
    routeAdvertisers := m.routeAdvertisers.filter fun a => !gone.contains a.membershipId
    advertiserHealth := m.advertiserHealth.filter fun h => !goneAdvertisers.contains h.advertiserId
    stateChanges := m.stateChanges.filter fun r => match r.kind with
      | .peerUpsert id => !gone.contains id
      | _ => true }

/-- `ForgetDevice`: say everything that has to be said, then erase it. -/
def forgetDevice (now : Time) (m : Mesh) (org device : Id) : Except Refusal Mesh := do
  refuseIf (∀ d ∈ m.devices, d.id ≠ device ∨ d.organizationId ≠ org) .noSuchDevice
  let m ← (m.memberships.filter (·.deviceId = device)).foldlM (announceLeaving now) m
  pure (deleteDevice m device)

/-- `PublishPolicy`: stand every policy of the network down and raise a new one. -/
def publishPolicy (now : Time) (m : Mesh) (n : Id) (doc : Acl.Document) : Except Refusal Mesh :=
  match doc.validate with
  | .error fault => .error (.policy fault)
  | .ok () =>
    let version := ((m.aclPolicies.filter (·.networkId = n)).map AclPolicy.version).foldl max 0 + 1
    let policies := m.aclPolicies.map fun p =>
      if p.networkId = n then { p with isActive := false } else p
    bumpVersion now
      { m with
        aclPolicies := policies ++
          [{ id := m.nextId, networkId := n, version, document := doc, isActive := true }]
        nextId := m.nextId + 1 }
      n [policyChanged]

def FailoverPolicy.validate (p : FailoverPolicy) : Except Refusal Unit := do
  refuseIf
    (0 < p.failThreshold ∧ 0 < p.recoverThreshold ∧ p.recoverThreshold < p.failThreshold)
    (.invalid ("recover_threshold " ++ toString p.recoverThreshold ++ " is below fail_threshold " ++
      toString p.failThreshold ++ ", so a device would return " ++
      "to a failing advertiser faster than it left it"))
  refuseIf (1000 < p.failThreshold ∨ 1000 < p.recoverThreshold)
    (.invalid "probe thresholds must be at most 1000")
  refuseIf (24 * 60 * 60 < p.minHoldSeconds) (.invalid "min_hold_seconds must be at most 86400")
  refuseIf (8 < p.probeTargets.length)
    (.invalid ("at most 8 probe targets; every device carrying this group " ++
      "dials all of them on every round"))
  refuseIf (p.probeTargets.any fun s => (Netip.parseAddrPort s).all (·.2 = 0))
    (.invalid ("a probe target must be a literal address and port, " ++
      "because resolving a name needs the DNS that fails with the gateway"))
  refuseIf (p.probeTargets.length < p.probeQuorum)
    (.invalid ("probe_quorum " ++ toString p.probeQuorum ++ " cannot be met by " ++
      toString p.probeTargets.length ++ " targets"))
  refuseIf
    (p.probeIntervalMs ≠ 0 ∧ (p.probeIntervalMs < 1000 ∨ 24 * 60 * 60 * 1000 < p.probeIntervalMs))
    (.invalid "probe_interval_ms must be between 1000 and 86400000, or zero for every pass")

/-- `validateKind` of a group that carries prefixes of its own. -/
def carrying (kind : RouteGroupKind) (word : String) (prefixes : List Prefix) :
    Except Refusal RouteGroupKind :=
  match prefixes.find? (·.bits = 0) with
  | some p =>
    .error (.invalid (p.text ++
      " is the default route; advertise it as an egress group rather than a " ++ word ++ " one"))
  | none =>
    if prefixes = [] then
      .error (.invalid ("a " ++ word ++ " group needs at least one prefix to carry"))
    else .ok kind

/-- `validateKind`: a group's kind, if its prefixes are what that kind carries. -/
def validateKind (kind : String) (prefixes : List Prefix) : Except Refusal RouteGroupKind :=
  match kind with
  | "egress" =>
    if prefixes ≠ [] then
      .error (.invalid
        "an egress group carries the default route and takes no prefixes of its own")
    else .ok .egress
  | "subnet" => carrying .subnet kind prefixes
  | "service" => carrying .service kind prefixes
  | _ => .error (.invalid (quote kind ++ " is not one of egress, subnet, service"))

def selectionModeOf : String → Except Refusal SelectionMode
  | "" => .ok .failover
  | "failover" => .ok .failover
  | "pinned" => .ok .pinned
  | _ => .error (.constraint "route_groups_selection_mode_check")

structure CreateRouteGroupRequest where
  networkId : Id
  slug : String
  name : String
  kind : String
  prefixes : List Prefix
  selectionMode : String := ""
  stableEgressIp : Option Addr := none
  failover : FailoverPolicy := {}

def groupPrefixes (id : Id) (prefixes : List Prefix) : List RouteGroupPrefix :=
  (prefixes.map Prefix.masked).dedup.map fun p => ⟨id, p⟩

def createRouteGroup (now : Time) (m : Mesh) (req : CreateRouteGroupRequest) :
    Except Refusal Mesh := do
  refuseIf (!slugOk req.slug) (badSlug "route group" req.slug)
  let kind ← validateKind req.kind req.prefixes
  req.failover.validate
  let mode ← selectionModeOf req.selectionMode
  refuseIf (∃ g ∈ m.routeGroups, g.networkId = req.networkId ∧ g.slug = req.slug)
    (.constraint "route_groups_network_id_slug_key")
  bumpRoutesEverywhere now
    { m with
      routeGroups := m.routeGroups ++
        [{ id := m.nextId, networkId := req.networkId, slug := req.slug,
           name := orSlug req.name req.slug, kind, selectionMode := mode,
           stableEgressIp := req.stableEgressIp, localFailover := req.failover }]
      routeGroupPrefixes := m.routeGroupPrefixes ++ groupPrefixes m.nextId req.prefixes
      nextId := m.nextId + 1 }
    req.networkId

/-- `GetRouteGroupBySlug`. -/
def routeGroupBySlug (t : Tables) (n : Id) (slug : String) : Except Refusal RouteGroup :=
  match t.routeGroups.find? fun g => g.networkId = n ∧ g.slug = slug with
  | some g => .ok g
  | none => .error .noSuchRouteGroup

structure AdvertiseRequest where
  networkId : Id
  groupSlug : String
  membershipId : Id
  priority : Int := 0
  weight : Int := 0
  adminState : String := ""
  region : String := ""
  city : String := ""

def adminStateOf : String → Except Refusal AdminState
  | "" => .ok .enabled
  | "enabled" => .ok .enabled
  | "draining" => .ok .draining
  | "disabled" => .ok .disabled
  | state => .error (.invalid ("admin state " ++ quote state ++
      " is not enabled, draining or disabled"))

/-- The row `UpsertRouteAdvertiser` writes. A weight that is not positive is the default one. -/
def advertiserRow (group : Id) (req : AdvertiseRequest) (admin : AdminState) (id : Id) :
    RouteAdvertiser :=
  { id, routeGroupId := group, membershipId := req.membershipId, priority := req.priority,
    weight := if req.weight ≤ 0 then 100 else req.weight.toNat, adminState := admin,
    region := req.region, city := req.city }

/-- `UpsertRouteAdvertiser`: re-advertising edits the row that is there. -/
def upsertAdvertiser (t : Tables) (group : Id) (req : AdvertiseRequest) (admin : AdminState) :
    Tables :=
  if ∃ a ∈ t.routeAdvertisers, a.routeGroupId = group ∧ a.membershipId = req.membershipId then
    { t with routeAdvertisers := t.routeAdvertisers.map fun a =>
        if a.routeGroupId = group ∧ a.membershipId = req.membershipId then
          advertiserRow group req admin a.id
        else a }
  else
    { t with
      routeAdvertisers := t.routeAdvertisers ++ [advertiserRow group req admin t.nextId]
      nextId := t.nextId + 1 }

/-- `Advertise`: a device may carry a group's prefixes. Which network the membership is in is not
asked. -/
def advertise (now : Time) (m : Mesh) (req : AdvertiseRequest) : Except Refusal Mesh := do
  let admin ← adminStateOf req.adminState
  let group ← routeGroupBySlug m.toTables req.networkId req.groupSlug
  refuseIf (∀ x ∈ m.memberships, x.id ≠ req.membershipId)
    (.constraint "route_advertisers_membership_id_fkey")
  bumpRoutesEverywhere now
    { m with toTables := upsertAdvertiser m.toTables group.id req admin } req.networkId

def deleteAdvertisers (t : Tables) (gone : RouteAdvertiser → Bool) : Tables :=
  let ids := (t.routeAdvertisers.filter gone).map RouteAdvertiser.id
  { t with
    routeAdvertisers := t.routeAdvertisers.filter fun a => !gone a
    advertiserHealth := t.advertiserHealth.filter fun h => !ids.contains h.advertiserId }

def withdraw (now : Time) (m : Mesh) (n : Id) (slug : String) (membership : Id) :
    Except Refusal Mesh := do
  let group ← routeGroupBySlug m.toTables n slug
  let gone (a : RouteAdvertiser) : Bool := a.routeGroupId = group.id ∧ a.membershipId = membership
  refuseIf (!m.routeAdvertisers.any gone) .noSuchRouteGroup
  bumpRoutesEverywhere now { m with toTables := deleteAdvertisers m.toTables gone } n

def deleteGroups (t : Tables) (ids : List Id) : Tables :=
  { deleteAdvertisers t (ids.contains ·.routeGroupId) with
    routeGroups := t.routeGroups.filter fun g => !ids.contains g.id
    routeGroupPrefixes := t.routeGroupPrefixes.filter fun p => !ids.contains p.routeGroupId }

/-- `DeleteRouteGroup`: each group that goes is named on the way out. -/
def deleteRouteGroup (now : Time) (m : Mesh) (n : Id) (slug : String) : Except Refusal Mesh := do
  let ids := (m.routeGroups.filter fun g => g.networkId = n ∧ g.slug = slug).map RouteGroup.id
  refuseIf (ids = []) .noSuchRouteGroup
  let m ← bumpVersion now { m with toTables := deleteGroups m.toTables ids } n
    (routesChanged :: ids.map routeGroupRemoved)
  bumpRoutesForSharedNetworks now m n

/-- `SetRouteGroupFailover`: the policy is replaced whole. -/
def setRouteGroupFailover (now : Time) (m : Mesh) (n : Id) (slug : String)
    (policy : FailoverPolicy) : Except Refusal Mesh := do
  policy.validate
  let _ ← routeGroupBySlug m.toTables n slug
  bumpRoutesEverywhere now
    { m with routeGroups := m.routeGroups.map fun g =>
        if g.networkId = n ∧ g.slug = slug then { g with localFailover := policy } else g }
    n

/-- `SetEgressFailClosed`: writing the value that is there bumps nothing. -/
def setEgressFailClosed (now : Time) (m : Mesh) (n : Id) (enforced : Bool) : Except Refusal Mesh :=
  match m.network? n with
  | none => .error .noSuchNetwork
  | some r =>
    if r.deletedAt ≠ none then .error .noSuchNetwork
    else if r.egressFailClosed = enforced then .ok m
    else bumpVersion now (m.setNetwork n fun r => { r with egressFailClosed := enforced }) n
      [tunnelChanged]

structure CreateDNSRecordRequest where
  networkId : Id
  name : String
  type : String
  value : String
  ttl : Int := 0

def recordOf (type value : String) : Except Refusal (RecordType × Addr) :=
  match Text.toUpper (trimSpace type), Netip.parseAddr (trimSpace value) with
  | "A", some (.v4 a) => .ok (.a, .v4 a)
  | "AAAA", some (.v6 a) => .ok (.aaaa, .v6 a)
  | "A", some (.v6 _) =>
    .error (.invalid ("an A record needs an IPv4 address, and " ++ quote value ++
      " is not one"))
  | "AAAA", some (.v4 _) =>
    .error (.invalid ("an AAAA record needs an IPv6 address, and " ++ quote value ++
      " is not one"))
  | "A", none => .error (.invalid (quote value ++ " is not an IP address"))
  | "AAAA", none => .error (.invalid (quote value ++ " is not an IP address"))
  | _, _ =>
    .error (.invalid (quote type ++
      " is not a record type this serves: A and AAAA are, and CNAME is not yet"))

/-- `CreateDNSRecord`: a name no device in the network answers to. -/
def createDNSRecord (now : Time) (m : Mesh) (req : CreateDNSRecordRequest) :
    Except Refusal Mesh := do
  let name := Text.toLower (trimSpace req.name)
  refuseIf (!Dns.validLabel name)
    (.invalid (quote req.name ++ " is not a DNS label: use letters, digits and hyphens"))
  let (type, addr) ← recordOf req.type req.value
  refuseIf
    (∃ x ∈ m.memberships, x.networkId = req.networkId ∧ x.dnsLabel = name ∧ x.state = .active)
    (.invalid ("a device in this network already answers to " ++ quote name ++
      "; pick another name or rename the device"))
  refuseIf
    (∃ r ∈ m.dnsRecords, r.networkId = req.networkId ∧ r.name = name ∧ r.type = type ∧
      r.value = addr.text)
    .recordExists
  bumpVersion now
    { m with
      dnsRecords := m.dnsRecords ++
        [{ id := m.nextId, networkId := req.networkId, name, type, value := addr.text,
           ttl := if req.ttl ≤ 0 then 60 else req.ttl.toNat }]
      nextId := m.nextId + 1 }
    req.networkId [dnsRecordsChanged]

/-- `DeleteDNSRecord`, scoped to the network. -/
def deleteDNSRecord (now : Time) (m : Mesh) (n id : Id) : Except Refusal Mesh := do
  refuseIf (∀ r ∈ m.dnsRecords, r.id ≠ id ∨ r.networkId ≠ n) .noSuchRecord
  bumpVersion now
    { m with dnsRecords := m.dnsRecords.filter fun r => r.id ≠ id ∨ r.networkId ≠ n }
    n [dnsRecordsChanged]

def healthOf (t : Tables) (advertiser : Id) : HealthState :=
  ((t.advertiserHealth.find? (·.advertiserId = advertiser)).map AdvertiserHealth.state).getD .unknown

/-- `UpsertAdvertiserHealth`. -/
def putHealth (t : Tables) (advertiser : Id) (state : HealthState) : Tables :=
  { t with advertiserHealth :=
      ⟨advertiser, state⟩ :: t.advertiserHealth.filter (·.advertiserId ≠ advertiser) }

/-- `ObserveAdvertiser`, given what the monitor concludes. The version moves only when the state
did. -/
def observeAdvertiser (now : Time) (m : Mesh) (n advertiser : Id) (concluded : HealthState) :
    Except Refusal Mesh :=
  match m.routeAdvertisers.find? (·.id = advertiser) with
  | none => .error .noSuchAdvertiser
  | some a =>
    if m.routeGroups.all fun g => g.id ≠ a.routeGroupId ∨ g.networkId ≠ n then
      .error .noSuchAdvertiser
    else
      let m' := { m with toTables := putHealth m.toTables advertiser concluded }
      if healthOf m.toTables advertiser = concluded then .ok m'
      else bumpVersion now m' n [routesChanged]

def prunable (n : Id) (olderThan : Time) (r : StateChange) : Bool :=
  r.networkId = n ∧ r.createdAt < olderThan

/-- `pruneNetwork`: drop the changes recorded before a cutoff, and raise the delta floor to the
highest version among them. -/
def pruneNetwork (m : Mesh) (n : Id) (olderThan : Time) : Mesh :=
  match (m.stateChanges.filter (prunable n olderThan)).map StateChange.version with
  | [] => m
  | versions =>
    { m.setNetwork n fun r =>
        { r with oldestDeltaVersion := max r.oldestDeltaVersion (versions.foldl max 0) } with
      stateChanges := m.stateChanges.filter fun r => !prunable n olderThan r }

end Meshp.Store
