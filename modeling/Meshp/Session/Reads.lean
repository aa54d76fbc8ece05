import Meshp.Base.Statements
import Meshp.Session.PeerDelta

/-!
# A State Is Built in Separate Reads

`For` is not a transaction. The membership and the head, the delta floor, how many
changes there are, the peers, the changes themselves and each peer they name are
so many statements, and the database answers each from what has been committed by
then. Here is the build with its statements told apart.
-/

namespace Meshp.Session

open Base (Statements)
open Base.Statements (atOnce_bind atOnce_query each query)
open Store

/-- An order in which a walk over a map visits its keys: any that visits each of them once. -/
structure Walk where
  visit : List Id → List Id
  perm : ∀ ids, (visit ids).Perm ids

def Walk.inOrder : Walk :=
  ⟨id, fun _ => .refl _⟩

/-- `filterFor`: the policy is one read and the devices it resolves against another. -/
def filterReads (x : Membership) : Statements Mesh (Except Failure (Option Wire.PacketFilter)) := do
  match ← query fun m => activeDocument m.toTables x.networkId with
  | .error e => pure (.error e)
  | .ok none => pure (.ok none)
  | .ok (some doc) => query fun m => (compileFor m.toTables x doc).map some

/-- `snapshotFromPeers`. The route groups are taken as one read: nothing in them is about a peer. -/
def snapshotReads (b : Builder) (row : SessionRow) (peers : List LiveRow) :
    Statements Mesh (Except Failure Wire.StateDelta) := do
  let relays := b.relayConfig
  let dns ← query fun m => dnsConfig m.toTables row
  match ← filterReads row.membership with
  | .error e => pure (.error e)
  | .ok filter =>
    let routes ← query fun m => routeGroupsFor b m.toTables row.membership
    pure (.ok
      { fromVersion := 0
        toVersion := row.network.stateVersion
        upsertPeers := peers.map (peerFrom relays)
        tunnel := some (tunnelConfig relays row)
        dns := some dns
        relays
        filter
        routeGroups := routes.assigned
        removedRouteGroupIds := routes.withdrawn
        advertised := routes.advertised })

def deltaFrom (relays : Option Wire.RelayConfig) (row : SessionRow) (fromVersion : Nat)
    (changes : List ChangeKind) (dns : Wire.DnsConfig) (upserts : List LiveRow)
    (routes : RouteAnswer) (filter : Option Wire.PacketFilter) : Wire.StateDelta :=
  { fromVersion
    toVersion := row.network.stateVersion
    relays
    tunnel := some (tunnelConfig relays row)
    dns := some dns
    upsertPeers := (upserts.map (peerFrom relays)).insertionSort (·.publicKey ≤ ·.publicKey)
    removePeerKeys := ((removedKeys changes).filter fun key =>
      !(upserts.map (·.key.publicKey)).contains key).insertionSort (· ≤ ·)
    routeGroups := routes.assigned
    removedRouteGroupIds := if routesMoved changes then withdrawals routes changes else []
    advertised := routes.advertised
    filter }

def routeReads (b : Builder) (x : Membership) (changes : List ChangeKind) :
    Statements Mesh RouteAnswer :=
  if routesMoved changes then query fun m => routeGroupsFor b m.toTables x else pure {}

def filterChangeReads (x : Membership) (changes : List ChangeKind) :
    Statements Mesh (Except Failure (Option Wire.PacketFilter)) :=
  if .policy ∈ changes then filterReads x else pure (.ok none)

/-- The rest of `delta`, once the changes have been read. Each peer that was upserted is looked up
on its own, in the order the map is walked in. -/
def windowReads (b : Builder) (walk : Walk) (row : SessionRow) (fromVersion : Nat)
    (changes : List ChangeKind) : Statements Mesh (Except Failure Wire.StateDelta) := do
  let dns ← query fun m => dnsConfig m.toTables row
  let found ← each (fun id (m : Mesh) => peerOf m.toTables id)
    (walk.visit (upsertedIds row.membership.id changes))
  let routes ← routeReads b row.membership changes
  match ← filterChangeReads row.membership changes with
  | .error e => pure (.error e)
  | .ok filter =>
    pure (.ok (deltaFrom b.relayConfig row fromVersion changes dns found.reduceOption routes
      filter))

/-- `delta`. -/
def deltaReads (b : Builder) (walk : Walk) (row : SessionRow) (fromVersion : Nat) :
    Statements Mesh (Except Failure Wire.StateDelta) := do
  let changes ← query fun m =>
    changesSince m row.membership.networkId fromVersion row.network.stateVersion
  windowReads b walk row fromVersion changes

/-- The rest of `For`, when the agent is behind the head and within the window of the floor that was
read. -/
def changeReads (b : Builder) (walk : Walk) (row : SessionRow) (fromVersion : Nat) :
    Statements Mesh (Except Failure Wire.StateDelta) := do
  let head := row.network.stateVersion
  let changes ← query fun m => (changesSince m row.membership.networkId fromVersion head).length
  if changes = 0 then pure (.ok { fromVersion, toVersion := head })
  else
    let peers ← query fun m => peersOf m.toTables row.membership.networkId row.membership.id
    if peers.length < changes then snapshotReads b row peers
    else deltaReads b walk row fromVersion

/-- The rules `For` chooses by, given the floor that was read. -/
def answerReads (b : Builder) (walk : Walk) (row : SessionRow) (fromVersion floor : Nat) :
    Statements Mesh (Except Failure Wire.StateDelta) :=
  if fromVersion = 0 ∨ row.network.stateVersion < fromVersion ∨ fromVersion < floor then do
    let peers ← query fun m => peersOf m.toTables row.membership.networkId row.membership.id
    snapshotReads b row peers
  else if fromVersion = row.network.stateVersion then
    pure (.ok
      { fromVersion, toVersion := row.network.stateVersion, relays := b.relayConfig })
  else changeReads b walk row fromVersion

/-- `For`, statement by statement. -/
def Builder.forReads (b : Builder) (walk : Walk) (id : Id) (fromVersion : Nat) :
    Statements Mesh (Except Failure Wire.StateDelta) := do
  match ← query fun m => sessionRow m id with
  | .error e => pure (.error e)
  | .ok row =>
    let floor ← query fun m => m.floor row.membership.networkId
    answerReads b walk row fromVersion floor

section AtOnce

variable (b : Builder) (m : Mesh) (row : SessionRow) (F : Nat)

variable (x : Membership) (changes : List ChangeKind)

theorem atOnce_filterReads :
    (filterReads x).atOnce m = filterFor m.toTables x := by
  unfold filterReads filterFor
  rw [atOnce_bind, atOnce_query]
  cases activeDocument m.toTables x.networkId with
  | error e => rfl
  | ok policy =>
    cases policy with
    | none => rfl
    | some doc => rfl

theorem atOnce_snapshotReads (peers : List LiveRow) :
    (snapshotReads b row peers).atOnce m = snapshotFromPeers b m.toTables row peers := by
  unfold snapshotReads snapshotFromPeers
  simp only [atOnce_bind, atOnce_query, atOnce_filterReads]
  cases filterFor m.toTables row.membership with
  | error e => rfl
  | ok filter => rfl

theorem atOnce_routeReads :
    (routeReads b x changes).atOnce m =
      if routesMoved changes then routeGroupsFor b m.toTables x else {} := by
  unfold routeReads
  split
  · rfl
  · rfl

theorem atOnce_filterChangeReads :
    (filterChangeReads x changes).atOnce m = filterChange m.toTables x changes := by
  unfold filterChangeReads filterChange
  split
  · exact atOnce_filterReads m x
  · rfl

theorem atOnce_windowReads (walk : Walk) (changes : List ChangeKind) :
    (windowReads b walk row F changes).atOnce m =
      (filterChange m.toTables row.membership changes).map fun filter =>
        deltaFrom b.relayConfig row F changes (dnsConfig m.toTables row)
          ((walk.visit (upsertedIds row.membership.id changes)).filterMap (peerOf m.toTables))
          (if routesMoved changes then routeGroupsFor b m.toTables row.membership else {})
          filter := by
  unfold windowReads
  simp only [atOnce_bind, atOnce_query, Statements.atOnce_each,
    atOnce_routeReads, atOnce_filterChangeReads, List.reduceOption, List.filterMap_map]
  cases filterChange m.toTables row.membership changes with
  | error e => rfl
  | ok filter => rfl

theorem atOnce_deltaReads : (deltaReads b .inOrder row F).atOnce m = delta b m row F := by
  unfold deltaReads
  rw [atOnce_bind, atOnce_query, atOnce_windowReads]
  simp only [delta]
  cases filterChange m.toTables row.membership
      (changesSince m row.membership.networkId F row.network.stateVersion) with
  | error e => rfl
  | ok filter => rfl

theorem atOnce_changeReads : (changeReads b .inOrder row F).atOnce m = changeFrom b m row F := by
  unfold changeReads changeFrom
  rw [atOnce_bind, atOnce_query]
  simp only
  split
  · rfl
  · rw [atOnce_bind, atOnce_query]
    split
    · exact atOnce_snapshotReads b m row _
    · exact atOnce_deltaReads b m row F

theorem atOnce_forReads (id : Id) : (b.forReads .inOrder id F).atOnce m = b.for m id F := by
  unfold Builder.forReads Builder.for
  rw [atOnce_bind, atOnce_query]
  cases hrow : sessionRow m id with
  | error e => rfl
  | ok row =>
    have hfloor := (sessionRow_ok hrow).2.2.2
    simp only [atOnce_bind, atOnce_query, ← hfloor]
    change _ = answer b m row F
    unfold answerReads answer
    split
    · exact atOnce_snapshotReads b m row _
    split
    · rfl
    · exact atOnce_changeReads b m row F

end AtOnce

def peerTable (b : Builder) (t : Tables) (n self : Id) : Finmap fun _ : String => Wire.Peer :=
  Base.insertAll Wire.Peer.publicKey ∅ ((peersOf t n self).map (peerFrom b.relayConfig))

theorem SnapshotOf.peers {b : Builder} {t : Tables} {x : Membership} {d : Wire.StateDelta}
    (h : SnapshotOf b t x d) (held : Peerset.Set) :
    (held.apply d).peers = peerTable b t x.networkId x.id := by
  rw [Peerset.peers_apply_snapshot h.fromVersion h.removePeerKeys, h.upsertPeers]
  rfl

/-- What an answer to `F` may be, in terms of the mesh whose version it is labelled with: the
snapshot, or, from a version the log goes back to, silence about a log that is silent or the delta
of the window. -/
structure Answered (b : Builder) (m : Mesh) (x : Membership) (F : Nat) (d : Wire.StateDelta) :
    Prop where
  toVersion : d.toVersion = m.version x.networkId
  answer : SnapshotOf b m.toTables x d ∨
    (F ≠ 0 ∧ F ≤ m.version x.networkId ∧ m.floor x.networkId ≤ F ∧
      (Silent F d ∧ (∀ k, ¬m.Logged x.networkId F k) ∨ DeltaOf b m x F d))

theorem Answered.fold {b : Builder} {m : Mesh} {x : Membership} {F : Nat} {d : Wire.StateDelta}
    (h : Answered b m x F d) (hinv : m.Inv) {held : Peerset.Set}
    (hheld : F ≠ 0 → F ≤ m.version x.networkId → m.floor x.networkId ≤ F →
      ∃ m₁ : Mesh, m₁.Inv ∧ PeersExplained m₁ m x.networkId F ∧
        held.peers = peerTable b m₁.toTables x.networkId x.id) :
    (held.apply d).peers = peerTable b m.toTables x.networkId x.id := by
  rcases h.answer with hsnap | ⟨hF, hle, hfloor, hanswer⟩
  · exact hsnap.peers held
  · rcases hheld hF hle hfloor with ⟨m₁, hinv₁, hex, hpeers⟩
    rcases hanswer with ⟨hsilent, hnone⟩ | hdelta
    · rw [Peerset.peers_apply (by rw [hsilent.fromVersion]; exact hF), hsilent.upsertPeers,
        hsilent.removePeerKeys, hpeers]
      exact silent_peers hinv₁ hinv hex hnone
    · rw [Peerset.peers_apply (by rw [hdelta.fromVersion]; exact hF), hpeers]
      exact delta_peers hinv₁ hinv hex hdelta

end Meshp.Session
