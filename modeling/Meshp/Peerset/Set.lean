import Meshp.Base.Delta
import Meshp.Wire.State

/-!
# The State an Agent Holds

What a device has been told, and how it folds in what it is told next. A
snapshot replaces everything; a delta removes before it writes, and leaves alone
whatever it does not mention. Absent is unchanged, so a delta has no way of
saying that something is gone other than by naming it.
-/

namespace Meshp.Peerset

open Base (insertAll eraseAll)
open Wire.RouteGroupAssignment (routeGroupId)

/-- The peers a device knows about, keyed by public key, with the rest of its desired state. -/
structure Set where
  peers : Finmap fun _ : String => Wire.Peer := ∅
  version : Nat := 0
  tunnel : Option Wire.TunnelConfig := none
  relays : Option Wire.RelayConfig := none
  filter : Option Wire.PacketFilter := none
  dns : Option Wire.DnsConfig := none
  routeGroups : Finmap fun _ : String => Wire.RouteGroupAssignment := ∅
  advertised : Option Wire.AdvertisedRoutes := none

def Set.clear (s : Set) : Set :=
  { version := s.version, tunnel := s.tunnel }

/-- `Apply`: fold a delta into the set. A snapshot, from version zero, replaces what is there. -/
def Set.apply (s : Set) (d : Wire.StateDelta) : Set :=
  let s := if d.fromVersion = 0 then s.clear else s
  { peers := insertAll Wire.Peer.publicKey (eraseAll s.peers d.removePeerKeys) d.upsertPeers
    version := d.toVersion
    tunnel := d.tunnel <|> s.tunnel
    relays := d.relays <|> s.relays
    filter := d.filter <|> s.filter
    dns := d.dns <|> s.dns
    routeGroups := insertAll routeGroupId
      (eraseAll s.routeGroups d.removedRouteGroupIds) d.routeGroups
    advertised := d.advertised <|> s.advertised }

variable {s : Set} {d : Wire.StateDelta}

theorem apply_snapshot (s' : Set) (h : d.fromVersion = 0) :
    (s.apply d).peers = (s'.apply d).peers ∧ (s.apply d).filter = (s'.apply d).filter ∧
      (s.apply d).routeGroups = (s'.apply d).routeGroups ∧
      (s.apply d).advertised = (s'.apply d).advertised := by
  unfold Set.apply
  simp only [h, if_true]
  exact ⟨rfl, rfl, rfl, rfl⟩

theorem peers_apply_snapshot (h : d.fromVersion = 0) (hrem : d.removePeerKeys = []) :
    (s.apply d).peers = insertAll Wire.Peer.publicKey ∅ d.upsertPeers := by
  unfold Set.apply
  simp only [h, if_true, hrem]
  rfl

theorem filter_apply_snapshot (h : d.fromVersion = 0) : (s.apply d).filter = d.filter := by
  unfold Set.apply
  simp only [h, if_true]
  cases d.filter <;> rfl

theorem routeGroups_apply_snapshot (h : d.fromVersion = 0) : (s.apply d).routeGroups =
    insertAll routeGroupId ∅ d.routeGroups := by
  unfold Set.apply
  simp only [h, if_true, Set.clear]
  rw [Base.eraseAll_empty]

theorem advertised_apply_snapshot (h : d.fromVersion = 0) :
    (s.apply d).advertised = d.advertised := by
  unfold Set.apply
  simp only [h, if_true]
  cases d.advertised <;> rfl

theorem peers_apply (h : d.fromVersion ≠ 0) : (s.apply d).peers =
    insertAll Wire.Peer.publicKey (eraseAll s.peers d.removePeerKeys) d.upsertPeers := by
  unfold Set.apply
  simp only [h, if_false]

theorem filter_apply (h : d.fromVersion ≠ 0) : (s.apply d).filter = (d.filter <|> s.filter) := by
  unfold Set.apply
  simp only [h, if_false]

theorem routeGroups_apply (h : d.fromVersion ≠ 0) : (s.apply d).routeGroups =
    insertAll routeGroupId
      (eraseAll s.routeGroups d.removedRouteGroupIds) d.routeGroups := by
  unfold Set.apply
  simp only [h, if_false]

theorem advertised_apply (h : d.fromVersion ≠ 0) :
    (s.apply d).advertised = (d.advertised <|> s.advertised) := by
  unfold Set.apply
  simp only [h, if_false]

/-- `Equal`. Versions are not compared. -/
def Set.Equal (s t : Set) : Prop :=
  s.peers.keys.card = t.peers.keys.card ∧ s.tunnel = t.tunnel ∧ s.relays = t.relays ∧
    s.dns = t.dns ∧ s.filter = t.filter ∧ s.advertised = t.advertised ∧
    s.routeGroups.keys.card = t.routeGroups.keys.card ∧
    (∀ id ∈ s.routeGroups.keys, t.routeGroups.lookup id = s.routeGroups.lookup id) ∧
    ∀ key ∈ s.peers.keys, t.peers.lookup key = s.peers.lookup key

instance decidableEqual (s t : Set) : Decidable (s.Equal t) :=
  inferInstanceAs (Decidable (_ ∧ _))

def Set.rest (s : Set) : Set :=
  { s with tunnel := none, version := 0 }

theorem rest_apply {t : Set} (d : Wire.StateDelta) (h : d.fromVersion = 0 ∨ s.rest = t.rest) :
    (s.apply d).rest = (t.apply d).rest := by
  by_cases hsnapshot : d.fromVersion = 0
  · simp only [Set.apply, Set.rest, Set.clear, if_pos hsnapshot]
  · have hrest := h.resolve_left hsnapshot
    simp only [Set.rest, Set.mk.injEq] at hrest
    simp only [Set.apply, Set.rest, if_neg hsnapshot, hrest]

theorem tunnel_apply (s : Set) (d : Wire.StateDelta) :
    (s.apply d).tunnel = (d.tunnel <|> s.tunnel) := by
  unfold Set.apply
  split <;> rfl

theorem equal_iff {t : Set} (h : s.rest = t.rest) : s.Equal t ↔ s.tunnel = t.tunnel := by
  simp only [Set.rest, Set.mk.injEq] at h
  simp [Set.Equal, h]

theorem equal_foldl_iff {t : Set} (h : s.rest = t.rest) (ds : List Wire.StateDelta) :
    (ds.foldl Set.apply s).Equal (ds.foldl Set.apply t) ↔
      s.tunnel = t.tunnel ∨ ∃ d ∈ ds, d.tunnel ≠ none := by
  induction ds generalizing s t with
  | nil => simpa using equal_iff h
  | cons d ds ih =>
    rw [List.foldl_cons, List.foldl_cons, ih (rest_apply d (.inr h)), tunnel_apply, tunnel_apply]
    cases hd : d.tunnel with
    | none => simp [hd]
    | some c => simp [hd]

/-- After a snapshot and any deltas two sets are equal exactly if they had the same tunnel
configuration, or one of the deltas brings one: a snapshot does not clear it. -/
theorem equal_after_snapshot_iff (s t : Set) (d : Wire.StateDelta) (hd : d.fromVersion = 0)
    (ds : List Wire.StateDelta) :
    ((d :: ds).foldl Set.apply s).Equal ((d :: ds).foldl Set.apply t) ↔
      s.tunnel = t.tunnel ∨ ∃ δ ∈ d :: ds, δ.tunnel ≠ none := by
  rw [List.foldl_cons, List.foldl_cons, equal_foldl_iff (rest_apply d (.inl hd)), tunnel_apply,
    tunnel_apply]
  cases htunnel : d.tunnel with
  | none => simp [htunnel]
  | some c => simp [htunnel]

theorem equal_after_snapshot_configured :
    let d : Wire.StateDelta := { fromVersion := 0, toVersion := 3, tunnel := some ⟨1280, .disabled⟩ }
    ((({ tunnel := some ⟨1420, .enforced⟩ } : Set).apply d).apply
        { fromVersion := 3, toVersion := 4 }).Equal
      ((({} : Set).apply d).apply { fromVersion := 3, toVersion := 4 }) := by
  intro d
  have hiff := equal_after_snapshot_iff { tunnel := some ⟨1420, .enforced⟩ } {} d rfl
    [{ fromVersion := 3, toVersion := 4 }]
  exact hiff.2 (.inr ⟨d, .head _, nofun⟩)

/-- The configuration of a tunnel outlives a snapshot that has none. -/
theorem tunnel_outlives_snapshot :
    ¬(({ tunnel := some ⟨1420, .enforced⟩ } : Set).apply { fromVersion := 0, toVersion := 3 }).Equal
      (({} : Set).apply { fromVersion := 0, toVersion := 3 }) := by
  decide

end Meshp.Peerset
