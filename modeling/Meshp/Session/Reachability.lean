import Meshp.Health.Monitor
import Meshp.Routes.Order
import Meshp.Session.Builder
import Meshp.Store.Invariant

/-!
# What the Control Plane Makes of a Report

A device reports whether it reaches the advertiser it uses. One transaction folds
the verdict into the advertiser's health, writes down that the device uses it, and
moves the network's version if the health became another. Beside the mesh there
are the counters of the health rows and the table of who uses what.
-/

namespace Meshp.Session

open Base (run attempt refuseIf)
open Store (HealthState Id Mesh Refusal RouteAdvertiser Stamped Tables apply healthOf inv_apply
  joining putHealth trusting)

/-- A row of `route_assignments`: what a device says it uses. -/
structure RouteAssignment where
  membershipId : Id
  routeGroupId : Id
  advertiserId : Option Id
  reason : String
  version : Nat := 1

structure Ledger where
  mesh : Mesh := {}
  counters : Id → Health.Snapshot := fun _ => {}
  assignments : List RouteAssignment := []

/-- `ObserveRequest`: a device's verdict on the advertiser it is using. -/
structure ObserveRequest where
  networkId : Id
  advertiserId : Id
  observed : Health.Signal
  membershipId : Option Id
  reason : String := ""

/-- `GetAdvertiserHealth`, with a monitor that knows nothing where there is no row. -/
def Ledger.held (w : Ledger) (advertiser : Id) : Health.Snapshot :=
  match w.mesh.advertiserHealth.find? (·.advertiserId = advertiser) with
  | none => {}
  | some row => { w.counters advertiser with state := row.state }

/-- `UpsertRouteAssignment`: a choice that is the same as last time writes nothing. -/
def upsertRouteAssignment (rows : List RouteAssignment) (membership group advertiser : Id)
    (reason : String) : List RouteAssignment :=
  if ∃ r ∈ rows, r.membershipId = membership ∧ r.routeGroupId = group then
    rows.map fun r =>
      if r.membershipId = membership ∧ r.routeGroupId = group ∧ r.advertiserId ≠ some advertiser then
        { r with advertiserId := some advertiser, reason, version := r.version + 1 }
      else r
  else
    rows ++ [{ membershipId := membership, routeGroupId := group, advertiserId := some advertiser
               reason }]

def recordAssignment (w : Ledger) (group : Id) (req : ObserveRequest) :
    Except Refusal (List RouteAssignment) :=
  match req.membershipId with
  | none => .ok w.assignments
  | some x => do
    refuseIf (∀ y ∈ w.mesh.memberships, y.id ≠ x)
      (.constraint "route_assignments_membership_id_fkey")
    pure (upsertRouteAssignment w.assignments x group req.advertiserId req.reason)

def bumpIf (changed : Bool) (now : Store.Time) (m : Mesh) (n : Id) : Except Refusal Mesh :=
  if changed then Store.bumpVersion now m n [Store.routesChanged] else .ok m

/-- `ObserveAdvertiser` after it read `held` of the health row: the whole snapshot is written back,
and the version moves only when the state did. -/
def observeFrom (now : Health.Time) (held : Health.Snapshot) (w : Ledger) (req : ObserveRequest) :
    Except Refusal Ledger :=
  match w.mesh.routeAdvertisers.find? (·.id = req.advertiserId) with
  | none => .error .noSuchAdvertiser
  | some a =>
    if w.mesh.routeGroups.all fun g => g.id ≠ a.routeGroupId ∨ g.networkId ≠ req.networkId then
      .error .noSuchAdvertiser
    else do
      let out := Health.observe Health.defaultPolicy.withDefaults now held
        { clientObserved := req.observed }
      let stored := { w.mesh with
        toTables := putHealth w.mesh.toTables req.advertiserId out.1.state }
      let assignments ← recordAssignment w a.routeGroupId req
      let mesh ← bumpIf out.2.changed (now / 1000) stored req.networkId
      pure
        { mesh, assignments
          counters := Function.update w.counters req.advertiserId out.1 }

def observeAdvertiser (now : Health.Time) (w : Ledger) (req : ObserveRequest) :
    Except Refusal Ledger :=
  observeFrom now (w.held req.advertiserId) w req

/-- The rows of `route_assignments` that a deletion leaves: those of a membership and a group that
are still there, with an advertiser that is gone forgotten. -/
def cascade (t : Tables) (rows : List RouteAssignment) : List RouteAssignment :=
  (rows.filter fun r => (t.memberships.any (·.id = r.membershipId)) &&
    t.routeGroups.any (·.id = r.routeGroupId)).map fun r =>
      { r with advertiserId :=
          r.advertiserId.filter fun id => t.routeAdvertisers.any (·.id = id) }

inductive LedgerEvent
  | change (s : Stamped)
  | report (now : Health.Time) (req : ObserveRequest)

def Ledger.step (c : Enroll.Checks) (w : Ledger) : LedgerEvent → Ledger
  | .change s =>
    let mesh := apply c w.mesh s
    { w with mesh, assignments := cascade mesh.toTables w.assignments }
  | .report now req => attempt (observeAdvertiser now · req) w

def Ledger.recorded (w : Ledger) (membership group : Id) : Option Id :=
  (w.assignments.find? fun r => r.membershipId = membership ∧ r.routeGroupId = group).bind
    RouteAssignment.advertiserId

theorem held_state (w : Ledger) (advertiser : Id) :
    (w.held advertiser).state = healthOf w.mesh.toTables advertiser := by
  unfold Ledger.held healthOf
  cases w.mesh.advertiserHealth.find? (·.advertiserId = advertiser) with
  | none => rfl
  | some row => rfl

/-- What a monitor that knows `held` makes of a device's verdict. -/
def conclude (now : Health.Time) (held : Health.Snapshot) (observed : Health.Signal) :
    Health.Snapshot :=
  (Health.observe Health.defaultPolicy.withDefaults now held { clientObserved := observed }).1

theorem observeFrom_ok {now : Health.Time} {held : Health.Snapshot} {w w' : Ledger}
    {req : ObserveRequest} (h : observeFrom now held w req = .ok w') :
    (∃ a, w.mesh.routeAdvertisers.find? (·.id = req.advertiserId) = some a ∧
      ¬(w.mesh.routeGroups.all fun g =>
        g.id ≠ a.routeGroupId ∨ g.networkId ≠ req.networkId) = true) ∧
    bumpIf (Health.observe Health.defaultPolicy.withDefaults now held
        { clientObserved := req.observed }).2.changed (now / 1000)
      { w.mesh with
        toTables := putHealth w.mesh.toTables req.advertiserId
          (conclude now held req.observed).state } req.networkId = .ok w'.mesh ∧
    w'.counters =
      Function.update w.counters req.advertiserId (conclude now held req.observed) := by
  unfold observeFrom at h
  cases hfind : w.mesh.routeAdvertisers.find? (·.id = req.advertiserId) with
  | none =>
    rw [hfind] at h
    cases h
  | some a =>
    rw [hfind] at h
    simp only at h
    split at h
    · cases h
    · rename_i hgroup
      rcases Base.bind_eq_ok.1 h with ⟨assignments, _, h⟩
      rcases Base.bind_eq_ok.1 h with ⟨mesh, hmesh, h⟩
      cases h
      exact ⟨⟨a, rfl, hgroup⟩, hmesh, rfl⟩

theorem observeAdvertiser_ok {now : Health.Time} {w w' : Ledger} {req : ObserveRequest}
    (h : observeAdvertiser now w req = .ok w') :
    Store.observeAdvertiser (now / 1000) w.mesh req.networkId req.advertiserId
      (conclude now (w.held req.advertiserId) req.observed).state = .ok w'.mesh := by
  rcases observeFrom_ok h with ⟨⟨a, hfind, hgroup⟩, hmesh, _⟩
  have hchanged := Health.observe_changed_iff
    (Health.withDefaults_offlineAfter Health.defaultPolicy) now (w.held req.advertiserId)
    { clientObserved := req.observed }
  rw [held_state] at hchanged
  simp only [Store.observeAdvertiser, hfind]
  rw [if_neg hgroup]
  by_cases hsame : healthOf w.mesh.toTables req.advertiserId =
      (conclude now (w.held req.advertiserId) req.observed).state
  · rw [bumpIf, if_neg fun hc => hchanged.1 hc hsame.symm] at hmesh
    rw [if_pos hsame]
    exact hmesh
  · rw [bumpIf, if_pos (hchanged.2 fun h => hsame h.symm)] at hmesh
    rw [if_neg hsame]
    exact hmesh

theorem inv_step (c : Enroll.Checks) (w : Ledger) (e : LedgerEvent) (hw : w.mesh.Inv) :
    (w.step c e).mesh.Inv := by
  cases e with
  | change s => exact inv_apply hw
  | report now req =>
    refine Base.attempt_inv (fun w : Ledger => w.mesh.Inv) _ w (fun w' hw' => ?_) hw
    have hmesh : apply c w.mesh
        ⟨now / 1000, .observeAdvertiser req.networkId req.advertiserId
          (conclude now (w.held req.advertiserId) req.observed).state⟩ = w'.mesh := by
      simp only [apply, attempt, Store.mutate, observeAdvertiser_ok hw']
    rw [← hmesh]
    exact inv_apply hw

theorem inv_ledger (c : Enroll.Checks) (events : List LedgerEvent) :
    (run (Ledger.step c) {} events).mesh.Inv :=
  Base.run_inv (fun w : Ledger => w.mesh.Inv) (inv_step c) {} events Store.inv_empty

def Selectable (h : HealthState) : Prop :=
  h = .healthy ∨ h = .degraded ∨ h = .unknown

instance decidableSelectable (h : HealthState) : Decidable (Selectable h) :=
  inferInstanceAs (Decidable (_ ∨ _ ∨ _))

def offeredIds (b : Builder) (row : GroupRow) (membership : Id) : List String :=
  (selectFor b.score row membership).map Routes.Advertiser.id

def inService (row : GroupRow) (membership : Id) : List Id :=
  (row.advertisers.filter fun r => r.advertiser.membershipId ≠ membership ∧
    r.advertiser.adminState = .enabled ∧ Selectable r.health).map (·.advertiser.id)

theorem idText_injective {a b : Id} (h : idText a = idText b) : a = b := by
  have hread : ∀ n : Nat, Nat.ofDigitChars 10 (idText n).toList 0 = n := by
    intro n
    rw [show (idText n).toList = Nat.toDigits 10 n from Nat.toList_repr]
    exact Nat.ofDigitChars_ten_toDigits
  rw [← hread a, h, hread b]

theorem idText_ne_empty (a : Id) : idText a ≠ "" :=
  Nat.repr_ne_empty

theorem eligible_advertiserOf (r : AdvertiserRow) :
    Routes.Eligible "" (advertiserOf r) ↔
      r.advertiser.adminState = .enabled ∧ Selectable r.health := by
  have hid : (advertiserOf r).id ≠ "" := idText_ne_empty r.advertiser.id
  unfold Routes.Eligible
  show r.advertiser.adminState ≠ .disabled ∧ Selectable r.health ∧
    (r.advertiser.adminState = .draining → (advertiserOf r).id = "") ↔ _
  cases r.advertiser.adminState with
  | enabled => simp
  | draining => simp [hid]
  | disabled => simp

theorem offered_perm (b : Builder) (row : GroupRow) (membership : Id) :
    (offeredIds b row membership).Perm ((inService row membership).map idText) := by
  have hperm := (Routes.select_perm b.score
    { deviceKey := idText membership
      mode := row.group.selectionMode
      advertisers := (row.advertisers.filter (·.advertiser.membershipId ≠ membership)).map
        advertiserOf } (Routes.pinned_of_current rfl)).map Routes.Advertiser.id
  refine hperm.trans (List.Perm.of_eq ?_)
  rw [inService, List.filter_map, List.map_map, List.map_map, List.filter_filter]
  congr 1
  refine List.filter_congr fun r _ => ?_
  simp only [Function.comp_apply, eligible_advertiserOf, Bool.decide_and, ne_eq,
    Bool.and_comm]

theorem advertiser_of_row {t : Tables} {n : Id} {row : GroupRow} (hrow : row ∈ groupRows t n)
    {r : AdvertiserRow} (hr : r ∈ row.advertisers) : r.advertiser ∈ t.routeAdvertisers := by
  rcases List.mem_map.1 hrow with ⟨g, _, rfl⟩
  exact (mem_advertiserRows hr).1

theorem draining_not_offered {t : Tables} (ht : Store.RouteInv t) {n : Id} {row : GroupRow}
    (hrow : row ∈ groupRows t n) (b : Builder) (membership : Id) {a : RouteAdvertiser}
    (ha : a ∈ t.routeAdvertisers) (hdraining : a.adminState = .draining) :
    idText a.id ∉ offeredIds b row membership := by
  intro hmem
  rcases List.mem_map.1 ((offered_perm b row membership).subset hmem) with ⟨id, hid, htext⟩
  rcases List.mem_map.1 hid with ⟨r, hr, rfl⟩
  have hr := List.mem_filter.1 hr
  have hself : r.advertiser = a :=
    List.inj_on_of_nodup_map ht.advertiserIds (advertiser_of_row hrow hr.1) ha
      (idText_injective htext)
  have henabled : r.advertiser.adminState = .enabled := (of_decide_eq_true hr.2).2.1
  rw [hself, hdraining] at henabled
  cases henabled

theorem offered_singleton (b : Builder) (row : GroupRow) (membership id : Id) :
    offeredIds b row membership = [idText id] ↔ inService row membership = [id] := by
  have hperm := offered_perm b row membership
  constructor
  · intro h
    rw [h] at hperm
    have hmap := List.perm_singleton.1 hperm.symm
    rcases List.map_eq_singleton_iff.1 hmap with ⟨id', hids, htext⟩
    rw [hids, idText_injective htext]
  · intro h
    rw [h] at hperm
    exact List.perm_singleton.1 hperm

def Kept (b : Builder) (w : Ledger) (membership : Id) (row : GroupRow) : Prop :=
  (∀ a ∈ w.mesh.routeAdvertisers, w.recorded membership row.group.id = some a.id →
    (a.adminState = .draining → Selectable (healthOf w.mesh.toTables a.id) →
      (offeredIds b row membership).getLast? = some (idText a.id)) ∧
    (row.group.selectionMode = .pinned → a.adminState ≠ .disabled →
      offeredIds b row membership = [idText a.id])) ∧
  ∀ a ∈ w.mesh.routeAdvertisers, a.adminState = .draining →
    w.recorded membership row.group.id ≠ some a.id → idText a.id ∉ offeredIds b row membership

def NothingToKeep (w : Ledger) (membership : Id) (row : GroupRow) : Prop :=
  ∀ a ∈ w.mesh.routeAdvertisers, w.recorded membership row.group.id = some a.id →
    ¬(a.adminState = .draining ∧ Selectable (healthOf w.mesh.toTables a.id)) ∧
    (row.group.selectionMode = .pinned → a.adminState ≠ .disabled →
      inService row membership = [a.id])

instance decidableKept (b : Builder) (w : Ledger) (membership : Id) (row : GroupRow) :
    Decidable (Kept b w membership row) :=
  inferInstanceAs (Decidable (_ ∧ _))

instance decidableNothingToKeep (w : Ledger) (membership : Id) (row : GroupRow) :
    Decidable (NothingToKeep w membership row) :=
  inferInstanceAs (Decidable (∀ a ∈ w.mesh.routeAdvertisers, _))

/-- After every history of changes and reports, a device keeps what it uses in a group exactly where
there is nothing to keep. -/
theorem kept_iff (c : Enroll.Checks) (events : List LedgerEvent) (b : Builder) (membership n : Id)
    (row : GroupRow)
    (hrow : row ∈ groupRows (run (Ledger.step c) {} events).mesh.toTables n) :
    Kept b (run (Ledger.step c) {} events) membership row ↔
      NothingToKeep (run (Ledger.step c) {} events) membership row := by
  have hinv := (inv_ledger c events).routes
  generalize run (Ledger.step c) {} events = w at hrow hinv ⊢
  constructor
  · intro hkept a ha hrecorded
    have hthis := hkept.1 a ha hrecorded
    refine ⟨fun hdrains => ?_, fun hmode hdisabled => ?_⟩
    · have hlast := hthis.1 hdrains.1 hdrains.2
      exact draining_not_offered hinv hrow b membership ha hdrains.1
        (List.mem_of_getLast? hlast)
    · exact (offered_singleton b row membership a.id).1 (hthis.2 hmode hdisabled)
  · intro hnothing
    refine ⟨fun a ha hrecorded => ?_, fun a ha hdraining _ => ?_⟩
    · have hthis := hnothing a ha hrecorded
      refine ⟨fun hdraining hhealth => absurd ⟨hdraining, hhealth⟩ hthis.1, ?_⟩
      intro hmode hdisabled
      exact (offered_singleton b row membership a.id).2 (hthis.2 hmode hdisabled)
    · exact draining_not_offered hinv hrow b membership ha hdraining

def lab : List LedgerEvent :=
  (Store.founding [] ++
    [joining 1 7, joining 1 8,
     ⟨2, .createRouteGroup { networkId := 2, slug := "lab", name := "Lab", kind := "subnet"
                             prefixes := [.upTo (.v4 0xC0A80100) 24] }⟩,
     ⟨3, .advertise { networkId := 2, groupSlug := "lab", membershipId := 8 }⟩]).map .change ++
  [.report 4000 ⟨2, 10, .ok, some 6, ""⟩]

/-- The gateway of `lab` is drained by its administrator. -/
def labDrained : List LedgerEvent :=
  lab ++ [.change ⟨5, .advertise { networkId := 2, groupSlug := "lab", membershipId := 8
                                   adminState := "draining" }⟩]

theorem kept_iff_lab :
    ∃ row ∈ groupRows (run (Ledger.step trusting) {} lab).mesh.toTables 2,
      (run (Ledger.step trusting) {} lab).recorded 6 row.group.id = some 10 ∧
        Kept {} (run (Ledger.step trusting) {} lab) 6 row := by
  have hrows : ∃ row ∈ groupRows (run (Ledger.step trusting) {} lab).mesh.toTables 2,
      (run (Ledger.step trusting) {} lab).recorded 6 row.group.id = some 10 ∧
        NothingToKeep (run (Ledger.step trusting) {} lab) 6 row := by
    decide +kernel
  rcases hrows with ⟨row, hrow, hrecorded, hnothing⟩
  exact ⟨row, hrow, hrecorded, (kept_iff trusting lab {} 6 2 row hrow).2 hnothing⟩

/-- The device that uses a gateway loses it the moment it starts to drain: it is offered nothing at
all. -/
theorem drained_away :
    ∃ row ∈ groupRows (run (Ledger.step trusting) {} labDrained).mesh.toTables 2,
      (run (Ledger.step trusting) {} labDrained).recorded 6 row.group.id = some 10 ∧
        offeredIds {} row 6 = [] ∧
        ¬Kept {} (run (Ledger.step trusting) {} labDrained) 6 row := by
  decide +kernel

end Meshp.Session
