import Meshp.Session.Reachability

/-!
# What Is Wrong With a Route Group

The overview says of a route group when nothing can carry it, by a rule of its
own: some advertiser has to be in service and not known to be failing. The
builder of desired state has another rule for which advertisers a device is
offered. Both read the rows of one query, in which an advertiser nobody has
reported on has no health at all.
-/

namespace Meshp.Overview

open Session (AdvertiserRow Builder GroupRow Selectable advertiserLe advertiserRows groupRows
  inService offeredIds offered_perm selectFor)
open Store

structure Fault where
  code : String
  message : String

def faultNoAdvertisers : String := "no_advertisers"

def faultNoViableAdvertiser : String := "no_viable_advertiser"

/-- `store.OverviewAdvertiser`, as far as a fault depends on it. An absent health is the empty
string of the source. -/
structure OverviewAdvertiser where
  membershipId : Id
  adminState : AdminState
  health : Option HealthState

def viableAdvertiser (a : OverviewAdvertiser) : Bool :=
  if a.adminState ≠ .enabled then false
  else a.health ≠ some .unhealthy && a.health ≠ some .offline

def groupFaults (advertisers : List OverviewAdvertiser) : List Fault :=
  if advertisers = [] then [⟨faultNoAdvertisers, "nothing is offering to carry this"⟩]
  else if advertisers.any viableAdvertiser then []
  else
    [⟨faultNoViableAdvertiser,
      "no candidate can carry this: every advertiser is disabled, draining or unhealthy"⟩]

/-- One row of `ListRouteAdvertisers` as the query gives it, before either reader has decided what
an absent health means. -/
structure ListedRow where
  advertiser : RouteAdvertiser
  live : LiveRow
  healthState : Option HealthState

/-- `healthOf`: the builder takes an absent row as unknown. -/
def ListedRow.row (r : ListedRow) : AdvertiserRow :=
  ⟨r.advertiser, r.live, r.healthState.getD .unknown⟩

def ListedRow.overview (r : ListedRow) : OverviewAdvertiser :=
  ⟨r.advertiser.membershipId, r.advertiser.adminState, r.healthState⟩

/-- `ListRouteAdvertisers` of one group. -/
def listedRows (t : Tables) (group : Id) : List ListedRow :=
  ((t.routeAdvertisers.filter (·.routeGroupId = group)).flatMap fun a =>
    ((liveRows t).filter (·.membership.id = a.membershipId)).map fun r =>
      ⟨a, r, (t.advertiserHealth.find? (·.advertiserId = a.id)).map AdvertiserHealth.state⟩
    ).insertionSort fun a b => advertiserLe a.row b.row

theorem map_row_listedRows (t : Tables) (group : Id) :
    (listedRows t group).map ListedRow.row = advertiserRows t group := by
  unfold listedRows advertiserRows
  rw [List.map_insertionSort (fun a b : ListedRow => advertiserLe a.row b.row) (advertiserLe · ·)
    ListedRow.row _ fun _ _ _ _ => Iff.rfl, List.map_flatMap]
  simp only [List.map_map]
  rfl

/-- The overview says that nothing can carry a group. -/
def Uncarried (advertisers : List OverviewAdvertiser) : Prop :=
  ∃ f ∈ groupFaults advertisers, f.code = faultNoAdvertisers ∨ f.code = faultNoViableAdvertiser

theorem uncarried_iff (advertisers : List OverviewAdvertiser) :
    Uncarried advertisers ↔ ∀ a ∈ advertisers, viableAdvertiser a = false := by
  unfold Uncarried groupFaults
  by_cases hnone : advertisers = []
  · simp [hnone]
  · rw [if_neg hnone]
    by_cases hsome : advertisers.any viableAdvertiser
    · obtain ⟨a, ha, hviable⟩ := List.any_eq_true.1 hsome
      rw [if_pos hsome]
      refine iff_of_false (fun ⟨f, hf, _⟩ => List.not_mem_nil hf) fun h => ?_
      rw [h a ha] at hviable
      cases hviable
    · rw [if_neg hsome]
      exact iff_of_true ⟨_, .head _, .inr rfl⟩ (by simpa using hsome)

/-- The two rules agree on every row: an advertiser is viable exactly if it is in service and of a
health that is offered, where an absent one counts as unknown. -/
theorem viable_iff (r : ListedRow) :
    viableAdvertiser r.overview = true ↔
      r.row.advertiser.adminState = .enabled ∧ Selectable r.row.health := by
  unfold viableAdvertiser ListedRow.overview ListedRow.row Selectable
  cases r.advertiser.adminState with
  | draining | disabled => simp
  | enabled =>
    cases r.healthState with
    | none => simp
    | some h => cases h <;> simp

/-- A device that does not advertise in a group is offered nothing exactly if no advertiser of the
group is in service with a health that is offered. -/
theorem selectFor_eq_nil_iff (b : Builder) (g : GroupRow) {self : Id}
    (hself : ∀ r ∈ g.advertisers, r.advertiser.membershipId ≠ self) :
    selectFor b.score g self = [] ↔
      ∀ r ∈ g.advertisers, ¬ (r.advertiser.adminState = .enabled ∧ Selectable r.health) := by
  have hids : selectFor b.score g self = [] ↔ inService g self = [] := by
    have hlength : (selectFor b.score g self).length = (inService g self).length := by
      simpa [offeredIds] using (offered_perm b g self).length_eq
    rw [← List.length_eq_zero_iff, hlength, List.length_eq_zero_iff]
  rw [hids, inService, List.map_eq_nil_iff, List.filter_eq_nil_iff]
  refine forall₂_congr fun r hr => ?_
  simp [hself r hr]

theorem exists_not_advertising (rows : List ListedRow) :
    ∃ self : Id, ∀ r ∈ rows, r.advertiser.membershipId ≠ self := by
  obtain ⟨self, hself⟩ :=
    Infinite.exists_notMem_finset (rows.map fun r => (r.advertiser.membershipId : Nat)).toFinset
  refine ⟨self, fun r hr heq => hself ?_⟩
  rw [List.mem_toFinset]
  exact heq ▸ List.mem_map_of_mem hr

theorem uncarried_iff_selectFor (b : Builder) {group : RouteGroup} {prefixes : List Netip.Prefix}
    {rows : List ListedRow} (self : Id) (hself : ∀ r ∈ rows, r.advertiser.membershipId ≠ self) :
    Uncarried (rows.map ListedRow.overview) ↔
      selectFor b.score ⟨group, prefixes, rows.map ListedRow.row⟩ self = [] := by
  rw [uncarried_iff, selectFor_eq_nil_iff b _ (by simpa [ListedRow.row] using hself)]
  simp only [List.forall_mem_map, ← viable_iff, Bool.not_eq_true]

/-- Whatever the advertisers of a group are: the overview says that nothing can carry the group
exactly if no device but an advertiser's is offered anybody, being on none of them. -/
theorem uncarried_iff_unserved (b : Builder) (group : RouteGroup) (prefixes : List Netip.Prefix)
    (rows : List ListedRow) :
    Uncarried (rows.map ListedRow.overview) ↔
      ∀ self : Id, (∀ r ∈ rows, r.advertiser.membershipId ≠ self) →
        selectFor b.score ⟨group, prefixes, rows.map ListedRow.row⟩ self = [] := by
  constructor
  · intro h self hself
    exact (uncarried_iff_selectFor b self hself).1 h
  · -- The advertisers are finitely many, so there is a device to ask for.
    intro h
    obtain ⟨self, hself⟩ := exists_not_advertising rows
    exact (uncarried_iff_selectFor b self hself).2 (h self hself)

/-- The overview of a network and its members' desired state are read from the same tables: a
member that does not advertise in a group is given candidates for it exactly if the overview does
not say that nothing can carry it. -/
theorem overview_agrees (b : Builder) (t : Tables) {n : Id} {g : GroupRow} (hg : g ∈ groupRows t n)
    {self : Id} (hself : ∀ r ∈ g.advertisers, r.advertiser.membershipId ≠ self) :
    selectFor b.score g self ≠ [] ↔
      ¬ Uncarried ((listedRows t g.group.id).map ListedRow.overview) := by
  obtain ⟨group, -, rfl⟩ := List.mem_map.1 hg
  simp only [← map_row_listedRows] at hself ⊢
  rw [uncarried_iff_selectFor b self (by simpa [ListedRow.row] using hself)]

theorem overview_agrees_lab :
    let t := (Base.run (Session.Ledger.step trusting) {} Session.lab).mesh.toTables
    ∃ g ∈ groupRows t 2, ¬Uncarried ((listedRows t g.group.id).map ListedRow.overview) := by
  intro t
  have hrun : ∃ g ∈ groupRows t 2, (∀ r ∈ g.advertisers, r.advertiser.membershipId ≠ 6) ∧
      selectFor (Builder.score {}) g 6 ≠ [] := by
    decide +kernel
  rcases hrun with ⟨g, hg, hself, hserved⟩
  exact ⟨g, hg, (overview_agrees {} t hg hself).1 hserved⟩

end Meshp.Overview
