import Meshp.Session.Answers

/-!
# When a Delta Carries the Routes

What a device is told about route groups is read off the groups of its network,
their advertisers and whichever of those are live. The delta reads it again only
when the log says the routes moved, and most of what moves them says so.
-/

namespace Meshp.Session

open Base (Along insertAll eraseAll run)
open Builder (snapshot)
open List (mem_filter mem_insertionSort mem_map mem_map_of_mem)
open Store
open Store.Mesh (toTables_recordAll)
open Wire.RouteGroupAssignment (routeGroupId)

section Step

variable {c : Enroll.Checks} {s : Stamped} {m₁ m m' : Mesh} {t t' : Tables} {n : Id} {F : Nat}

/-- Whether membership `id` advertises for a group of network `n`. -/
def carriesIn (t : Tables) (n id : Id) : Prop :=
  ∃ g ∈ groupsOf t n, ∃ a ∈ t.routeAdvertisers, a.routeGroupId = g.id ∧ a.membershipId = id

instance decidableCarriesIn (t : Tables) (n id : Id) : Decidable (carriesIn t n id) :=
  inferInstanceAs (Decidable (∃ g ∈ groupsOf t n, ∃ a ∈ t.routeAdvertisers,
    a.routeGroupId = g.id ∧ a.membershipId = id))

def RoutesUnseen (n : Id) (m : Mesh) (s : Stamped) : Prop :=
  match s.event with
  | .revokeMembership _ id => ¬carriesIn m.toTables n id
  | .forgetDevice _ device =>
    ∀ y ∈ m.memberships, y.deviceId = device → carriesIn m.toTables n y.id →
      y.networkId = n ∨ n ∈ networksSharingADeviceWith m.toTables y.networkId
  | _ => True

instance decidableRoutesUnseen (n : Id) (m : Mesh) (s : Stamped) :
    Decidable (RoutesUnseen n m s) := by
  delta RoutesUnseen
  rcases s with ⟨_, event⟩
  induction event using Store.Event.casesOn <;> infer_instance

theorem groupRows_of_kept (hk : RoutesKept t t' n)
    (hlive : ∀ id, carriesIn t n id → (liveRows t').filter (·.membership.id = id) =
      (liveRows t).filter (·.membership.id = id)) : groupRows t' n = groupRows t n := by
  unfold groupRows
  rw [hk.groups]
  refine List.map_congr_left fun g hg => ?_
  rw [mem_insertionSort] at hg
  have hpre : prefixesOf t' g.id = prefixesOf t g.id := by
    unfold prefixesOf
    rw [hk.prefixes g hg]
  have hadv : advertiserRows t' g.id = advertiserRows t g.id := by
    unfold advertiserRows
    rw [hk.advertisers g hg]
    congr 1
    refine List.flatMap_congr fun a ha => ?_
    rcases mem_filter.1 ha with ⟨hmem, hag⟩
    rw [decide_eq_true_eq] at hag
    rw [hlive a.membershipId ⟨g, hg, a, hmem, hag, rfl⟩, hk.health g hg a hmem hag]
  rw [hpre, hadv]

theorem filter_liveRows_joined {x : Membership} {d : Device} {key : Key} (hinv : m.Inv)
    (hj : Enroll.Joined m.toTables t x d key) {id : Id} (hc : carriesIn m.toTables n id) :
    (liveRows t).filter (·.membership.id = id) =
      (liveRows m.toTables).filter (·.membership.id = id) := by
  rcases hc with ⟨_, _, a, ha, _, rfl⟩
  rcases hinv.routes.advertiserMember a ha with ⟨y, hy, hya⟩
  have hlt := Nat.lt_of_lt_of_le (hinv.members.memberBelow y hy) hj.fresh.1
  rw [hya] at hlt
  rw [liveRows_joined hinv.members hj, List.filter_append, List.filter_singleton]
  simp only [Nat.ne_of_gt hlt, decide_false, cond_false, List.append_nil]

theorem filter_liveRows_dropped {keep : LiveRow → Bool} {id : Id}
    (hrows : liveRows t' = (liveRows t).filter keep)
    (hkeep : ∀ r ∈ liveRows t, r.membership.id = id → keep r = true) :
    (liveRows t').filter (·.membership.id = id) = (liveRows t).filter (·.membership.id = id) := by
  rw [hrows]
  refine Base.filter_filter_eq _ fun r hr hid => hkeep r hr ?_
  rwa [decide_eq_true_eq] at hid

theorem toTables_deleteDevice (h : m'.toTables = m.toTables) {device : Id} :
    (deleteDevice m' device).toTables = (deleteDevice m device).toTables := by
  unfold deleteDevice
  simp only [h]

theorem routesKept_deleteDevice (hinv : RouteInv m.toTables) {device : Id}
    (hnone : ∀ y ∈ m.memberships, y.deviceId = device → ¬carriesIn m.toTables n y.id) :
    RoutesKept m.toTables (deleteDevice m device).toTables n := by
  have hstay : ∀ g ∈ groupsOf m.toTables n, ∀ a ∈ m.routeAdvertisers, a.routeGroupId = g.id →
      ((m.memberships.filter (·.deviceId = device)).map Membership.id).contains a.membershipId =
        false := by
    intro g hg a ha hag
    rw [Bool.eq_false_iff]
    intro hgone
    rcases contains_gone.1 hgone with ⟨y, hy, hyd, hyid⟩
    exact hnone y hy hyd ⟨g, hg, a, ha, hag, hyid.symm⟩
  refine ⟨rfl, fun _ _ => rfl, fun g hg => ?_, fun g hg a ha hag => ?_⟩
  · exact advertisers_deleteAdvertisers _ fun a ha hag => hstay g hg a ha hag
  · exact healthOf_deleteAdvertisers hinv _ ha (hstay g hg a ha hag)

theorem logged_of_carrier {device : Id} {now : Time} (hF : F ≤ m.version n) {y : Membership}
    (hy : y ∈ m.memberships) (hyd : y.deviceId = device) (hc : carriesIn m.toTables n y.id)
    (hnet : y.networkId = n ∨ n ∈ networksSharingADeviceWith m.toTables y.networkId) :
    (deleteDevice (Mesh.recordAll now m
      ((m.memberships.filter (·.deviceId = device)).flatMap (leaveBumps m.toTables)))
        device).Logged n F .routes := by
  have hadv : advertises m.toTables y.id = true := by
    rcases hc with ⟨_, _, a, ha, _, hid⟩
    exact List.any_eq_true.2 ⟨a, ha, by simpa using hid⟩
  have hbump : Bumped (leaveBumps m.toTables y) n .routes := by
    unfold leaveBumps
    rw [if_pos hadv]
    refine bumped_append.2 (.inr ?_)
    rcases hnet with rfl | hshared
    · exact routes_bumped_everywhere _ _
    · exact ⟨[.routes], List.mem_cons_of_mem _ (mem_map_of_mem hshared),
        List.mem_singleton.2 rfl⟩
  rcases hbump with ⟨ks, hmem, hk⟩
  refine logged_deleteDevice.2 ⟨Mesh.logged_recordAll now m n F _ ks _ ?_ hk hF, nofun⟩
  exact List.mem_flatMap.2 ⟨y, mem_filter.2 ⟨hy, by simpa using hyd⟩, hmem⟩

theorem groupRows_step (he : Effect c s m m') (hinv : m.Inv) (hF : F ≤ m.version n)
    (hcond : RoutesUnseen n m s) :
    groupRows m'.toTables n = groupRows m.toTables n ∨ m'.Logged n F .routes := by
  have hsame : ∀ {t : Tables}, t.routeGroups = m.routeGroups ∧
      t.routeGroupPrefixes = m.routeGroupPrefixes ∧ t.routeAdvertisers = m.routeAdvertisers ∧
      t.advertiserHealth = m.advertiserHealth → RoutesKept m.toTables t n :=
    fun h => routesKept_of_eq n h.1 h.2.1 h.2.2.1 h.2.2.2
  unfold RoutesUnseen at hcond
  cases he with
  | settings t bumps members routes =>
    left
    rw [toTables_recordAll]
    refine groupRows_of_kept (hsame routes) fun id _ => ?_
    rw [liveRows_of_kept members]
  | routes t n' bumps members inv others policies logged =>
    rw [toTables_recordAll]
    by_cases hn : n = n'
    · subst hn
      rcases logged with hk | ⟨ks, hmem, hks⟩
      · refine .inl (groupRows_of_kept hk fun id _ => ?_)
        rw [liveRows_of_kept members]
      · exact .inr (Mesh.logged_recordAll s.now _ n F _ ks _ hmem hks hF)
    · refine .inl (groupRows_of_kept (others n hn) fun id _ => ?_)
      rw [liveRows_of_kept members]
  | policy | egress =>
    left
    rw [toTables_recordAll]
    rfl
  | joined t x d key wrote =>
    left
    rw [toTables_recordAll]
    refine groupRows_of_kept (hsame ?_) fun id hc => filter_liveRows_joined hinv wrote hc
    rw [wrote.rest]
    exact ⟨rfl, rfl, rfl, rfl⟩
  | revoked x key event =>
    left
    rw [event] at hcond
    rw [toTables_recordAll]
    refine groupRows_of_kept (hsame ⟨rfl, rfl, rfl, rfl⟩) fun id hc => ?_
    refine filter_liveRows_dropped (liveRows_markRevoked _ _) fun r _ hid => ?_
    rw [decide_eq_true_eq, hid]
    rintro rfl
    exact hcond hc
  | forgot org device event =>
    rw [event] at hcond
    by_cases hcarrier : ∃ y ∈ m.memberships, y.deviceId = device ∧ carriesIn m.toTables n y.id
    · rcases hcarrier with ⟨y, hy, hyd, hc⟩
      exact .inr (logged_of_carrier hF hy hyd hc (hcond y hy hyd hc))
    · left
      push Not at hcarrier
      rw [toTables_deleteDevice (toTables_recordAll _ _ _)]
      refine groupRows_of_kept (routesKept_deleteDevice hinv.routes hcarrier) fun id hc => ?_
      refine filter_liveRows_dropped (liveRows_deleteDevice hinv.members device) fun r hr hid => ?_
      rw [decide_eq_true_eq]
      intro hd
      refine hcarrier r.membership (mem_liveRows.1 hr).1 hd ?_
      rw [hid]
      exact hc
  | network t r members routes =>
    refine .inl (groupRows_of_kept (hsame routes) fun id _ => ?_)
    rw [liveRows_of_kept members]
  | pruned =>
    left
    rw [toTables_pruneNetwork]

theorem groupRows_run (hinv : m₁.Inv) (ss : List Stamped)
    (hcond : Along (apply c) (RoutesUnseen n) m₁ ss)
    (hfloor : (run (apply c) m₁ ss).floor n ≤ m₁.version n) :
    groupRows (run (apply c) m₁ ss).toTables n = groupRows m₁.toTables n ∨
      (run (apply c) m₁ ss).Logged n (m₁.version n) .routes := by
  refine run_window
    (fun m => groupRows m.toTables n = groupRows m₁.toTables n ∨
      m.Logged n (m₁.version n) .routes) hinv (.inl rfl)
    (fun m s he hI hle hc hfl hP => ?_) ss hcond hfloor
  rcases hP with hsame | hlog
  · rcases groupRows_step he hI hle hc with hstep | hlog
    · exact .inl (hstep.trans hsame)
    · exact .inr hlog
  · exact .inr (he.logged hI hlog hfl nofun)

theorem groupsOf_step (he : Effect c s m m') (hF : F ≤ m.version n) {id : Id}
    (hg : id ∈ (groupsOf m.toTables n).map RouteGroup.id) :
    id ∈ (groupsOf m'.toTables n).map RouteGroup.id ∨ m'.Logged n F (.routeGroupRemove id) := by
  have hsame : ∀ {t : Tables}, t.routeGroups = m.routeGroups →
      id ∈ (groupsOf t n).map RouteGroup.id := by
    intro t ht
    unfold groupsOf
    rw [ht]
    exact hg
  cases he with
  | settings t bumps members routes =>
    rw [toTables_recordAll]
    exact .inl (hsame routes.1)
  | routes t n' bumps members inv others policies logged named =>
    rw [toTables_recordAll]
    by_cases hn : n = n'
    · subst hn
      rcases mem_map.1 hg with ⟨g, hmem, rfl⟩
      rcases named g hmem with hstay | ⟨ks, hmem, hks⟩
      · exact .inl hstay
      · exact .inr (Mesh.logged_recordAll s.now _ n F _ ks _ hmem hks hF)
    · left
      rw [(others n hn).groups]
      exact hg
  | policy | revoked | egress =>
    rw [toTables_recordAll]
    exact .inl hg
  | joined t x d key wrote =>
    rw [toTables_recordAll]
    refine .inl (hsame ?_)
    rw [wrote.rest]
  | forgot =>
    rw [toTables_deleteDevice (toTables_recordAll _ _ _)]
    exact .inl hg
  | network t r members routes => exact .inl (hsame routes.1)
  | pruned =>
    rw [toTables_pruneNetwork]
    exact .inl hg

theorem groupsNamed_run (hinv : m₁.Inv) (ss : List Stamped)
    (hfloor : (run (apply c) m₁ ss).floor n ≤ m₁.version n) {id : Id}
    (hg : id ∈ (groupsOf m₁.toTables n).map RouteGroup.id) :
    id ∈ (groupsOf (run (apply c) m₁ ss).toTables n).map RouteGroup.id ∨
      (run (apply c) m₁ ss).Logged n (m₁.version n) (.routeGroupRemove id) := by
  refine run_window
    (fun m => id ∈ (groupsOf m.toTables n).map RouteGroup.id ∨
      m.Logged n (m₁.version n) (.routeGroupRemove id)) hinv (.inl hg)
    (fun m s he hI hle _ hfl hP => ?_) ss (Base.along_true m₁ ss) hfloor
  rcases hP with hstay | hlog
  · exact groupsOf_step he hle hstay
  · exact .inr (he.logged hI hlog hfl nofun)

end Step

theorem routesMoved_iff {changes : List ChangeKind} :
    routesMoved changes = true ↔ .routes ∈ changes ∨ ∃ id, .routeGroupRemove id ∈ changes := by
  unfold routesMoved
  rw [List.any_eq_true]
  constructor
  · rintro ⟨k, hk, hp⟩
    cases k with
    | routes => exact .inl hk
    | routeGroupRemove id => exact .inr ⟨id, hk⟩
    | peerUpsert _ | peerRemove _ | policy | tunnel | dns => cases hp
  · rintro (hk | ⟨id, hk⟩)
    · exact ⟨_, hk, rfl⟩
    · exact ⟨_, hk, rfl⟩

theorem mem_deletedGroups {changes : List ChangeKind} {id : Id}
    (h : .routeGroupRemove id ∈ changes) : idText id ∈ deletedGroups changes := by
  unfold deletedGroups
  rw [List.mem_dedup, List.mem_filterMap]
  exact ⟨_, h, rfl⟩

theorem mem_withdrawals {routes : RouteAnswer} {changes : List ChangeKind} {k : String}
    (h : k ∈ routes.withdrawn ∨ k ∈ deletedGroups changes) : k ∈ withdrawals routes changes := by
  unfold withdrawals
  rw [mem_insertionSort, List.mem_append, mem_filter]
  by_cases hw : k ∈ routes.withdrawn
  · exact .inl hw
  · rcases h with h | h
    · exact absurd h hw
    · exact .inr ⟨h, by simpa using hw⟩

section Told

variable {b b₁ b₂ : Builder} {t t₁ t₂ : Tables} {x : Membership}

def unmapped (a : Wire.RouteGroupAssignment) : Wire.RouteGroupAssignment :=
  { a with mappedPrefixes := [] }

def carried (s : Peerset.Set) : List Wire.AdvertisedGroup :=
  (s.advertised.map Wire.AdvertisedRoutes.groups).getD []

theorem mem_groupRows {n id : Id} :
    (∃ g ∈ groupRows t n, g.group.id = id) ↔ id ∈ (groupsOf t n).map RouteGroup.id := by
  unfold groupRows
  rw [mem_map]
  constructor
  · rintro ⟨_, hg, rfl⟩
    rcases mem_map.1 hg with ⟨g, hmem, rfl⟩
    exact ⟨g, (mem_insertionSort _).1 hmem, rfl⟩
  · rintro ⟨g, hg, rfl⟩
    exact ⟨_, mem_map_of_mem ((mem_insertionSort _).2 hg), rfl⟩

theorem assigned_eq : (routeGroupsFor b t x).assigned =
    ((groupRows t x.networkId).filter fun g => selectFor b.score g x.id ≠ []).map fun g =>
      assignmentFor g (selectFor b.score g x.id)
        (mappedByNetwork (b.mappings x.deviceId) x.networkId) := by
  unfold routeGroupsFor
  simp only
  split
  · rename_i hnil
    rw [hnil]
    rfl
  · rfl

theorem withdrawn_eq : (routeGroupsFor b t x).withdrawn =
    ((groupRows t x.networkId).filter fun g => selectFor b.score g x.id = []).map fun g =>
      idText g.group.id := by
  unfold routeGroupsFor
  simp only
  split
  · rename_i hnil
    rw [hnil]
    rfl
  · rfl

theorem advertised_eq : (routeGroupsFor b t x).advertised =
    if groupRows t x.networkId = [] then none
    else some ⟨(groupRows t x.networkId).filterMap fun g => carriedBy g x.id⟩ := by
  unfold routeGroupsFor
  simp only
  split <;> rfl

theorem assigned_or_withdrawn {g : GroupRow} (hg : g ∈ groupRows t x.networkId) :
    idText g.group.id ∈ (routeGroupsFor b t x).withdrawn ∨
      ∃ a ∈ (routeGroupsFor b t x).assigned, a.routeGroupId = idText g.group.id := by
  by_cases hs : selectFor b.score g x.id = []
  · left
    rw [withdrawn_eq]
    exact mem_map.2 ⟨g, mem_filter.2 ⟨hg, decide_eq_true hs⟩, rfl⟩
  · right
    rw [assigned_eq]
    exact ⟨_, mem_map_of_mem (mem_filter.2 ⟨hg, decide_eq_true hs⟩), rfl⟩

theorem lookup_assigned_eq (hscore : b₁.score = b₂.score)
    (hrows : groupRows t₂ x.networkId = groupRows t₁ x.networkId) (k : String) :
    ((insertAll routeGroupId ∅
        (routeGroupsFor b₁ t₁ x).assigned).lookup k).map unmapped =
      ((insertAll routeGroupId ∅
        (routeGroupsFor b₂ t₂ x).assigned).lookup k).map unmapped := by
  rw [assigned_eq, assigned_eq, hrows, hscore]
  refine Base.lookup_insertAll_map unmapped ?_ ?_ _ k
  · exact fun _ => rfl
  · exact fun _ => rfl

theorem carriedBy_eq_none {g : GroupRow} {self : Id}
    (h : ∀ r ∈ g.advertisers, r.advertiser.membershipId = self →
      r.advertiser.adminState = .disabled) : carriedBy g self = none := by
  unfold carriedBy
  split
  · rfl
  · rename_i r hfind
    obtain ⟨hmem, hid⟩ := Base.of_find? hfind
    rw [if_pos (h r hmem hid)]

end Told

section Held

variable {b₁ b₂ : Builder} {m₁ m₂ : Mesh} {x : Membership} {F : Nat} {σ₁ σ₂ δ : Wire.StateDelta}

theorem moved_table (hb : m₂.LogBounded) (hδ : DeltaOf b₂ m₂ x F δ)
    (hmoved : routesMoved (changesSince m₂ x.networkId F (m₂.version x.networkId)) = true)
    {held : Finmap fun _ : String => Wire.RouteGroupAssignment}
    (hnamed : ∀ k, held.lookup k ≠ none → ∃ id, idText id = k ∧
      (id ∈ (groupsOf m₂.toTables x.networkId).map RouteGroup.id ∨
        m₂.Logged x.networkId F (.routeGroupRemove id))) :
    insertAll routeGroupId (eraseAll held δ.removedRouteGroupIds)
        δ.routeGroups =
      insertAll routeGroupId ∅
        (routeGroupsFor b₂ m₂.toTables x).assigned := by
  rcases hδ.routes hmoved with ⟨hgroups, hremoved, _⟩
  rw [hgroups, hremoved]
  refine Finmap.ext_lookup fun k => Base.lookup_insertAll_congr fun hnot => ?_
  rw [Base.lookup_eraseAll, Finmap.lookup_empty]
  by_cases hk : held.lookup k = none
  · rw [hk, ite_self]
  · refine if_pos ?_
    rcases hnamed k hk with ⟨id, rfl, hstay | hlog⟩
    · rcases mem_groupRows.2 hstay with ⟨g, hg, rfl⟩
      rcases assigned_or_withdrawn (b := b₂) hg with hw | ⟨a, ha, hid⟩
      · exact mem_withdrawals (.inl hw)
      · exact absurd hid (hnot a ha)
    · exact mem_withdrawals (.inr (mem_deletedGroups ((mem_changesSince hb).2 hlog)))

theorem lookup_assigned {b : Builder} {t : Tables} {k : String}
    (h : (insertAll routeGroupId ∅
      (routeGroupsFor b t x).assigned).lookup k ≠ none) :
    ∃ id ∈ (groupsOf t x.networkId).map RouteGroup.id, idText id = k := by
  by_contra hnone
  push Not at hnone
  refine h ?_
  rw [Base.lookup_insertAll_of_notMem, Finmap.lookup_empty]
  intro a ha
  rw [assigned_eq] at ha
  rcases mem_map.1 ha with ⟨g, hg, rfl⟩
  exact hnone _ (mem_groupRows.1 ⟨g, (mem_filter.1 hg).1, rfl⟩)

theorem moved_assignments (hb : m₂.LogBounded) (hσ₁ : SnapshotOf b₁ m₁.toTables x σ₁)
    (hδ : DeltaOf b₂ m₂ x F δ)
    (hmoved : routesMoved (changesSince m₂ x.networkId F (m₂.version x.networkId)) = true)
    (hnamed : ∀ id ∈ (groupsOf m₁.toTables x.networkId).map RouteGroup.id,
      id ∈ (groupsOf m₂.toTables x.networkId).map RouteGroup.id ∨
        m₂.Logged x.networkId F (.routeGroupRemove id)) :
    insertAll routeGroupId
        (eraseAll (insertAll routeGroupId ∅ σ₁.routeGroups)
          δ.removedRouteGroupIds) δ.routeGroups =
      insertAll routeGroupId ∅
        (routeGroupsFor b₂ m₂.toTables x).assigned := by
  refine moved_table hb hδ hmoved fun k hk => ?_
  rw [hσ₁.routeGroups] at hk
  rcases lookup_assigned hk with ⟨id, hid, hk⟩
  exact ⟨id, hk, hnamed id hid⟩

theorem filterMap_carriedBy_eq_nil {t : Tables} {n self : Id}
    (hnone : ∀ g ∈ groupsOf t n, ∀ a ∈ t.routeAdvertisers,
      a.routeGroupId = g.id → a.membershipId = self → a.adminState = .disabled) :
    (groupRows t n).filterMap (carriedBy · self) = [] := by
  rw [List.filterMap_eq_nil_iff]
  intro g hg
  refine carriedBy_eq_none fun r hr hid => ?_
  unfold groupRows at hg
  rcases mem_map.1 hg with ⟨g', hg', rfl⟩
  rcases mem_advertiserRows hr with ⟨hmem, hgroup⟩
  exact hnone g' ((mem_insertionSort _).1 hg') _ hmem hgroup hid

theorem carried_snapshot_eq_nil (hσ₁ : SnapshotOf b₁ m₁.toTables x σ₁)
    (hnone : ∀ g ∈ groupsOf m₁.toTables x.networkId, ∀ a ∈ m₁.routeAdvertisers,
      a.routeGroupId = g.id → a.membershipId = x.id → a.adminState = .disabled) :
    carried (({} : Peerset.Set).apply σ₁) = [] := by
  unfold carried
  rw [Peerset.advertised_apply_snapshot hσ₁.fromVersion, hσ₁.advertised, advertised_eq]
  split
  · rfl
  · exact filterMap_carriedBy_eq_nil hnone

theorem unmoved_routes (hscore : b₁.score = b₂.score) (hσ₁ : SnapshotOf b₁ m₁.toTables x σ₁)
    (hσ₂ : SnapshotOf b₂ m₂.toTables x σ₂) (hfrom : δ.fromVersion ≠ 0)
    (hδ : δ.routeGroups = [] ∧ δ.removedRouteGroupIds = [] ∧ δ.advertised = none)
    (hrows : groupRows m₂.toTables x.networkId = groupRows m₁.toTables x.networkId) :
    (∀ k, (((({} : Peerset.Set).apply σ₁).apply δ).routeGroups.lookup k).map unmapped =
      ((({} : Peerset.Set).apply σ₂).routeGroups.lookup k).map unmapped) ∧
    carried ((({} : Peerset.Set).apply σ₁).apply δ) = carried (({} : Peerset.Set).apply σ₂) := by
  constructor
  · intro k
    rw [Peerset.routeGroups_apply hfrom, hδ.1, hδ.2.1,
      Peerset.routeGroups_apply_snapshot hσ₁.fromVersion,
      Peerset.routeGroups_apply_snapshot hσ₂.fromVersion, hσ₁.routeGroups, hσ₂.routeGroups]
    exact lookup_assigned_eq hscore hrows k
  · unfold carried
    rw [Peerset.advertised_apply hfrom, hδ.2.2, Peerset.advertised_apply_snapshot hσ₁.fromVersion,
      Peerset.advertised_apply_snapshot hσ₂.fromVersion, hσ₁.advertised, hσ₂.advertised,
      advertised_eq, advertised_eq, hrows]
    rfl

theorem moved_carried (hσ₁ : SnapshotOf b₁ m₁.toTables x σ₁)
    (hσ₂ : SnapshotOf b₂ m₂.toTables x σ₂) (hfrom : δ.fromVersion ≠ 0)
    (hδ : δ.advertised = (routeGroupsFor b₂ m₂.toTables x).advertised)
    (hlast : groupsOf m₂.toTables x.networkId ≠ [] ∨
      ∀ g ∈ groupsOf m₁.toTables x.networkId, ∀ a ∈ m₁.routeAdvertisers,
        a.routeGroupId = g.id → a.membershipId = x.id → a.adminState = .disabled) :
    carried ((({} : Peerset.Set).apply σ₁).apply δ) = carried (({} : Peerset.Set).apply σ₂) := by
  by_cases hrows : groupRows m₂.toTables x.networkId = []
  · have hempty : groupsOf m₂.toTables x.networkId = [] := by
      rw [List.eq_nil_iff_forall_not_mem]
      intro g hg
      rcases mem_groupRows.2 (mem_map_of_mem hg) with ⟨_, hg', _⟩
      rw [hrows] at hg'
      exact absurd hg' List.not_mem_nil
    have hnone := hlast.resolve_left fun h => h hempty
    have hheld := carried_snapshot_eq_nil hσ₁ hnone
    unfold carried at hheld ⊢
    rw [Peerset.advertised_apply hfrom, Peerset.advertised_apply_snapshot hσ₂.fromVersion, hδ,
      hσ₂.advertised, advertised_eq, if_pos hrows]
    exact hheld
  · unfold carried
    rw [Peerset.advertised_apply hfrom, Peerset.advertised_apply_snapshot hσ₂.fromVersion, hδ,
      hσ₂.advertised, advertised_eq, if_neg hrows]
    rfl

end Held

/-- Within the delta window, if the log says the routes moved, or if no advertiser was taken out
unsaid, then what an agent holds after any answer is what the head would assign it, candidate for
candidate; and if its network still has a group, or it carried none, it carries what the head says
it carries. -/
theorem routes_fold_eq_snapshot (c : Enroll.Checks) (b₁ b₂ : Builder)
    (hscore : b₁.score = b₂.score) (ss₁ ss₂ : List Stamped) (n : Id) (x : Membership)
    (hx : x ∈ (history c (ss₁ ++ ss₂)).memberships) (hn : x.networkId = n)
    (hwindow : (history c (ss₁ ++ ss₂)).floor n ≤ (history c ss₁).version n)
    (hunseen : (history c (ss₁ ++ ss₂)).Logged n ((history c ss₁).version n) .routes ∨
      Along (apply c) (RoutesUnseen n) (history c ss₁) ss₂)
    (hlast : groupsOf (history c (ss₁ ++ ss₂)).toTables n ≠ [] ∨
      ∀ g ∈ groupsOf (history c ss₁).toTables n, ∀ a ∈ (history c ss₁).routeAdvertisers,
        a.routeGroupId = g.id → a.membershipId = x.id → a.adminState = .disabled) :
    (∀ σ₁ σ₂ δ, b₁.snapshot (history c ss₁) x.id = .ok σ₁ →
      b₂.snapshot (history c (ss₁ ++ ss₂)) x.id = .ok σ₂ →
      b₂.for (history c (ss₁ ++ ss₂)) x.id ((history c ss₁).version n) = .ok δ →
      (∀ k, (((({} : Peerset.Set).apply σ₁).apply δ).routeGroups.lookup k).map unmapped =
        ((({} : Peerset.Set).apply σ₂).routeGroups.lookup k).map unmapped) ∧
      carried ((({} : Peerset.Set).apply σ₁).apply δ) = carried (({} : Peerset.Set).apply σ₂)) ∧
    (x.state = .active →
      (∃ σ₂, b₂.snapshot (history c (ss₁ ++ ss₂)) x.id = .ok σ₂) ∧
      ∃ δ, b₂.for (history c (ss₁ ++ ss₂)) x.id ((history c ss₁).version n) = .ok δ) := by
  have hinv₁ := inv_history (c := c) ss₁
  have hinv₂ := inv_history (c := c) (ss₁ ++ ss₂)
  have hrun : history c (ss₁ ++ ss₂) = run (apply c) (history c ss₁) ss₂ :=
    Base.run_append _ _ _
  refine ⟨fun σ₁ σ₂ δ h₁ h₂ hδ => ?_, fun hact =>
    ⟨snapshot_isOk hinv₂ hx hact b₂, for_isOk hinv₂ hx hact b₂ _⟩⟩
  subst hn
  rcases snapshots_ok hinv₁ hinv₂ hx hrun h₁ h₂ with ⟨hσ₁, hσ₂, _⟩
  -- Where the routes are not logged as moved, the groups read the same.
  have hsame : ¬(history c (ss₁ ++ ss₂)).Logged x.networkId
      ((history c ss₁).version x.networkId) .routes →
      groupRows (history c (ss₁ ++ ss₂)).toTables x.networkId =
        groupRows (history c ss₁).toTables x.networkId := by
    intro hnone
    have hcond := hunseen.resolve_left hnone
    rw [hrun] at hwindow hnone ⊢
    exact (groupRows_run hinv₁ ss₂ hcond hwindow).resolve_right hnone
  rcases for_ok hinv₂ hx hδ with hsnap | ⟨hF, hsilent, hnone⟩ | ⟨hF, hdelta⟩
  · rw [h₂] at hsnap
    cases hsnap
    rcases Peerset.apply_snapshot (s := ({} : Peerset.Set).apply σ₁) {} hσ₂.fromVersion
      with ⟨_, _, hgroups, hadv⟩
    refine ⟨fun k => by rw [hgroups], ?_⟩
    unfold carried
    rw [hadv]
  · refine unmoved_routes hscore hσ₁ hσ₂ (by rw [hsilent.fromVersion]; exact hF)
      ⟨hsilent.routeGroups, hsilent.removedRouteGroupIds, hsilent.advertised⟩ (hsame (hnone _))
  · have hfrom : δ.fromVersion ≠ 0 := by
      rw [hdelta.fromVersion]
      exact hF
    cases hmoved : routesMoved (changesSince (history c (ss₁ ++ ss₂)) x.networkId
      ((history c ss₁).version x.networkId) ((history c (ss₁ ++ ss₂)).version x.networkId)) with
    | false =>
      refine unmoved_routes hscore hσ₁ hσ₂ hfrom (hdelta.noRoutes hmoved) (hsame fun hlog => ?_)
      rw [Bool.eq_false_iff] at hmoved
      exact hmoved (routesMoved_iff.2 (.inl ((mem_changesSince hinv₂.logBounded).2 hlog)))
    | true =>
      refine ⟨fun k => ?_, moved_carried hσ₁ hσ₂ hfrom (hdelta.routes hmoved).2.2 hlast⟩
      rw [Peerset.routeGroups_apply hfrom, Peerset.routeGroups_apply_snapshot hσ₁.fromVersion,
        Peerset.routeGroups_apply_snapshot hσ₂.fromVersion, hσ₂.routeGroups]
      rw [moved_assignments hinv₂.logBounded hσ₁ hdelta hmoved fun id hid => ?_]
      rw [hrun] at hwindow ⊢
      exact groupsNamed_run hinv₁ ss₂ hwindow hid

def laboratory : List Stamped :=
  founding [] ++ [joining 1 7, joining 1 8, joining 1 9, joining 1 10,
    ⟨2, .createRouteGroup
      { networkId := 2, slug := "lab", name := "Lab", kind := "subnet"
        prefixes := [.upTo (.v4 0xC0A80100) 24] }⟩,
    ⟨2, .advertise { networkId := 2, groupSlug := "lab", membershipId := 8 }⟩,
    ⟨2, .advertise { networkId := 2, groupSlug := "lab", membershipId := 10 }⟩]

theorem routes_fold_eq_snapshot_withdrawn :
    let ss₂ := [⟨3, .revokeMembership 2 12⟩, ⟨3, .withdraw 2 "lab" 8⟩]
    let m₁ := history trusting laboratory
    let m₂ := history trusting (laboratory ++ ss₂)
    founder [] ∈ m₂.memberships ∧ m₂.floor 2 ≤ m₁.version 2 ∧
      Along (apply trusting) (RoutesUnseen 2) m₁ ss₂ ∧ groupsOf m₂.toTables 2 ≠ [] ∧
      ∃ σ₁ σ₂ δ, snapshot {} m₁ 6 = .ok σ₁ ∧ snapshot {} m₂ 6 = .ok σ₂ ∧
        Builder.for {} m₂ 6 (m₁.version 2) = .ok δ ∧
        σ₁.routeGroups.map (·.candidates.length) = [2] ∧
        δ.routeGroups.map (·.candidates.length) = [1] ∧
        (∀ k, (((({} : Peerset.Set).apply σ₁).apply δ).routeGroups.lookup k).map unmapped =
          ((({} : Peerset.Set).apply σ₂).routeGroups.lookup k).map unmapped) ∧
        carried ((({} : Peerset.Set).apply σ₁).apply δ) =
          carried (({} : Peerset.Set).apply σ₂) := by
  intro ss₂ m₁ m₂
  have hrun : (founder [] ∈ m₂.memberships ∧ m₂.floor 2 ≤ m₁.version 2) ∧
      ¬carriesIn m₁.toTables 2 12 ∧ groupsOf m₂.toTables 2 ≠ [] ∧
      (∃ σ₁, snapshot {} m₁ 6 = .ok σ₁ ∧ σ₁.routeGroups.map (·.candidates.length) = [2]) ∧
      ∃ δ, Builder.for {} m₂ 6 (m₁.version 2) = .ok δ ∧
        δ.routeGroups.map (·.candidates.length) = [1] := by decide +kernel
  rcases hrun with ⟨⟨hx, hwindow⟩, hcarries, hgroups, ⟨σ₁, h₁, htwo⟩, δ, hδ, hone⟩
  have hunseen : Along (apply trusting) (RoutesUnseen 2) m₁ ss₂ := ⟨hcarries, trivial, trivial⟩
  have hfold := routes_fold_eq_snapshot trusting {} {} rfl laboratory ss₂ 2 (founder []) hx rfl
    hwindow (.inr hunseen) (.inl hgroups)
  rcases (hfold.2 rfl).1 with ⟨σ₂, h₂⟩
  exact ⟨hx, hwindow, hunseen, hgroups, σ₁, σ₂, δ, h₁, h₂, hδ, htwo, hone,
    hfold.1 σ₁ σ₂ δ h₁ h₂ hδ⟩

/-- An advertiser is revoked, and a device that folds the delta in keeps it as a candidate; the last
group is deleted, and a device that carried it is not told to stop. -/
theorem routes_fold_stale_after_revocation_and_last_group :
    let m₁ := history trusting laboratory
    (let m₂ := history trusting (laboratory ++ [⟨3, .revokeMembership 2 8⟩]);
      (founder [] ∈ m₂.memberships ∧ m₂.floor 2 ≤ m₁.version 2) ∧
      ∃ σ₁, snapshot {} m₁ 6 = .ok σ₁ ∧ ∃ σ₂, snapshot {} m₂ 6 = .ok σ₂ ∧
        ∃ δ, Builder.for {} m₂ 6 (m₁.version 2) = .ok δ ∧
          ((((({} : Peerset.Set).apply σ₁).apply δ).routeGroups.lookup (idText 13)).map unmapped ≠
            ((({} : Peerset.Set).apply σ₂).routeGroups.lookup (idText 13)).map unmapped)) ∧
    (let m₂ := history trusting (laboratory ++ [⟨3, .deleteRouteGroup 2 "lab"⟩]);
      ((∃ x ∈ m₂.memberships, x.id = 8 ∧ x.networkId = 2 ∧ x.state = .active) ∧
        m₂.floor 2 ≤ m₁.version 2) ∧
      ∃ σ₁, snapshot {} m₁ 8 = .ok σ₁ ∧ ∃ σ₂, snapshot {} m₂ 8 = .ok σ₂ ∧
        ∃ δ, Builder.for {} m₂ 8 (m₁.version 2) = .ok δ ∧
          carried ((({} : Peerset.Set).apply σ₁).apply δ) ≠
            carried (({} : Peerset.Set).apply σ₂)) := by
  decide +kernel

end Meshp.Session
