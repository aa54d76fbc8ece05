import Meshp.Store.History

/-!
# What One Mutation Can Do

Seventeen functions change the mesh, and what an agent is told depends on them
only through a handful of facts: which memberships came or went, whose route
groups were touched, whether a policy was published, and what was logged where.
`Effect` says those facts once, with one constructor per way of changing the mesh,
and every mutation is shown to have one of these effects. The invariants and the
three delta theorems are proved over `Effect` and never look at a mutation again.
-/

namespace Meshp.Store

open Base (bind_eq_ok refuseIf_eq_ok filter_map_eq filter_filter_eq find?_filter_eq nodup_map_concat)
open Netip (Prefix)

/-- A network's groups, what they carry, who advertises for them and how healthy those are, are all
as they were. -/
structure RoutesKept (t t' : Tables) (n : Id) : Prop where
  groups : groupsOf t' n = groupsOf t n
  prefixes : ∀ g ∈ groupsOf t n, t'.routeGroupPrefixes.filter (·.routeGroupId = g.id) =
    t.routeGroupPrefixes.filter (·.routeGroupId = g.id)
  advertisers : ∀ g ∈ groupsOf t n, t'.routeAdvertisers.filter (·.routeGroupId = g.id) =
    t.routeAdvertisers.filter (·.routeGroupId = g.id)
  health : ∀ g ∈ groupsOf t n, ∀ a ∈ t.routeAdvertisers, a.routeGroupId = g.id →
    healthOf t' a.id = healthOf t a.id

/-- The route tables' keys: a group's identifier names one group, an advertiser's one advertiser,
and an advertiser is a membership that exists. -/
structure RouteInv (t : Tables) : Prop where
  groupIds : (t.routeGroups.map RouteGroup.id).Nodup
  groupBelow : ∀ g ∈ t.routeGroups, g.id < t.nextId
  advertiserIds : (t.routeAdvertisers.map RouteAdvertiser.id).Nodup
  advertiserBelow : ∀ a ∈ t.routeAdvertisers, a.id < t.nextId
  prefixGroup : ∀ p ∈ t.routeGroupPrefixes, p.routeGroupId < t.nextId
  advertiserGroup : ∀ a ∈ t.routeAdvertisers, a.routeGroupId < t.nextId
  advertiserMember : ∀ a ∈ t.routeAdvertisers, ∃ x ∈ t.memberships, x.id = a.membershipId

/-- Network `n` carries a prefix, other than to the internet. -/
def Carries (t : Tables) (n : Id) (p : Prefix) : Prop :=
  ∃ g ∈ groupsOf t n, g.kind ≠ .egress ∧
    ∃ r ∈ t.routeGroupPrefixes, r.routeGroupId = g.id ∧ r.network = p

/-- Some bump of a list logs `k` for network `n`. -/
def Bumped (bumps : List (Id × List ChangeKind)) (n : Id) (k : ChangeKind) : Prop :=
  ∃ ks, (n, ks) ∈ bumps ∧ k ∈ ks

structure MembersKept (t t' : Tables) : Prop where
  memberships : t'.memberships = t.memberships
  keys : t'.wireguardKeys = t.wireguardKeys
  devices : t'.devices = t.devices
  allocations : t'.addressAllocations = t.addressAllocations
  nextId : t.nextId ≤ t'.nextId

def ChangeKind.isPeer : ChangeKind → Bool
  | .peerUpsert _ => true
  | .peerRemove _ => true
  | _ => false

def leaveBumps (t : Tables) (x : Membership) : List (Id × List ChangeKind) :=
  (match currentKey t x.id with
    | some key => if key ≠ "" then [(x.networkId, [ChangeKind.peerRemove key])] else []
    | none => []) ++
  if advertises t x.id then routesEverywhere t x.networkId else []

/-- What a mutation can do to the mesh, other than refuse. A constructor that a condition on
histories can rule out says which mutation it comes from. -/
inductive Effect (c : Enroll.Checks) (s : Stamped) (m : Mesh) : Mesh → Prop
  /-- Something no delta carries rows for, or only settings: tokens, names. -/
  | settings (t : Tables) (bumps : List (Id × List ChangeKind))
      (members : MembersKept m.toTables t)
      (routes : t.routeGroups = m.routeGroups ∧ t.routeGroupPrefixes = m.routeGroupPrefixes ∧
        t.routeAdvertisers = m.routeAdvertisers ∧ t.advertiserHealth = m.advertiserHealth)
      (policies : t.aclPolicies = m.aclPolicies)
      (kinds : ∀ n k, Bumped bumps n k → k = .dns)
      (exist : ∀ b ∈ bumps, (m.network? b.1).isSome) :
      Effect c s m (Mesh.recordAll s.now { m with toTables := t } bumps)
  /-- A change to one network's route groups. -/
  | routes (t : Tables) (n : Id) (bumps : List (Id × List ChangeKind))
      (members : MembersKept m.toTables t)
      (inv : RouteInv t)
      (others : ∀ n', n' ≠ n → RoutesKept m.toTables t n')
      (policies : t.aclPolicies = m.aclPolicies)
      (logged : RoutesKept m.toTables t n ∨ Bumped bumps n .routes)
      (named : ∀ g ∈ groupsOf m.toTables n,
        g.id ∈ (groupsOf t n).map RouteGroup.id ∨ Bumped bumps n (.routeGroupRemove g.id))
      (kinds : ∀ n' k, Bumped bumps n' k → k.isPeer = false ∧ k ≠ .policy)
      (exist : ∀ b ∈ bumps, (m.network? b.1).isSome)
      (shared : (∀ n' p, Carries t n' p ↔ Carries m.toTables n' p) ∨
        ∀ n' ∈ networksSharingADeviceWith m.toTables n, Bumped bumps n' .routes) :
      Effect c s m (Mesh.recordAll s.now { m with toTables := t } bumps)
  /-- A policy published for one network. -/
  | policy (n : Id) (doc : Acl.Document) (version : Nat)
      (valid : doc.validate = .ok ())
      (exist : (m.network? n).isSome) :
      Effect c s m (Mesh.recordAll s.now
        { m with
          aclPolicies := (m.aclPolicies.map fun p =>
              if p.networkId = n then { p with isActive := false } else p) ++
            [{ id := m.nextId, networkId := n, version, document := doc, isActive := true }]
          nextId := m.nextId + 1 }
        [(n, [.policy])])
  /-- A device joined a network. -/
  | joined (t : Tables) (x : Membership) (d : Device) (key : Key)
      (wrote : Enroll.Joined m.toTables t x d key)
      (req : Enroll.RedeemRequest) (event : s.event = .redeem req)
      (token : ∃ tok ∈ m.enrollmentTokens, c.hashToken req.token = .ok tok.tokenHash ∧
        x.networkId = tok.networkId ∧ x.tags = tok.preassignedTags)
      (exist : ∀ b ∈ Enroll.joinBumps t x, (m.network? b.1).isSome) :
      Effect c s m (Mesh.recordAll s.now { m with toTables := t } (Enroll.joinBumps t x))
  /-- A membership was revoked. -/
  | revoked (x : Membership) (key : Key)
      (event : s.event = .revokeMembership x.networkId x.id)
      (member : x ∈ m.memberships)
      (hadKey : currentKey m.toTables x.id = some key)
      (exist : (m.network? x.networkId).isSome) :
      Effect c s m (Mesh.recordAll s.now { m with toTables := markRevoked m.toTables x.id }
        [(x.networkId, [.peerRemove key])])
  /-- A device was forgotten. -/
  | forgot (org device : Id)
      (event : s.event = .forgetDevice org device)
      (exist : ∀ b ∈ (m.memberships.filter (·.deviceId = device)).flatMap (leaveBumps m.toTables),
        (m.network? b.1).isSome) :
      Effect c s m (deleteDevice (Mesh.recordAll s.now m
        ((m.memberships.filter (·.deviceId = device)).flatMap (leaveBumps m.toTables))) device)
  /-- A network was created. -/
  | network (t : Tables) (r : Network)
      (members : MembersKept m.toTables t)
      (routes : t.routeGroups = m.routeGroups ∧ t.routeGroupPrefixes = m.routeGroupPrefixes ∧
        t.routeAdvertisers = m.routeAdvertisers ∧ t.advertiserHealth = m.advertiserHealth)
      (policies : t.aclPolicies = m.aclPolicies)
      (start : r.stateVersion = 1 ∧ r.oldestDeltaVersion = 0)
      (fresh : r.id = m.nextId ∧ m.nextId < t.nextId) :
      Effect c s m { toTables := t, networks := m.networks ++ [r], stateChanges := m.stateChanges }
  /-- A network's fail-closed setting changed. -/
  | egress (n : Id) (enforced : Bool) (exist : (m.network? n).isSome) :
      Effect c s m (Mesh.recordAll s.now
        (m.setNetwork n fun r => { r with egressFailClosed := enforced }) [(n, [.tunnel])])
  /-- Old changes were dropped. -/
  | pruned (n : Id) (olderThan : Time) (event : s.event = .pruneNetwork n olderThan) :
      Effect c s m (pruneNetwork m n olderThan)

variable {k : ChangeKind} {n n' : Id} {t : Tables}

theorem bumped_cons {ks : List ChangeKind} {bumps : List (Id × List ChangeKind)} :
    Bumped ((n, ks) :: bumps) n' k ↔ (n' = n ∧ k ∈ ks) ∨ Bumped bumps n' k := by
  unfold Bumped
  constructor
  · rintro ⟨ks', hmem, hk⟩
    rcases List.mem_cons.1 hmem with heq | hmem
    · cases heq
      exact .inl ⟨rfl, hk⟩
    · exact .inr ⟨ks', hmem, hk⟩
  · rintro (⟨rfl, hk⟩ | ⟨ks', hmem, hk⟩)
    · exact ⟨ks, .head _, hk⟩
    · exact ⟨ks', .tail _ hmem, hk⟩

theorem not_bumped_nil : ¬Bumped [] n k := by
  rintro ⟨ks, hmem, _⟩
  cases hmem

theorem bumped_singleton {k₀ : ChangeKind} : Bumped [(n, [k₀])] n' k ↔ n' = n ∧ k = k₀ := by
  rw [bumped_cons, List.mem_singleton]
  exact or_iff_left not_bumped_nil

theorem bumped_map_routes {ns : List Id} (h : Bumped (ns.map fun n => (n, [.routes])) n k) :
    k = .routes := by
  rcases h with ⟨ks, hmem, hk⟩
  rcases List.mem_map.1 hmem with ⟨n', _, heq⟩
  cases heq
  exact List.mem_singleton.1 hk

theorem bumped_map_of_mem {ns : List Id} (h : n ∈ ns) :
    Bumped (ns.map fun n => (n, [ChangeKind.routes])) n .routes :=
  ⟨_, List.mem_map_of_mem h, .head _⟩

theorem bumped_routesEverywhere (h : Bumped (routesEverywhere t n) n' k) : k = .routes := by
  rcases bumped_cons.1 h with ⟨_, hk⟩ | h
  · exact List.mem_singleton.1 hk
  · exact bumped_map_routes h

theorem routes_bumped_everywhere (t : Tables) (n : Id) : Bumped (routesEverywhere t n) n .routes :=
  bumped_cons.2 (.inl ⟨rfl, .head _⟩)

theorem membersKept_refl (t : Tables) : MembersKept t t :=
  ⟨rfl, rfl, rfl, rfl, Nat.le_refl _⟩

theorem networksSharing_of_kept {t' : Tables} (h : MembersKept t t') (n : Id) :
    networksSharingADeviceWith t' n = networksSharingADeviceWith t n := by
  unfold networksSharingADeviceWith
  rw [h.memberships]

theorem routesKept_of_eq {t' : Tables} (n : Id) (hg : t'.routeGroups = t.routeGroups)
    (hp : t'.routeGroupPrefixes = t.routeGroupPrefixes)
    (ha : t'.routeAdvertisers = t.routeAdvertisers) (hh : t'.advertiserHealth = t.advertiserHealth) :
    RoutesKept t t' n where
  groups := by unfold groupsOf; rw [hg]
  prefixes := fun _ _ => by rw [hp]
  advertisers := fun _ _ => by rw [ha]
  health := fun _ _ _ _ _ => by unfold healthOf; rw [hh]

theorem mem_groupsOf {g : RouteGroup} : g ∈ groupsOf t n ↔ g ∈ t.routeGroups ∧ g.networkId = n := by
  unfold groupsOf
  rw [List.mem_filter, decide_eq_true_eq]

theorem RouteInv.id_ne (h : RouteInv t) {g g' : RouteGroup} (hn : n' ≠ n) (hg : g ∈ t.routeGroups)
    (hgn : g.networkId = n) (hg' : g' ∈ groupsOf t n') : g'.id ≠ g.id := by
  intro hid
  rcases mem_groupsOf.1 hg' with ⟨hmem, hnet⟩
  have heq := List.inj_on_of_nodup_map h.groupIds hmem hg hid
  rw [heq, hgn] at hnet
  exact hn hnet.symm

section Effects

variable {c : Enroll.Checks} {s : Stamped} {m m' : Mesh}

variable {slug : String} {n : Id} {t : Tables} {req : AdvertiseRequest}

/-- Nothing is logged. -/
theorem unlogged_effect (members : MembersKept m.toTables t)
    (routes : t.routeGroups = m.routeGroups ∧ t.routeGroupPrefixes = m.routeGroupPrefixes ∧
      t.routeAdvertisers = m.routeAdvertisers ∧ t.advertiserHealth = m.advertiserHealth)
    (policies : t.aclPolicies = m.aclPolicies) : Effect c s m { m with toTables := t } :=
  .settings t [] members routes policies (fun _ _ hb => absurd hb not_bumped_nil) nofun

theorem createOrganization_effect {name : String} (h : createOrganization m slug name = .ok m') :
    Effect c s m m' := by
  unfold createOrganization at h
  split at h
  · cases h
  split at h
  · cases h
  split at h
  · cases h
  cases h
  exact unlogged_effect ⟨rfl, rfl, rfl, rfl, Nat.le_succ _⟩ ⟨rfl, rfl, rfl, rfl⟩ rfl

theorem createPools_ok {t' : Tables} {pools : List Prefix} (h : createPools n t pools = .ok t') :
    ∃ rows next, t' = { t with addressPools := rows, nextId := next } ∧ t.nextId ≤ next := by
  induction pools generalizing t with
  | nil =>
    simp only [createPools, Except.ok.injEq] at h
    exact ⟨t.addressPools, t.nextId, h.symm, Nat.le_refl _⟩
  | cons p ps ih =>
    simp only [createPools] at h
    split at h
    · cases h
    · rcases ih h with ⟨rows, next, rfl, hle⟩
      exact ⟨rows, next, rfl, Nat.le_of_succ_le hle⟩

theorem createNetwork_effect {org : Id} {name : String} {pools : List Prefix}
    (h : createNetwork m org slug name pools = .ok m') : Effect c s m m' := by
  unfold createNetwork at h
  rcases bind_eq_ok.1 h with ⟨_, _, h⟩
  rcases bind_eq_ok.1 h with ⟨_, _, h⟩
  rcases bind_eq_ok.1 h with ⟨_, _, h⟩
  rcases bind_eq_ok.1 h with ⟨t, ht, h⟩
  cases h
  rcases createPools_ok ht with ⟨rows, next, rfl, hle⟩
  exact .network _ _ ⟨rfl, rfl, rfl, rfl, Nat.le_of_succ_le hle⟩ ⟨rfl, rfl, rfl, rfl⟩ rfl ⟨rfl, rfl⟩
    ⟨rfl, hle⟩

theorem createEnrollmentToken_effect {tokenHash : List UInt8} {tags : List String} {maxUses : Nat}
    {expiresAt : Time} (h : createEnrollmentToken m n tokenHash tags maxUses expiresAt = .ok m') :
    Effect c s m m' := by
  unfold createEnrollmentToken at h
  split at h
  · cases h
  split at h
  · cases h
  split at h
  · cases h
  cases h
  exact unlogged_effect ⟨rfl, rfl, rfl, rfl, Nat.le_succ _⟩ ⟨rfl, rfl, rfl, rfl⟩ rfl

theorem redeem_effect {req : Enroll.RedeemRequest} (hs : s.event = .redeem req)
    (h : Enroll.redeem c s.now m req = .ok m') : Effect c s m m' := by
  rcases Enroll.redeem_ok h with ⟨t, x, hjoin, rfl, hex⟩
  rcases Enroll.join_ok hjoin with ⟨d, key, tok, hj, htok, _⟩
  exact .joined t x d key hj req hs ⟨tok, htok⟩ hex

theorem revokeMembership_effect {id : Id} (hs : s.event = .revokeMembership n id)
    (h : revokeMembership s.now m n id = .ok m') : Effect c s m m' := by
  unfold revokeMembership at h
  split at h
  · rename_i x key hx hkey
    rcases Base.of_find? hx with ⟨hmem, rfl, rfl, _⟩
    rcases bumpVersion_ok [.peerRemove key] rfl h with ⟨rfl, hex⟩
    exact .revoked x key hs hmem hkey hex
  · cases h

theorem announceLeaving_ok {x : Membership} (h : announceLeaving s.now m x = .ok m') :
    m' = Mesh.recordAll s.now m (leaveBumps m.toTables x) ∧
      ∀ b ∈ leaveBumps m.toTables x, (m.network? b.1).isSome := by
  unfold announceLeaving at h
  rcases bind_eq_ok.1 h with ⟨m₁, hkey, hroutes⟩
  unfold announceKey at hkey
  -- The key comes first: a removal, unless there is no key to name.
  have hfirst : ∃ bs, m₁ = Mesh.recordAll s.now m bs ∧ (∀ b ∈ bs, (m.network? b.1).isSome) ∧
      leaveBumps m.toTables x =
        bs ++ if advertises m.toTables x.id then routesEverywhere m.toTables x.networkId else [] := by
    unfold leaveBumps
    cases hcur : currentKey m.toTables x.id with
    | none =>
      rw [hcur] at hkey
      cases hkey
      exact ⟨[], rfl, nofun, rfl⟩
    | some key =>
      rw [hcur] at hkey
      by_cases hne : key = ""
      · simp only [hne, ne_eq, not_true_eq_false, if_false] at hkey
        cases hkey
        exact ⟨[], rfl, nofun, by simp [hne]⟩
      · simp only [hne, ne_eq, not_false_eq_true, if_true] at hkey
        rcases bumpVersion_ok [.peerRemove key] rfl hkey with ⟨rfl, hex⟩
        refine ⟨_, rfl, fun b hb => ?_, by simp [hne]⟩
        rw [List.mem_singleton.1 hb]
        exact hex
  rcases hfirst with ⟨bs, rfl, hbs, heq⟩
  rw [heq]
  by_cases hadv : advertises m.toTables x.id
  · rw [Mesh.toTables_recordAll, if_pos hadv] at hroutes
    rcases bumpRoutesEverywhere_ok hroutes with ⟨rfl, hex⟩
    rw [if_pos hadv, Mesh.toTables_recordAll, Mesh.recordAll_append]
    refine ⟨rfl, fun b hb => ?_⟩
    rcases List.mem_append.1 hb with hb | hb
    · exact hbs b hb
    · rw [Mesh.toTables_recordAll] at hex
      have := hex b hb
      rwa [Mesh.isSome_network?_recordAll] at this
  · rw [Mesh.toTables_recordAll, if_neg hadv] at hroutes
    cases hroutes
    rw [if_neg hadv, List.append_nil]
    exact ⟨rfl, hbs⟩

theorem announceAll_ok {xs : List Membership} (h : xs.foldlM (announceLeaving s.now) m = .ok m') :
    m' = Mesh.recordAll s.now m (xs.flatMap (leaveBumps m.toTables)) ∧
      ∀ b ∈ xs.flatMap (leaveBumps m.toTables), (m.network? b.1).isSome := by
  induction xs generalizing m with
  | nil =>
    cases h
    exact ⟨rfl, nofun⟩
  | cons x xs ih =>
    rw [List.foldlM_cons] at h
    rcases bind_eq_ok.1 h with ⟨m₁, h₁, h₂⟩
    rcases announceLeaving_ok h₁ with ⟨rfl, hex₁⟩
    rcases ih h₂ with ⟨rfl, hex₂⟩
    rw [Mesh.toTables_recordAll] at hex₂ ⊢
    rw [List.flatMap_cons, Mesh.recordAll_append]
    refine ⟨rfl, fun b hb => ?_⟩
    rcases List.mem_append.1 hb with hb | hb
    · exact hex₁ b hb
    · have := hex₂ b hb
      rwa [Mesh.isSome_network?_recordAll] at this

theorem forgetDevice_effect {org device : Id} (hs : s.event = .forgetDevice org device)
    (h : forgetDevice s.now m org device = .ok m') : Effect c s m m' := by
  unfold forgetDevice at h
  rcases bind_eq_ok.1 h with ⟨_, _, h⟩
  rcases bind_eq_ok.1 h with ⟨m₁, hall, h⟩
  cases h
  rcases announceAll_ok hall with ⟨rfl, hex⟩
  exact .forgot org device hs hex

theorem publishPolicy_effect {doc : Acl.Document} (h : publishPolicy s.now m n doc = .ok m') :
    Effect c s m m' := by
  unfold publishPolicy at h
  split at h
  · cases h
  rename_i hvalid
  rcases bumpVersion_ok [.policy] rfl h with ⟨rfl, hex⟩
  exact .policy n doc _ hvalid hex

theorem dns_effect
    (h : bumpVersion s.now { m with toTables := t } n [dnsRecordsChanged] = .ok m')
    (members : MembersKept m.toTables t)
    (routes : t.routeGroups = m.routeGroups ∧ t.routeGroupPrefixes = m.routeGroupPrefixes ∧
      t.routeAdvertisers = m.routeAdvertisers ∧ t.advertiserHealth = m.advertiserHealth)
    (policies : t.aclPolicies = m.aclPolicies) : Effect c s m m' := by
  rcases bumpVersion_ok [.dns] rfl h with ⟨rfl, hex⟩
  refine .settings t _ members routes policies (fun n' k hb => ?_) fun b hb => ?_
  · exact (bumped_singleton.1 hb).2
  · rw [List.mem_singleton.1 hb]
    exact hex

theorem createDNSRecord_effect {req : CreateDNSRecordRequest}
    (h : createDNSRecord s.now m req = .ok m') : Effect c s m m' := by
  unfold createDNSRecord at h
  rcases bind_eq_ok.1 h with ⟨_, _, h⟩
  rcases bind_eq_ok.1 h with ⟨⟨type, addr⟩, _, h⟩
  rcases bind_eq_ok.1 h with ⟨_, _, h⟩
  rcases bind_eq_ok.1 h with ⟨_, _, h⟩
  exact dns_effect h ⟨rfl, rfl, rfl, rfl, Nat.le_succ _⟩ ⟨rfl, rfl, rfl, rfl⟩ rfl

theorem deleteDNSRecord_effect {id : Id} (h : deleteDNSRecord s.now m n id = .ok m') :
    Effect c s m m' := by
  unfold deleteDNSRecord at h
  rcases bind_eq_ok.1 h with ⟨_, _, h⟩
  exact dns_effect h ⟨rfl, rfl, rfl, rfl, Nat.le_refl _⟩ ⟨rfl, rfl, rfl, rfl⟩ rfl

theorem effect_refl : Effect c s m m :=
  unlogged_effect (membersKept_refl _) ⟨rfl, rfl, rfl, rfl⟩ rfl

theorem setEgressFailClosed_effect {enforced : Bool}
    (h : setEgressFailClosed s.now m n enforced = .ok m') : Effect c s m m' := by
  unfold setEgressFailClosed at h
  cases hnet : m.network? n with
  | none =>
    rw [hnet] at h
    cases h
  | some r =>
    rw [hnet] at h
    simp only at h
    split at h
    · cases h
    split at h
    · cases h
      exact effect_refl
    · rcases bumpVersion_ok [.tunnel] rfl h with ⟨rfl, _⟩
      exact .egress n enforced (by rw [hnet]; rfl)

theorem routes_effect
    (h : bumpRoutesEverywhere s.now { m with toTables := t } n = .ok m')
    (members : MembersKept m.toTables t) (inv : RouteInv t)
    (others : ∀ n', n' ≠ n → RoutesKept m.toTables t n') (policies : t.aclPolicies = m.aclPolicies)
    (kept : ∀ g ∈ groupsOf m.toTables n, g.id ∈ (groupsOf t n).map RouteGroup.id) :
    Effect c s m m' := by
  rcases bumpRoutesEverywhere_ok h with ⟨rfl, hex⟩
  refine .routes t n _ members inv others policies (.inr (routes_bumped_everywhere _ _))
    (fun g hg => .inl (kept g hg)) (fun n' k hb => ?_) hex (.inr fun n' hn' => ?_)
  · rw [bumped_routesEverywhere hb]
    exact ⟨rfl, nofun⟩
  · rw [← networksSharing_of_kept members] at hn'
    exact bumped_cons.2 (.inr (bumped_map_of_mem hn'))

theorem createRouteGroup_effect {req : CreateRouteGroupRequest} (hinv : RouteInv m.toTables)
    (h : createRouteGroup s.now m req = .ok m') : Effect c s m m' := by
  unfold createRouteGroup at h
  rcases bind_eq_ok.1 h with ⟨_, _, h⟩
  rcases bind_eq_ok.1 h with ⟨kind, _, h⟩
  rcases bind_eq_ok.1 h with ⟨_, _, h⟩
  rcases bind_eq_ok.1 h with ⟨mode, _, h⟩
  rcases bind_eq_ok.1 h with ⟨_, _, h⟩
  refine routes_effect h ⟨rfl, rfl, rfl, rfl, Nat.le_succ _⟩ ?_ (fun n' hn' => ?_) rfl
    (fun g hg => ?_)
  · -- The new group takes the next identifier, which no group had.
    refine ⟨?_, ?_, hinv.advertiserIds, ?_, ?_, ?_, hinv.advertiserMember⟩
    · exact nodup_map_concat hinv.groupIds fun g hg => Nat.ne_of_lt (hinv.groupBelow g hg)
    · intro g hg
      rcases Base.mem_concat.1 hg with hg | rfl
      · exact Nat.lt_succ_of_lt (hinv.groupBelow g hg)
      · exact Nat.lt_succ_self _
    · exact fun a ha => Nat.lt_succ_of_lt (hinv.advertiserBelow a ha)
    · intro p hp
      rcases List.mem_append.1 hp with hp | hp
      · exact Nat.lt_succ_of_lt (hinv.prefixGroup p hp)
      · rcases List.mem_map.1 hp with ⟨q, _, rfl⟩
        exact Nat.lt_succ_self _
    · exact fun a ha => Nat.lt_succ_of_lt (hinv.advertiserGroup a ha)
  · refine ⟨?_, fun g hg => ?_, fun _ _ => rfl, fun _ _ _ _ _ => rfl⟩
    · unfold groupsOf
      rw [List.filter_append]
      simp only [List.filter_cons, hn'.symm, decide_false, Bool.false_eq_true, if_false,
        List.filter_nil, List.append_nil]
    · -- Its prefixes carry its identifier, and no other group's.
      have hlt := hinv.groupBelow g (mem_groupsOf.1 hg).1
      have hnone : (groupPrefixes m.nextId req.prefixes).filter (·.routeGroupId = g.id) = [] := by
        rw [List.filter_eq_nil_iff]
        intro p hp
        rcases List.mem_map.1 hp with ⟨q, _, rfl⟩
        rw [decide_eq_true_eq]
        exact Nat.ne_of_gt hlt
      rw [List.filter_append, hnone, List.append_nil]
  · unfold groupsOf
    rw [List.filter_append, List.map_append]
    exact List.mem_append_left _ (List.mem_map_of_mem hg)

theorem RouteInv.of_sublist {t' : Tables} (h : RouteInv t)
    (hg : t'.routeGroups.Sublist t.routeGroups)
    (hp : t'.routeGroupPrefixes.Sublist t.routeGroupPrefixes)
    (ha : t'.routeAdvertisers.Sublist t.routeAdvertisers) (hn : t.nextId ≤ t'.nextId)
    (hm : ∀ a ∈ t'.routeAdvertisers, ∃ x ∈ t'.memberships, x.id = a.membershipId) :
    RouteInv t' where
  groupIds := h.groupIds.sublist (hg.map _)
  groupBelow := fun g hg' => Nat.lt_of_lt_of_le (h.groupBelow g (hg.subset hg')) hn
  advertiserIds := h.advertiserIds.sublist (ha.map _)
  advertiserBelow := fun a ha' => Nat.lt_of_lt_of_le (h.advertiserBelow a (ha.subset ha')) hn
  prefixGroup := fun p hp' => Nat.lt_of_lt_of_le (h.prefixGroup p (hp.subset hp')) hn
  advertiserGroup := fun a ha' => Nat.lt_of_lt_of_le (h.advertiserGroup a (ha.subset ha')) hn
  advertiserMember := hm

theorem healthOf_deleteAdvertisers (hinv : RouteInv t) (gone : RouteAdvertiser → Bool)
    {a : RouteAdvertiser} (ha : a ∈ t.routeAdvertisers) (hstay : gone a = false) :
    healthOf (deleteAdvertisers t gone) a.id = healthOf t a.id := by
  unfold healthOf deleteAdvertisers
  rw [find?_filter_eq]
  intro h _ hid
  rw [decide_eq_true_eq] at hid
  rw [Bool.not_eq_true', List.contains_eq_mem, decide_eq_false_iff_not, List.mem_map]
  rintro ⟨b, hb, heq⟩
  rcases List.mem_filter.1 hb with ⟨hmem, hgone⟩
  -- A deleted advertiser with this identifier would be this very row.
  have hab := List.inj_on_of_nodup_map hinv.advertiserIds hmem ha (heq.trans hid)
  rw [hab, hstay] at hgone
  cases hgone

theorem advertisers_deleteAdvertisers (gone : RouteAdvertiser → Bool) {group : Id}
    (hstay : ∀ a ∈ t.routeAdvertisers, a.routeGroupId = group → gone a = false) :
    (deleteAdvertisers t gone).routeAdvertisers.filter (·.routeGroupId = group) =
      t.routeAdvertisers.filter (·.routeGroupId = group) := by
  refine filter_filter_eq _ fun a ha hgroup => ?_
  rw [decide_eq_true_eq] at hgroup
  rw [hstay a ha hgroup]
  rfl

theorem routeGroupBySlug_ok {g : RouteGroup} (h : routeGroupBySlug t n slug = .ok g) :
    g ∈ t.routeGroups ∧ g.networkId = n := by
  unfold routeGroupBySlug at h
  split at h
  · rename_i g' hfind
    cases h
    obtain ⟨hmem, hn, _⟩ := Base.of_find? hfind
    exact ⟨hmem, hn⟩
  · cases h

theorem upsertAdvertiser_rest (t : Tables) (group : Id) (req : AdvertiseRequest)
    (admin : AdminState) :
    let t' := upsertAdvertiser t group req admin
    MembersKept t t' ∧ t'.routeGroups = t.routeGroups ∧
      t'.routeGroupPrefixes = t.routeGroupPrefixes ∧ t'.advertiserHealth = t.advertiserHealth ∧
      t'.aclPolicies = t.aclPolicies := by
  unfold upsertAdvertiser
  split
  · exact ⟨⟨rfl, rfl, rfl, rfl, Nat.le_refl _⟩, rfl, rfl, rfl, rfl⟩
  · exact ⟨⟨rfl, rfl, rfl, rfl, Nat.le_succ _⟩, rfl, rfl, rfl, rfl⟩

theorem advertisers_upsertAdvertiser {group group' : Id} {admin : AdminState} (hne : group' ≠ group) :
    (upsertAdvertiser t group req admin).routeAdvertisers.filter (·.routeGroupId = group') =
      t.routeAdvertisers.filter (·.routeGroupId = group') := by
  unfold upsertAdvertiser
  split
  · refine filter_map_eq _ (fun a _ => ?_) fun a _ ha => ?_
    · split
      · rename_i hrow
        exact congrArg (fun id => decide (id = group')) hrow.1.symm
      · rfl
    · rw [decide_eq_true_eq] at ha
      rw [if_neg]
      rintro ⟨hgroup, _⟩
      exact hne (ha.symm.trans hgroup)
  · have hrow : (advertiserRow group req admin t.nextId).routeGroupId ≠ group' := hne.symm
    rw [List.filter_append, List.filter_singleton, decide_eq_false hrow]
    exact List.append_nil _

theorem routeInv_upsertAdvertiser (hinv : RouteInv t) {group : RouteGroup}
    (hgroup : group ∈ t.routeGroups) {admin : AdminState}
    (hmember : ∃ x ∈ t.memberships, x.id = req.membershipId) :
    RouteInv (upsertAdvertiser t group.id req admin) := by
  unfold upsertAdvertiser
  split
  · -- Editing keeps every row's identifier, group and membership.
    refine { hinv with
      advertiserIds := ?_, advertiserBelow := ?_, advertiserGroup := ?_, advertiserMember := ?_ }
    · rw [List.map_map]
      convert hinv.advertiserIds using 2
      funext a
      simp only [Function.comp_apply]
      split <;> rfl
    · intro a ha
      rcases List.mem_map.1 ha with ⟨b, hb, rfl⟩
      have hlt := hinv.advertiserBelow b hb
      split <;> exact hlt
    · intro a ha
      rcases List.mem_map.1 ha with ⟨b, hb, rfl⟩
      split
      · exact hinv.groupBelow group hgroup
      · exact hinv.advertiserGroup b hb
    · intro a ha
      rcases List.mem_map.1 ha with ⟨b, hb, rfl⟩
      split
      · exact hmember
      · exact hinv.advertiserMember b hb
  · refine ⟨hinv.groupIds, fun g hg => Nat.lt_succ_of_lt (hinv.groupBelow g hg),
      nodup_map_concat hinv.advertiserIds fun a ha => Nat.ne_of_lt (hinv.advertiserBelow a ha),
      ?_, fun p hp => Nat.lt_succ_of_lt (hinv.prefixGroup p hp), ?_, ?_⟩
    · intro a ha
      rcases Base.mem_concat.1 ha with ha | rfl
      · exact Nat.lt_succ_of_lt (hinv.advertiserBelow a ha)
      · exact Nat.lt_succ_self _
    · intro a ha
      rcases Base.mem_concat.1 ha with ha | rfl
      · exact Nat.lt_succ_of_lt (hinv.advertiserGroup a ha)
      · exact Nat.lt_succ_of_lt (hinv.groupBelow group hgroup)
    · intro a ha
      rcases Base.mem_concat.1 ha with ha | rfl
      · exact hinv.advertiserMember a ha
      · exact hmember

theorem advertise_effect (hinv : RouteInv m.toTables) (h : advertise s.now m req = .ok m') :
    Effect c s m m' := by
  unfold advertise at h
  rcases bind_eq_ok.1 h with ⟨admin, _, h⟩
  rcases bind_eq_ok.1 h with ⟨group, hgroup, h⟩
  rcases bind_eq_ok.1 h with ⟨_, hmember, h⟩
  rcases routeGroupBySlug_ok hgroup with ⟨hmem, hnet⟩
  have hmember : ∃ x ∈ m.memberships, x.id = req.membershipId := by
    have := refuseIf_eq_ok.1 hmember
    push Not at this
    exact this
  have hsame := upsertAdvertiser_rest m.toTables group.id req admin
  refine routes_effect h ?_ (routeInv_upsertAdvertiser hinv hmem hmember) (fun n' hn' => ?_) ?_ ?_
  · exact hsame.1
  · refine ⟨?_, fun g _ => by rw [hsame.2.2.1], fun g hg => ?_, fun g _ a _ _ => ?_⟩
    · unfold groupsOf
      rw [hsame.2.1]
    · exact advertisers_upsertAdvertiser (hinv.id_ne hn' hmem hnet hg)
    · unfold healthOf
      rw [hsame.2.2.2.1]
  · exact hsame.2.2.2.2
  · intro g hg
    unfold groupsOf
    rw [hsame.2.1]
    exact List.mem_map_of_mem hg

theorem withdraw_effect {membership : Id} (hinv : RouteInv m.toTables)
    (h : withdraw s.now m n slug membership = .ok m') : Effect c s m m' := by
  unfold withdraw at h
  rcases bind_eq_ok.1 h with ⟨group, hgroup, h⟩
  rcases bind_eq_ok.1 h with ⟨_, _, h⟩
  rcases routeGroupBySlug_ok hgroup with ⟨hmem, hnet⟩
  -- Only rows of the group it names go, and that group is this network's.
  have hstay : ∀ n', n' ≠ n → ∀ g ∈ groupsOf m.toTables n', ∀ a : RouteAdvertiser,
      a.routeGroupId = g.id →
      decide (a.routeGroupId = group.id ∧ a.membershipId = membership) = false := by
    intro n' hn' g hg a ha
    rw [decide_eq_false_iff_not]
    rintro ⟨hid, _⟩
    exact hinv.id_ne hn' hmem hnet hg (ha.symm.trans hid)
  refine routes_effect h ⟨rfl, rfl, rfl, rfl, Nat.le_refl _⟩ ?_ (fun n' hn' => ?_) rfl
    (fun g hg => List.mem_map_of_mem hg)
  · exact hinv.of_sublist (.refl _) (.refl _) List.filter_sublist (Nat.le_refl _)
      fun a ha => hinv.advertiserMember a (List.mem_of_mem_filter ha)
  · exact ⟨rfl, fun _ _ => rfl,
      fun g hg => advertisers_deleteAdvertisers _ fun a _ ha => hstay n' hn' g hg a ha,
      fun g hg a ha hag => healthOf_deleteAdvertisers hinv _ ha (hstay n' hn' g hg a hag)⟩

theorem mapM_routeGroupRemoved (ids : List Id) :
    (routesChanged :: ids.map routeGroupRemoved).mapM Change.kind =
      .ok (.routes :: ids.map .routeGroupRemove) := by
  have hids : (ids.map routeGroupRemoved).mapM Change.kind =
      Except.ok (ids.map .routeGroupRemove) := by
    induction ids with
    | nil => rfl
    | cons id ids ih =>
      rw [List.map_cons, List.mapM_cons, ih]
      rfl
  rw [List.mapM_cons, hids]
  rfl

theorem deleteRouteGroup_effect (hinv : RouteInv m.toTables)
    (h : deleteRouteGroup s.now m n slug = .ok m') : Effect c s m m' := by
  unfold deleteRouteGroup at h
  rcases bind_eq_ok.1 h with ⟨_, _, h⟩
  rcases bind_eq_ok.1 h with ⟨m₁, hbump, hshared⟩
  set ids := (m.routeGroups.filter fun g => g.networkId = n ∧ g.slug = slug).map RouteGroup.id
    with hids
  rcases bumpVersion_ok (.routes :: ids.map .routeGroupRemove) (mapM_routeGroupRemoved ids) hbump
    with ⟨rfl, hex⟩
  rcases bumpRoutes_ok hshared with ⟨rfl, hexs⟩
  have hgone : ∀ id ∈ ids, ∃ g ∈ m.routeGroups, g.networkId = n ∧ g.id = id := by
    intro id hid
    rcases List.mem_map.1 hid with ⟨g, hg, rfl⟩
    rcases List.mem_filter.1 hg with ⟨hmem, hp⟩
    rw [decide_eq_true_eq] at hp
    exact ⟨g, hmem, hp.1, rfl⟩
  have hother : ∀ n', n' ≠ n → ∀ g ∈ groupsOf m.toTables n', g.id ∉ ids := by
    intro n' hn' g hg hid
    rcases hgone g.id hid with ⟨g', hmem, hnet, heq⟩
    exact hinv.id_ne hn' hmem hnet hg heq.symm
  rw [← Mesh.recordAll_append, Mesh.toTables_recordAll, List.singleton_append]
  refine .routes (deleteGroups m.toTables ids) n _ ⟨rfl, rfl, rfl, rfl, Nat.le_refl _⟩ ?_
    (fun n' hn' => ?_) rfl (.inr (bumped_cons.2 (.inl ⟨rfl, .head _⟩)))
    (fun g hg => ?_) (fun n' k hb => ?_) (fun b hb => ?_)
    (.inr fun n' hn' => bumped_cons.2 (.inr (bumped_map_of_mem hn')))
  · exact hinv.of_sublist List.filter_sublist List.filter_sublist List.filter_sublist
      (Nat.le_refl _) fun a ha => hinv.advertiserMember a (List.mem_of_mem_filter ha)
  · -- Another network's groups are none of these, so nothing of theirs goes.
    have hno := hother n' hn'
    refine ⟨?_, fun g hg => ?_, fun g hg => ?_, fun g hg a ha hag => ?_⟩
    · refine filter_filter_eq _ fun g hg hnet => ?_
      have := hno g (mem_groupsOf.2 ⟨hg, by simpa using hnet⟩)
      simpa using this
    · refine filter_filter_eq _ fun p _ hp => ?_
      rw [decide_eq_true_eq] at hp
      simpa [hp] using hno g hg
    · refine advertisers_deleteAdvertisers _ fun a _ ha => ?_
      simpa [ha] using hno g hg
    · refine healthOf_deleteAdvertisers hinv _ ha ?_
      simpa [hag] using hno g hg
  · by_cases hid : g.id ∈ ids
    · refine .inr (bumped_cons.2 (.inl ⟨rfl, .tail _ ?_⟩))
      exact List.mem_map_of_mem hid
    · refine .inl (List.mem_map_of_mem (mem_groupsOf.2 ⟨?_, (mem_groupsOf.1 hg).2⟩))
      exact List.mem_filter.2 ⟨(mem_groupsOf.1 hg).1, by simpa using hid⟩
  · rcases bumped_cons.1 hb with ⟨_, hk⟩ | hb
    · rcases List.mem_cons.1 hk with rfl | hk
      · exact ⟨rfl, nofun⟩
      · rcases List.mem_map.1 hk with ⟨id, _, rfl⟩
        exact ⟨rfl, nofun⟩
    · rw [bumped_map_routes hb]
      exact ⟨rfl, nofun⟩
  · rcases List.mem_cons.1 hb with rfl | hb
    · exact hex
    · rcases List.mem_map.1 hb with ⟨n', hn', rfl⟩
      have := hexs n' hn'
      rw [Mesh.isSome_network?_recordAll] at this
      exact this

theorem setRouteGroupFailover_effect {policy : FailoverPolicy} (hinv : RouteInv m.toTables)
    (h : setRouteGroupFailover s.now m n slug policy = .ok m') : Effect c s m m' := by
  unfold setRouteGroupFailover at h
  rcases bind_eq_ok.1 h with ⟨_, _, h⟩
  rcases bind_eq_ok.1 h with ⟨_, _, h⟩
  -- Rewriting a group's policy keeps its identifier and its network.
  have hid : ∀ g : RouteGroup, (if g.networkId = n ∧ g.slug = slug then
      { g with localFailover := policy } else g).id = g.id := by
    intro g
    split <;> rfl
  have hnet : ∀ g : RouteGroup, (if g.networkId = n ∧ g.slug = slug then
      { g with localFailover := policy } else g).networkId = g.networkId := by
    intro g
    split <;> rfl
  refine routes_effect h ⟨rfl, rfl, rfl, rfl, Nat.le_refl _⟩ ?_ (fun n' hn' => ?_) rfl
    (fun g hg => ?_)
  · refine { hinv with groupIds := ?_, groupBelow := ?_ }
    · rw [List.map_map]
      convert hinv.groupIds using 2
      funext g
      exact hid g
    · intro g hg
      rcases List.mem_map.1 hg with ⟨g', hg', rfl⟩
      rw [hid]
      exact hinv.groupBelow g' hg'
  · refine ⟨?_, fun _ _ => rfl, fun _ _ => rfl, fun _ _ _ _ _ => rfl⟩
    refine filter_map_eq _ (fun g _ => ?_) fun g _ hg => ?_
    · rw [hnet]
    · rw [decide_eq_true_eq] at hg
      rw [if_neg]
      rintro ⟨hgn, _⟩
      exact hn' (hg.symm.trans hgn)
  · rcases mem_groupsOf.1 hg with ⟨hmem, hgn⟩
    rw [← hid g]
    refine List.mem_map_of_mem (mem_groupsOf.2 ⟨List.mem_map_of_mem hmem, ?_⟩)
    rw [hnet, hgn]

theorem healthOf_putHealth (t : Tables) (advertiser a : Id) (state : HealthState) :
    healthOf (putHealth t advertiser state) a =
      if a = advertiser then state else healthOf t a := by
  unfold healthOf putHealth
  by_cases h : a = advertiser
  · simp only [h, List.find?_cons, decide_true, if_true, Option.map_some, Option.getD_some]
  · have hne : advertiser ≠ a := fun heq => h heq.symm
    simp only [List.find?_cons, hne, decide_false, if_neg h]
    rw [find?_filter_eq]
    intro r _ hr
    rw [decide_eq_true_eq] at hr ⊢
    rwa [hr]

theorem observeAdvertiser_effect {advertiser : Id} {concluded : HealthState}
    (hinv : RouteInv m.toTables) (h : observeAdvertiser s.now m n advertiser concluded = .ok m') :
    Effect c s m m' := by
  unfold observeAdvertiser at h
  split at h
  · cases h
  rename_i a hfind
  obtain ⟨hmem, haid⟩ := Base.of_find? hfind
  split at h
  · cases h
  rename_i hgroup
  have hgroup : ∃ g ∈ m.routeGroups, g.id = a.routeGroupId ∧ g.networkId = n := by
    simpa using hgroup
  rcases hgroup with ⟨g, hg, hgid, hgnet⟩
  have hinv' : RouteInv (putHealth m.toTables advertiser concluded) :=
    { hinv with }
  have hother : ∀ n', n' ≠ n →
      RoutesKept m.toTables (putHealth m.toTables advertiser concluded) n' := by
    intro n' hn'
    refine ⟨rfl, fun _ _ => rfl, fun _ _ => rfl, fun g' hg' b hb hbg => ?_⟩
    rw [healthOf_putHealth, if_neg]
    intro hid
    have hab := List.inj_on_of_nodup_map hinv.advertiserIds hb hmem (hid.trans haid.symm)
    rw [hab] at hbg
    exact hinv.id_ne hn' hg hgnet hg' (hbg.symm.trans hgid.symm)
  split at h
  · rename_i hsame
    cases h
    refine .routes _ n [] ⟨rfl, rfl, rfl, rfl, Nat.le_refl _⟩ hinv' hother rfl (.inl ?_)
      (fun g hg => .inl (List.mem_map_of_mem hg)) (fun _ _ hb => absurd hb not_bumped_nil)
      nofun (.inl fun _ _ => Iff.rfl)
    refine ⟨rfl, fun _ _ => rfl, fun _ _ => rfl, fun g' _ b _ _ => ?_⟩
    rw [healthOf_putHealth]
    split
    · rename_i hid
      rw [hid, hsame]
    · rfl
  · rcases bumpVersion_ok [.routes] rfl h with ⟨rfl, hex⟩
    refine .routes _ n _ ⟨rfl, rfl, rfl, rfl, Nat.le_refl _⟩ hinv' hother rfl
      (.inr (bumped_cons.2 (.inl ⟨rfl, .head _⟩)))
      (fun g hg => .inl (List.mem_map_of_mem hg)) (fun n' k hb => ?_) (fun b hb => ?_)
      (.inl fun _ _ => Iff.rfl)
    · rw [(bumped_singleton.1 hb).2]
      exact ⟨rfl, nofun⟩
    · rw [List.mem_singleton.1 hb]
      exact hex

theorem mutate_effect (hinv : RouteInv m.toTables)
    (h : mutate c s m = .ok m') : Effect c s m m' := by
  unfold mutate at h
  split at h
  · exact createOrganization_effect h
  · exact createNetwork_effect h
  · exact createEnrollmentToken_effect h
  · exact redeem_effect ‹_› h
  · exact revokeMembership_effect ‹_› h
  · exact forgetDevice_effect ‹_› h
  · exact publishPolicy_effect h
  · exact createRouteGroup_effect hinv h
  · exact advertise_effect hinv h
  · exact withdraw_effect hinv h
  · exact deleteRouteGroup_effect hinv h
  · exact setRouteGroupFailover_effect hinv h
  · exact setEgressFailClosed_effect h
  · exact createDNSRecord_effect h
  · exact deleteDNSRecord_effect h
  · exact observeAdvertiser_effect hinv h
  · cases h
    exact .pruned _ _ ‹_›

theorem apply_effect (hinv : RouteInv m.toTables) :
    Effect c s m (apply c m s) :=
  Base.attempt_inv (Effect c s m) _ m (fun _ h => mutate_effect hinv h) effect_refl

end Effects

end Meshp.Store
