import Meshp.Store.Invariant

/-!
# Whose Network a Device Is In

A network belongs to an organisation and so does a device, and nothing in the
schema says that the two organisations of a membership are one. A device is found
by its identity key, wherever it was first enrolled, and joins the network of
whatever token it holds.
-/

namespace Meshp.Store

open Base (bind_eq_ok)
open Netip (Prefix)

def Mesh.titles (m : Mesh) : List (Id × Id × Option Time) :=
  m.networks.map fun r => (r.id, r.organizationId, r.deletedAt)

/-- Network `n` is there and is organisation `org`'s. -/
def Mesh.Owned (m : Mesh) (n org : Id) : Prop :=
  (n, org, none) ∈ m.titles

theorem Mesh.titles_setNetwork (m : Mesh) (n : Id) (f : Network → Network)
    (hf : ∀ r, (f r).id = r.id ∧ (f r).organizationId = r.organizationId ∧
      (f r).deletedAt = r.deletedAt) : (m.setNetwork n f).titles = m.titles := by
  unfold Mesh.titles Mesh.setNetwork
  rw [List.map_map]
  refine List.map_congr_left fun r _ => ?_
  rcases hf r with ⟨hid, horg, hdel⟩
  simp only [Function.comp_apply]
  split
  · rw [hid, horg, hdel]
  · rfl

theorem Mesh.titles_recordAll (now : Time) (m : Mesh) (bumps : List (Id × List ChangeKind)) :
    (Mesh.recordAll now m bumps).titles = m.titles := by
  induction bumps generalizing m with
  | nil => rfl
  | cons b bumps ih =>
    rw [Mesh.recordAll_cons, ih]
    exact Mesh.titles_setNetwork m b.1 _ fun _ => ⟨rfl, rfl, rfl⟩

theorem Mesh.Owned.exists_row {m : Mesh} {n org : Id} (h : m.Owned n org) :
    ∃ r ∈ m.networks, r.id = n ∧ r.organizationId = org ∧ r.deletedAt = none := by
  rcases List.mem_map.1 h with ⟨r, hr, heq⟩
  simp only [Prod.mk.injEq] at heq
  exact ⟨r, hr, heq⟩

theorem Mesh.Owned.unique {m : Mesh} (hids : m.NetworkIds) {n org org' : Id} (h : m.Owned n org)
    (h' : m.Owned n org') : org = org' := by
  rcases h.exists_row with ⟨r, hr, hid, horg, _⟩
  rcases h'.exists_row with ⟨r', hr', hid', horg', _⟩
  rw [← horg, ← horg', List.inj_on_of_nodup_map hids.1 hr hr' (hid.trans hid'.symm)]

/-- What a mutation can do to who holds what. Wherever something is added, the mutation that adds it
is named. -/
structure Placed (c : Enroll.Checks) (s : Stamped) (m m' : Mesh) : Prop where
  titles : m'.titles = m.titles ∨ ∃ org slug name pools,
    s.event = .createNetwork org slug name pools ∧
      m'.titles = m.titles ++ [(m.nextId, org, none)]
  pools : ∀ p ∈ m'.addressPools, p ∈ m.addressPools ∨ ∃ org slug name pools,
    s.event = .createNetwork org slug name pools ∧ p.networkId = m.nextId ∧
      m.nextId < m'.nextId ∧ ∃ q ∈ pools, q.masked = p.network
  tokens : ∀ tok ∈ m'.enrollmentTokens,
    (∃ old ∈ m.enrollmentTokens, old.networkId = tok.networkId ∧
      old.organizationId = tok.organizationId) ∨
    ∃ r ∈ m.networks, r.id = tok.networkId ∧ r.organizationId = tok.organizationId
  devices : ∀ d ∈ m'.devices, d ∈ m.devices ∨ d.id = m.nextId
  members : ∀ x ∈ m'.memberships,
    (∃ y ∈ m.memberships, y.deviceId = x.deviceId ∧ y.networkId = x.networkId) ∨
    ∃ req tok d, s.event = .redeem req ∧ tok ∈ m.enrollmentTokens ∧
      c.hashToken req.token = .ok tok.tokenHash ∧ x.deviceId = d.id ∧
      x.networkId = tok.networkId ∧ d ∈ m'.devices ∧
      ((d ∈ m.devices ∧ d.identityPublicKey = req.identityPublicKey) ∨
        d.organizationId = tok.organizationId)
  carries : ∀ n p, Carries m'.toTables n p → Carries m.toTables n p ∨ ∃ req,
    s.event = .createRouteGroup req ∧ n = req.networkId ∧ (m.network? n).isSome ∧
      ∃ q ∈ req.prefixes, q.masked = p

structure NothingPlaced (t t' : Tables) : Prop where
  pools : t'.addressPools = t.addressPools
  tokens : t'.enrollmentTokens = t.enrollmentTokens
  devices : ∀ d ∈ t'.devices, d ∈ t.devices
  members : ∀ x ∈ t'.memberships,
    ∃ y ∈ t.memberships, y.deviceId = x.deviceId ∧ y.networkId = x.networkId
  carries : ∀ n p, Carries t' n p → Carries t n p

section Mutations

variable {c : Enroll.Checks} {s : Stamped} {m m' : Mesh} {t : Tables}

theorem NothingPlaced.placed (h : NothingPlaced m.toTables m'.toTables)
    (ht : m'.titles = m.titles) : Placed c s m m' where
  titles := .inl ht
  pools := fun _ hp => .inl (h.pools ▸ hp)
  tokens := fun tok htok => .inl ⟨tok, h.tokens ▸ htok, rfl, rfl⟩
  devices := fun d hd => .inl (h.devices d hd)
  members := fun x hx => .inl (h.members x hx)
  carries := fun n p hp => .inl (h.carries n p hp)

/-- What is logged is nothing to who holds what. -/
theorem Placed.recorded (h : Placed c s m m') (bumps : List (Id × List ChangeKind)) :
    Placed c s m (Mesh.recordAll s.now m' bumps) := by
  have htables := Mesh.toTables_recordAll s.now m' bumps
  constructor
  · rw [Mesh.titles_recordAll]
    exact h.titles
  all_goals rw [htables]
  · exact h.pools
  · exact h.tokens
  · exact h.devices
  · exact h.members
  · exact h.carries

theorem NothingPlaced.recorded (h : NothingPlaced m.toTables t)
    {bumps : List (Id × List ChangeKind)} :
    Placed c s m (Mesh.recordAll s.now { m with toTables := t } bumps) := by
  refine Placed.recorded ?_ bumps
  exact NothingPlaced.placed h rfl

variable {t' : Tables} {n org : Id}

theorem nothingPlaced_of_eq {t : Tables} (hp : t'.addressPools = t.addressPools)
    (ht : t'.enrollmentTokens = t.enrollmentTokens) (hd : t'.devices = t.devices)
    (hm : t'.memberships = t.memberships) (hg : t'.routeGroups = t.routeGroups)
    (hr : t'.routeGroupPrefixes = t.routeGroupPrefixes) : NothingPlaced t t' where
  pools := hp
  tokens := ht
  devices := fun _ h => hd ▸ h
  members := fun x h => ⟨x, hm ▸ h, rfl, rfl⟩
  carries := fun n p h => by
    unfold Carries groupsOf at h
    rw [hg, hr] at h
    exact h

theorem nothingPlaced_refl (t : Tables) : NothingPlaced t t :=
  nothingPlaced_of_eq rfl rfl rfl rfl rfl rfl

theorem placed_refl (m : Mesh) : Placed c s m m :=
  NothingPlaced.placed (nothingPlaced_refl _) rfl

theorem createPools_pools {t : Tables} {pools : List Prefix} (h : createPools n t pools = .ok t')
    {p : AddressPool} (hp : p ∈ t'.addressPools) :
    p ∈ t.addressPools ∨ p.networkId = n ∧ ∃ q ∈ pools, q.masked = p.network := by
  induction pools generalizing t with
  | nil =>
    cases h
    exact .inl hp
  | cons q qs ih =>
    simp only [createPools] at h
    split at h
    · cases h
    rcases ih h with hold | ⟨hn, q', hq', heq⟩
    · rcases Base.mem_concat.1 hold with hold | rfl
      · exact .inl hold
      · exact .inr ⟨rfl, q, .head _, rfl⟩
    · exact .inr ⟨hn, q', .tail _ hq', heq⟩

theorem createNetwork_placed {slug name : String} {pools : List Prefix}
    (hs : s.event = .createNetwork org slug name pools)
    (h : createNetwork m org slug name pools = .ok m') : Placed c s m m' := by
  unfold createNetwork at h
  rcases bind_eq_ok.1 h with ⟨_, _, h⟩
  rcases bind_eq_ok.1 h with ⟨_, _, h⟩
  rcases bind_eq_ok.1 h with ⟨_, _, h⟩
  rcases bind_eq_ok.1 h with ⟨t, ht, h⟩
  cases h
  have hpools := fun p hp => createPools_pools (p := p) ht hp
  rcases createPools_ok ht with ⟨rows, next, rfl, hnext⟩
  refine { placed_refl m with titles := .inr ⟨org, slug, name, pools, hs, ?_⟩, pools := fun p hp => ?_ }
  · unfold Mesh.titles
    rw [List.map_append, List.map_singleton]
  · rcases hpools p hp with hold | ⟨hn, hq⟩
    · exact .inl hold
    · exact .inr ⟨org, slug, name, pools, hs, hn, hnext, hq⟩

theorem createEnrollmentToken_placed {tokenHash : List UInt8} {tags : List String} {maxUses : Nat}
    {expiresAt : Time} (h : createEnrollmentToken m n tokenHash tags maxUses expiresAt = .ok m') :
    Placed c s m m' := by
  unfold createEnrollmentToken at h
  split at h
  · cases h
  rename_i r hr
  split at h
  · cases h
  split at h
  · cases h
  cases h
  refine { placed_refl m with pools := fun _ hp => .inl hp, tokens := fun tok htok => ?_ }
  rcases Base.mem_concat.1 htok with hold | rfl
  · exact .inl ⟨tok, hold, rfl, rfl⟩
  · obtain ⟨hmem, hid⟩ := Base.of_find? hr
    exact .inr ⟨r, hmem, hid, rfl⟩

theorem mem_consumeToken {t : Tables} {tok old : EnrollmentToken}
    (h : tok ∈ (Enroll.consumeToken t old).enrollmentTokens) :
    ∃ tok' ∈ t.enrollmentTokens, tok'.networkId = tok.networkId ∧
      tok'.organizationId = tok.organizationId := by
  rcases List.mem_map.1 h with ⟨tok', hmem, rfl⟩
  refine ⟨tok', hmem, ?_⟩
  split <;> exact ⟨rfl, rfl⟩

theorem redeem_placed {req : Enroll.RedeemRequest} (hs : s.event = .redeem req)
    (h : Enroll.redeem c s.now m req = .ok m') : Placed c s m m' := by
  rcases Enroll.redeem_ok h with ⟨t, x, hjoin, rfl, _⟩
  rcases Enroll.join_ok hjoin with
    ⟨d, key, tok, hj, ⟨htok, hhash, hnet, _⟩, ⟨htokens, horg⟩, _⟩
  refine Placed.recorded ?_ _
  refine ⟨.inl rfl, fun p hp => .inl ?_, fun tok' htok' => .inl (mem_consumeToken (htokens ▸ htok')),
    fun d' hd' => ?_, fun y hy => ?_, fun n p hp => .inl ?_⟩
  · rw [hj.rest] at hp
    exact hp
  · rcases hj.devices with ⟨heq, _⟩ | ⟨heq, hid, _⟩
    · exact .inl (heq ▸ hd')
    · rcases Base.mem_concat.1 (heq ▸ hd') with hold | rfl
      · exact .inl hold
      · exact .inr hid
  · have hd : d ∈ t.devices := by
      rcases hj.devices with ⟨heq, hold⟩ | ⟨heq, _⟩
      · exact heq ▸ hold
      · exact heq ▸ List.mem_concat_self
    rcases Base.mem_concat.1 (hj.memberships ▸ hy) with hy | rfl
    · exact .inl ⟨y, hy, rfl, rfl⟩
    · exact .inr ⟨req, tok, d, hs, htok, hhash, hj.deviceId, hnet, hd, horg⟩
  · unfold Carries groupsOf at hp ⊢
    rw [hj.rest] at hp
    exact hp

theorem createRouteGroup_placed {req : CreateRouteGroupRequest} (hinv : RouteInv m.toTables)
    (hs : s.event = .createRouteGroup req) (h : createRouteGroup s.now m req = .ok m') :
    Placed c s m m' := by
  unfold createRouteGroup at h
  rcases bind_eq_ok.1 h with ⟨_, _, h⟩
  rcases bind_eq_ok.1 h with ⟨kind, _, h⟩
  rcases bind_eq_ok.1 h with ⟨_, _, h⟩
  rcases bind_eq_ok.1 h with ⟨mode, _, h⟩
  rcases bind_eq_ok.1 h with ⟨_, _, h⟩
  rcases bumpRoutesEverywhere_ok h with ⟨rfl, hexist⟩
  have hnetwork : (m.network? req.networkId).isSome := hexist _ (.head _)
  refine Placed.recorded ?_ _
  refine { placed_refl m with pools := fun _ hp => .inl hp, carries := fun n p hp => ?_ }
  rcases hp with ⟨g, hg, hkind, r, hr, hid, rfl⟩
  rcases mem_groupsOf.1 hg with ⟨hg, hn⟩
  rcases List.mem_append.1 hg with hg | hg
  · rcases List.mem_append.1 hr with hr | hr
    · exact .inl ⟨g, mem_groupsOf.2 ⟨hg, hn⟩, hkind, r, hr, hid, rfl⟩
    · -- The new rows carry an identifier no group had.
      rcases List.mem_map.1 hr with ⟨q, _, rfl⟩
      exact absurd hid.symm (Nat.ne_of_lt (hinv.groupBelow g hg))
  · rw [List.mem_singleton.1 hg] at hn hid
    rcases List.mem_append.1 hr with hr | hr
    · exact absurd hid (Nat.ne_of_lt (hinv.prefixGroup r hr))
    · rcases List.mem_map.1 hr with ⟨q, hq, rfl⟩
      rcases List.mem_map.1 (List.mem_dedup.1 hq) with ⟨q', hq', rfl⟩
      exact .inr ⟨req, hs, hn.symm, hn ▸ hnetwork, q', hq', rfl⟩

theorem markRevoked_nothingPlaced (t : Tables) (id : Id) : NothingPlaced t (markRevoked t id) where
  pools := rfl
  tokens := rfl
  devices := fun _ hd => hd
  members := fun x hx => by
    rcases List.mem_map.1 hx with ⟨y, hy, rfl⟩
    refine ⟨y, hy, ?_⟩
    split <;> exact ⟨rfl, rfl⟩
  carries := fun _ _ hp => hp

theorem deleteDevice_placed {device : Id} {bumps : List (Id × List ChangeKind)} :
    Placed c s m (deleteDevice (Mesh.recordAll s.now m bumps) device) := by
  refine NothingPlaced.placed ⟨?_, ?_, fun d hd => ?_, fun x hx => ?_, fun n p hp => ?_⟩
    (Mesh.titles_recordAll s.now m bumps)
  · change (Mesh.recordAll s.now m bumps).toTables.addressPools = _
    rw [Mesh.toTables_recordAll]
  · change (Mesh.recordAll s.now m bumps).toTables.enrollmentTokens = _
    rw [Mesh.toTables_recordAll]
  · have hd := List.mem_of_mem_filter hd
    rw [Mesh.toTables_recordAll] at hd
    exact hd
  · have hx := List.mem_of_mem_filter hx
    rw [Mesh.toTables_recordAll] at hx
    exact ⟨x, hx, rfl, rfl⟩
  · have hp : Carries (Mesh.recordAll s.now m bumps).toTables n p := hp
    rw [Mesh.toTables_recordAll] at hp
    exact hp

theorem deleteGroups_nothingPlaced (t : Tables) (ids : List Id) :
    NothingPlaced t (deleteGroups t ids) where
  pools := rfl
  tokens := rfl
  devices := fun _ hd => hd
  members := fun x hx => ⟨x, hx, rfl, rfl⟩
  carries := fun n p hp => by
    rcases hp with ⟨g, hg, hkind, r, hr, hrest⟩
    rcases mem_groupsOf.1 hg with ⟨hg, hn⟩
    exact ⟨g, mem_groupsOf.2 ⟨List.mem_of_mem_filter hg, hn⟩, hkind, r,
      List.mem_of_mem_filter hr, hrest⟩

theorem setFailover_nothingPlaced (t : Tables) (n : Id) (slug : String) (policy : FailoverPolicy) :
    NothingPlaced t { t with routeGroups := t.routeGroups.map fun g =>
      if g.networkId = n ∧ g.slug = slug then { g with localFailover := policy } else g } where
  pools := rfl
  tokens := rfl
  devices := fun _ hd => hd
  members := fun x hx => ⟨x, hx, rfl, rfl⟩
  carries := fun n' p hp => by
    rcases hp with ⟨g, hg, hkind, r, hr, hid, hrest⟩
    rcases mem_groupsOf.1 hg with ⟨hg, hn⟩
    rcases List.mem_map.1 hg with ⟨g', hg', rfl⟩
    refine ⟨g', mem_groupsOf.2 ⟨hg', ?_⟩, ?_, r, hr, ?_, hrest⟩
    · rw [← hn]
      split <;> rfl
    · intro hegress
      refine hkind ?_
      split <;> exact hegress
    · rw [hid]
      split <;> rfl

theorem mutate_placed (hinv : RouteInv m.toTables) (h : mutate c s m = .ok m') :
    Placed c s m m' := by
  unfold mutate at h
  split at h
  · unfold createOrganization at h
    split at h
    · cases h
    split at h
    · cases h
    split at h
    · cases h
    cases h
    exact NothingPlaced.placed (nothingPlaced_of_eq rfl rfl rfl rfl rfl rfl) rfl
  · exact createNetwork_placed ‹_› h
  · exact createEnrollmentToken_placed h
  · exact redeem_placed ‹_› h
  · unfold revokeMembership at h
    split at h
    · rename_i key _ _
      rcases bumpVersion_ok [.peerRemove key] rfl h with ⟨rfl, _⟩
      exact (markRevoked_nothingPlaced _ _).recorded
    · cases h
  · unfold forgetDevice at h
    rcases bind_eq_ok.1 h with ⟨_, _, h⟩
    rcases bind_eq_ok.1 h with ⟨m₁, hall, h⟩
    cases h
    rcases announceAll_ok hall with ⟨rfl, _⟩
    exact deleteDevice_placed
  · unfold publishPolicy at h
    split at h
    · cases h
    rcases bumpVersion_ok [.policy] rfl h with ⟨rfl, _⟩
    refine NothingPlaced.recorded ?_
    exact nothingPlaced_of_eq rfl rfl rfl rfl rfl rfl
  · exact createRouteGroup_placed hinv ‹_› h
  · unfold advertise at h
    rcases bind_eq_ok.1 h with ⟨admin, _, h⟩
    rcases bind_eq_ok.1 h with ⟨group, _, h⟩
    rcases bind_eq_ok.1 h with ⟨_, _, h⟩
    rcases bumpRoutesEverywhere_ok h with ⟨rfl, _⟩
    refine NothingPlaced.recorded ?_
    unfold upsertAdvertiser
    split <;> exact nothingPlaced_of_eq rfl rfl rfl rfl rfl rfl
  · unfold withdraw at h
    rcases bind_eq_ok.1 h with ⟨group, _, h⟩
    rcases bind_eq_ok.1 h with ⟨_, _, h⟩
    rcases bumpRoutesEverywhere_ok h with ⟨rfl, _⟩
    refine NothingPlaced.recorded ?_
    exact nothingPlaced_of_eq rfl rfl rfl rfl rfl rfl
  · unfold deleteRouteGroup at h
    rcases bind_eq_ok.1 h with ⟨_, _, h⟩
    rcases bind_eq_ok.1 h with ⟨m₁, hbump, hshared⟩
    rcases bumpVersion_ok _ (mapM_routeGroupRemoved _) hbump with ⟨rfl, _⟩
    rcases bumpRoutes_ok hshared with ⟨rfl, _⟩
    rw [← Mesh.recordAll_append]
    exact (deleteGroups_nothingPlaced _ _).recorded
  · unfold setRouteGroupFailover at h
    rcases bind_eq_ok.1 h with ⟨_, _, h⟩
    rcases bind_eq_ok.1 h with ⟨_, _, h⟩
    rcases bumpRoutesEverywhere_ok h with ⟨rfl, _⟩
    exact (setFailover_nothingPlaced _ _ _ _).recorded
  · unfold setEgressFailClosed at h
    split at h
    · cases h
    split at h
    · cases h
    split at h
    · cases h
      exact placed_refl m
    · rcases bumpVersion_ok [.tunnel] rfl h with ⟨rfl, _⟩
      refine NothingPlaced.placed ?_ ?_
      · rw [Mesh.toTables_recordAll]
        exact nothingPlaced_of_eq rfl rfl rfl rfl rfl rfl
      · rw [Mesh.titles_recordAll]
        exact Mesh.titles_setNetwork m _ _ fun _ => ⟨rfl, rfl, rfl⟩
  · unfold createDNSRecord at h
    rcases bind_eq_ok.1 h with ⟨_, _, h⟩
    rcases bind_eq_ok.1 h with ⟨⟨type, addr⟩, _, h⟩
    rcases bind_eq_ok.1 h with ⟨_, _, h⟩
    rcases bind_eq_ok.1 h with ⟨_, _, h⟩
    rcases bumpVersion_ok [.dns] rfl h with ⟨rfl, _⟩
    refine NothingPlaced.recorded ?_
    exact nothingPlaced_of_eq rfl rfl rfl rfl rfl rfl
  · unfold deleteDNSRecord at h
    rcases bind_eq_ok.1 h with ⟨_, _, h⟩
    rcases bumpVersion_ok [.dns] rfl h with ⟨rfl, _⟩
    refine NothingPlaced.recorded ?_
    exact nothingPlaced_of_eq rfl rfl rfl rfl rfl rfl
  · unfold observeAdvertiser at h
    split at h
    · cases h
    split at h
    · cases h
    split at h
    · cases h
      exact NothingPlaced.placed (nothingPlaced_of_eq rfl rfl rfl rfl rfl rfl) rfl
    · rcases bumpVersion_ok [.routes] rfl h with ⟨rfl, _⟩
      refine NothingPlaced.recorded ?_
      exact nothingPlaced_of_eq rfl rfl rfl rfl rfl rfl
  · cases h
    refine NothingPlaced.placed ?_ ?_
    · rw [toTables_pruneNetwork]
      exact nothingPlaced_refl _
    · unfold pruneNetwork
      split
      · rfl
      · exact Mesh.titles_setNetwork m _ _ fun _ => ⟨rfl, rfl, rfl⟩

theorem apply_placed (hinv : RouteInv m.toTables) : Placed c s m (apply c m s) :=
  Base.attempt_inv (Placed c s m) _ m (fun _ h => mutate_placed hinv h) (placed_refl m)

theorem Placed.owned (h : Placed c s m m') (ho : m.Owned n org) : m'.Owned n org := by
  unfold Mesh.Owned at ho ⊢
  rcases h.titles with heq | ⟨_, _, _, _, _, heq⟩
  · rw [heq]
    exact ho
  · rw [heq]
    exact List.mem_append_left _ ho

theorem Placed.of_owned (h : Placed c s m m') (ho : m'.Owned n org) :
    m.Owned n org ∨ n = m.nextId ∧ ∃ slug name pools,
      s.event = .createNetwork org slug name pools := by
  unfold Mesh.Owned at ho ⊢
  rcases h.titles with heq | ⟨org', slug, name, pools, hs, heq⟩
  · rw [heq] at ho
    exact .inl ho
  · rw [heq] at ho
    rcases List.mem_append.1 ho with ho | ho
    · exact .inl ho
    · have := List.mem_singleton.1 ho
      simp only [Prod.mk.injEq] at this
      exact .inr ⟨this.1, slug, name, pools, this.2.1 ▸ hs⟩

structure Titled (m : Mesh) : Prop where
  keyed : m.NetworkIds
  live : ∀ r ∈ m.networks, r.deletedAt = none
  tokens : ∀ tok ∈ m.enrollmentTokens, m.Owned tok.networkId tok.organizationId

theorem Titled.owned_row (h : Titled m) {r : Network} (hr : r ∈ m.networks) :
    m.Owned r.id r.organizationId :=
  List.mem_map.2 ⟨r, hr, by rw [h.live r hr]⟩

theorem titled_apply (hinv : m.Inv) (h : Titled m) : Titled (apply c m s) := by
  have hp : Placed c s m (apply c m s) := apply_placed hinv.routes
  refine ⟨(apply_effect hinv.routes).keyed h.keyed, fun r hr => ?_, fun tok htok => ?_⟩
  · have hmem : (r.id, r.organizationId, r.deletedAt) ∈ (apply c m s).titles :=
      List.mem_map_of_mem hr
    have hold : (r.id, r.organizationId, r.deletedAt) ∈ m.titles → r.deletedAt = none := by
      intro hmem
      rcases List.mem_map.1 hmem with ⟨r', hr', heq'⟩
      simp only [Prod.mk.injEq] at heq'
      rw [← heq'.2.2]
      exact h.live r' hr'
    rcases hp.titles with heq | ⟨org, _, _, _, _, heq⟩
    · exact hold (heq ▸ hmem)
    · rw [heq] at hmem
      rcases Base.mem_concat.1 hmem with hmem | hnew
      · exact hold hmem
      · simp only [Prod.mk.injEq] at hnew
        exact hnew.2.2
  · rcases hp.tokens tok htok with ⟨old, hold, hn, ho⟩ | ⟨r, hr, hn, ho⟩
    · rw [← hn, ← ho]
      exact hp.owned (h.tokens old hold)
    · rw [← hn, ← ho]
      exact hp.owned (h.owned_row hr)

end Mutations

end Meshp.Store
