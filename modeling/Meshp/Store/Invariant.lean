import Meshp.Store.Members

/-!
# What Every Mesh Keeps

The invariant of every mesh a deployment can reach, from an empty one, whatever is
done to it. The membership tables and the route tables hold together, every
membership is in a network that exists, every stored policy is one that validates,
and the log says nothing false: no row is above its network's version, and an
upsert names a membership of that network that is still there.
-/

namespace Meshp.Store

theorem bumped_append {bs bs' : List (Id × List ChangeKind)} {n : Id} {k : ChangeKind} :
    Bumped (bs ++ bs') n k ↔ Bumped bs n k ∨ Bumped bs' n k := by
  unfold Bumped
  simp only [List.mem_append, or_and_right, exists_or]

variable {t : Tables} {x : Membership}

theorem bumped_joinBumps {n : Id} {k : ChangeKind} (h : Bumped (Enroll.joinBumps t x) n k) :
    (n = x.networkId ∧ k = .peerUpsert x.id) ∨ k = .routes := by
  rcases bumped_cons.1 h with ⟨hn, hk⟩ | h
  · exact .inl ⟨hn, List.mem_singleton.1 hk⟩
  · exact .inr (bumped_map_routes h)

theorem bumped_leaveBumps {n : Id} {k : ChangeKind} (h : Bumped (leaveBumps t x) n k) :
    (n = x.networkId ∧ ∃ key, currentKey t x.id = some key ∧ k = .peerRemove key) ∨
      k = .routes := by
  unfold leaveBumps at h
  rcases bumped_append.1 h with h | h
  · left
    cases hkey : currentKey t x.id with
    | none =>
      rw [hkey] at h
      exact absurd h not_bumped_nil
    | some key =>
      rw [hkey] at h
      simp only at h
      split at h
      · exact (bumped_singleton.1 h).imp_right fun hk => ⟨key, rfl, hk⟩
      · exact absurd h not_bumped_nil
  · right
    split at h
    · exact bumped_routesEverywhere h
    · exact absurd h not_bumped_nil

theorem bumped_leaveBumps_key {key : Key} (hkey : currentKey t x.id = some key) (hne : key ≠ "") :
    Bumped (leaveBumps t x) x.networkId (.peerRemove key) := by
  unfold leaveBumps
  rw [hkey]
  simp only [ne_eq, hne, not_false_eq_true, if_true]
  exact bumped_append.2 (.inl (bumped_cons.2 (.inl ⟨rfl, .head _⟩)))

theorem bumped_flatMap {α : Type} {xs : List α} {f : α → List (Id × List ChangeKind)} {n : Id}
    {k : ChangeKind} : Bumped (xs.flatMap f) n k ↔ ∃ x ∈ xs, Bumped (f x) n k := by
  unfold Bumped
  simp only [List.mem_flatMap]
  constructor
  · rintro ⟨ks, ⟨x, hx, hmem⟩, hk⟩
    exact ⟨x, hx, ks, hmem, hk⟩
  · rintro ⟨x, hx, ks, hmem, hk⟩
    exact ⟨ks, ⟨x, hx, hmem⟩, hk⟩

structure Mesh.Inv (m : Mesh) : Prop where
  members : MemberInv m.toTables
  routes : RouteInv m.toTables
  networks : ∀ x ∈ m.memberships, (m.network? x.networkId).isSome
  policies : ∀ p ∈ m.aclPolicies, p.document.validate = .ok ()
  logBounded : m.LogBounded
  upserts : ∀ n F id, m.Logged n F (.peerUpsert id) →
    ∃ x ∈ m.memberships, x.id = id ∧ x.networkId = n

theorem Mesh.Inv.member_eq {m : Mesh} (h : m.Inv) {x y : Membership} (hy : y ∈ m.memberships)
    (hx : x ∈ m.memberships) (hid : y.id = x.id) : y = x :=
  List.inj_on_of_nodup_map h.members.memberIds hy hx hid

theorem inv_empty : Mesh.Inv {} := by
  refine ⟨⟨?_, ?_, ?_, ?_, ?_, ?_, ?_, ?_, ?_, ?_, ?_, ?_, ?_⟩, ⟨?_, ?_, ?_, ?_, ?_, ?_, ?_⟩,
    ?_, ?_, ?_, ?_⟩
  all_goals first
    | exact List.nodup_nil
    | exact nofun

variable {c : Enroll.Checks} {s : Stamped} {m m' : Mesh}

theorem inv_recordAll {now : Time} {bumps : List (Id × List ChangeKind)} (h : m.Inv)
    (members : MemberInv t) (routes : RouteInv t)
    (networks : ∀ x ∈ t.memberships, (m.network? x.networkId).isSome)
    (policies : ∀ p ∈ t.aclPolicies, p.document.validate = .ok ())
    (kept : ∀ x ∈ m.memberships, ∃ y ∈ t.memberships, y.id = x.id ∧ y.networkId = x.networkId)
    (named : ∀ n id, Bumped bumps n (.peerUpsert id) → ∃ x ∈ t.memberships, x.id = id ∧ x.networkId = n)
    (exist : ∀ b ∈ bumps, (m.network? b.1).isSome) :
    (Mesh.recordAll now { m with toTables := t } bumps).Inv := by
  refine ⟨?_, ?_, ?_, ?_, ?_, ?_⟩
  · rw [Mesh.toTables_recordAll]
    exact members
  · rw [Mesh.toTables_recordAll]
    exact routes
  · intro x hx
    rw [Mesh.isSome_network?_recordAll]
    rw [Mesh.toTables_recordAll] at hx
    exact networks x hx
  · rw [Mesh.toTables_recordAll]
    exact policies
  · exact Mesh.logBounded_recordAll now { m with toTables := t } bumps exist h.logBounded
  · intro n F id hlog
    rw [Mesh.toTables_recordAll]
    rcases Mesh.logged_of_recordAll now _ n F _ bumps hlog with hlog | hbump
    · rcases h.upserts n F id hlog with ⟨x, hx, hid, hn⟩
      rcases kept x hx with ⟨y, hy, hyid, hyn⟩
      exact ⟨y, hy, hyid.trans hid, hyn.trans hn⟩
    · exact named n id hbump

theorem inv_recorded (h : m.Inv) {now : Time} {bumps : List (Id × List ChangeKind)}
    (named : ∀ n id, ¬Bumped bumps n (.peerUpsert id))
    (exist : ∀ b ∈ bumps, (m.network? b.1).isSome) : (Mesh.recordAll now m bumps).Inv :=
  inv_recordAll h h.members h.routes h.networks h.policies (fun x hx => ⟨x, hx, rfl, rfl⟩)
    (fun n id hb => absurd hb (named n id)) exist

theorem RouteInv.of_eq {t' : Tables} (h : RouteInv t)
    (routes : t'.routeGroups = t.routeGroups ∧ t'.routeGroupPrefixes = t.routeGroupPrefixes ∧ t'.routeAdvertisers = t.routeAdvertisers)
    (kept : ∀ x ∈ t.memberships, ∃ y ∈ t'.memberships, y.id = x.id) (next : t.nextId ≤ t'.nextId) :
    RouteInv t' := by
  rcases routes with ⟨hg, hp, ha⟩
  refine h.of_sublist (hg ▸ .refl _) (hp ▸ .refl _) (ha ▸ .refl _) next fun a ha' => ?_
  rcases h.advertiserMember a (ha ▸ ha') with ⟨x, hx, hid⟩
  rcases kept x hx with ⟨y, hy, hyid⟩
  exact ⟨y, hy, hyid.trans hid⟩

theorem routeInv_deleteDevice (h : RouteInv m.toTables) (device : Id) :
    RouteInv (deleteDevice m device).toTables := by
  refine h.of_sublist (.refl _) (.refl _) List.filter_sublist (Nat.le_refl _) ?_
  intro a ha
  rcases List.mem_filter.1 ha with ⟨hmem, hstay⟩
  exact exists_mem_deleteDevice (h.advertiserMember a hmem) (not_contains_gone.1 hstay)

theorem joined_rest {t' : Tables} {d : Device} {key : Key} (hj : Enroll.Joined t t' x d key) :
    (t'.routeGroups = t.routeGroups ∧ t'.routeGroupPrefixes = t.routeGroupPrefixes ∧
      t'.routeAdvertisers = t.routeAdvertisers ∧ t'.advertiserHealth = t.advertiserHealth) ∧
      t'.aclPolicies = t.aclPolicies := by
  rw [hj.rest]
  exact ⟨⟨rfl, rfl, rfl, rfl⟩, rfl⟩

theorem inv_deleteDevice (h : m.Inv) (device : Id) : (deleteDevice m device).Inv where
  members := memberInv_deleteDevice h.members device
  routes := routeInv_deleteDevice h.routes device
  networks := fun x hx => h.networks x (mem_deleteDevice.1 hx).1
  policies := h.policies
  logBounded := fun r hr => h.logBounded r (List.mem_of_mem_filter hr)
  upserts := fun n F id hlog => by
    rcases logged_deleteDevice.1 hlog with ⟨hlog, hgone⟩
    rcases h.upserts n F id hlog with ⟨x, hx, rfl, hn⟩
    exact ⟨x, mem_deleteDevice.2 ⟨hx, fun hd => hgone x.id rfl ⟨x, hx, hd, rfl⟩⟩, rfl, hn⟩

theorem Effect.inv (he : Effect c s m m') (h : m.Inv) : m'.Inv := by
  cases he with
  | settings t bumps members routes policies kinds exist =>
    have hkept : ∀ x ∈ m.memberships, x ∈ t.memberships := fun x hx => by
      rwa [members.memberships]
    refine inv_recordAll h (memberInv_of_kept h.members members)
      (h.routes.of_eq ⟨routes.1, routes.2.1, routes.2.2.1⟩ (fun x hx => ⟨x, hkept x hx, rfl⟩)
        members.nextId) ?_ ?_ (fun x hx => ⟨x, hkept x hx, rfl, rfl⟩) (fun n id hb => ?_) exist
    · rw [members.memberships]
      exact h.networks
    · rw [policies]
      exact h.policies
    · cases kinds n _ hb
  | routes t n bumps members inv others policies logged named kinds exist =>
    refine inv_recordAll h (memberInv_of_kept h.members members) inv ?_ ?_
      (fun x hx => ⟨x, by rwa [members.memberships], rfl, rfl⟩) (fun n id hb => ?_) exist
    · rw [members.memberships]
      exact h.networks
    · rw [policies]
      exact h.policies
    · cases (kinds n _ hb).1
  | policy n doc version valid exist =>
    refine inv_recordAll h (memberInv_of_kept h.members ⟨rfl, rfl, rfl, rfl, Nat.le_succ _⟩)
      (h.routes.of_eq ⟨rfl, rfl, rfl⟩ (fun x hx => ⟨x, hx, rfl⟩) (Nat.le_succ _)) h.networks
      (fun p hp => ?_) (fun x hx => ⟨x, hx, rfl, rfl⟩) (fun n' id hb => ?_) (fun b hb => ?_)
    · -- Policies stood down keep their document; the one raised was checked.
      rcases Base.mem_concat.1 hp with hp | rfl
      · rcases List.mem_map.1 hp with ⟨q, hq, rfl⟩
        have := h.policies q hq
        split <;> exact this
      · exact valid
    · cases (bumped_singleton.1 hb).2
    · rw [List.mem_singleton.1 hb]
      exact exist
  | joined t x d key wrote req event token exist =>
    have hkept : ∀ y ∈ m.memberships, y ∈ t.memberships := fun y hy => by
      rw [wrote.memberships]
      exact List.mem_append_left _ hy
    have hx : x ∈ t.memberships := by
      rw [wrote.memberships]
      exact List.mem_concat_self
    rcases joined_rest wrote with ⟨⟨hg, hp, ha, _⟩, hpol⟩
    refine inv_recordAll h (memberInv_joined h.members wrote)
      (h.routes.of_eq ⟨hg, hp, ha⟩ (fun y hy => ⟨y, hkept y hy, rfl⟩)
        (Nat.le_of_lt (Nat.lt_of_le_of_lt wrote.fresh.1 wrote.fresh.2))) (fun y hy => ?_) ?_
      (fun y hy => ⟨y, hkept y hy, rfl, rfl⟩) (fun n id hb => ?_) exist
    · rw [wrote.memberships] at hy
      rcases Base.mem_concat.1 hy with hy | rfl
      · exact h.networks y hy
      · exact exist (y.networkId, [.peerUpsert y.id]) (.head _)
    · rw [hpol]
      exact h.policies
    · rcases bumped_joinBumps hb with ⟨hn, hk⟩ | hk
      · cases hk
        exact ⟨x, hx, rfl, hn.symm⟩
      · cases hk
  | revoked x key event member hadKey exist =>
    have hkept : ∀ y ∈ m.memberships, ∃ z ∈ (markRevoked m.toTables x.id).memberships,
        z.id = y.id ∧ z.networkId = y.networkId := by
      intro y hy
      refine ⟨_, List.mem_map_of_mem hy, ?_⟩
      split <;> exact ⟨rfl, rfl⟩
    refine inv_recordAll h (memberInv_markRevoked h.members x.id)
      (h.routes.of_eq ⟨rfl, rfl, rfl⟩ (fun y hy => ?_) (Nat.le_refl _)) (fun y hy => ?_)
      h.policies hkept (fun n id hb => ?_) (fun b hb => ?_)
    · rcases hkept y hy with ⟨z, hz, hid, _⟩
      exact ⟨z, hz, hid⟩
    · rcases mem_markRevoked hy with ⟨z, hz, _, _, hn, _⟩
      rw [hn]
      exact h.networks z hz
    · cases (bumped_singleton.1 hb).2
    · rw [List.mem_singleton.1 hb]
      exact exist
  | forgot org device event exist =>
    refine inv_deleteDevice (inv_recorded h (fun n id hb => ?_) exist) device
    rcases bumped_flatMap.1 hb with ⟨x, _, hb⟩
    rcases bumped_leaveBumps hb with ⟨_, key, _, hk⟩ | hk
    · cases hk
    · cases hk
  | network t r members routes policies start fresh =>
    have hgrow : ∀ n, (m.network? n).isSome → Option.isSome
        (Mesh.network? ⟨t, m.networks ++ [r], m.stateChanges⟩ n) := fun n hn =>
      (Effect.network (c := c) (s := s) t r members routes policies start fresh).network_isSome hn
    refine ⟨memberInv_of_kept h.members members, h.routes.of_eq
      ⟨routes.1, routes.2.1, routes.2.2.1⟩ (fun x hx => ⟨x, by rwa [members.memberships], rfl⟩)
      members.nextId, fun x hx => ?_, ?_, fun row hrow => ?_, fun n F id hlog => ?_⟩
    · exact hgrow _ (h.networks x (members.memberships ▸ hx))
    · rw [policies]
      exact h.policies
    · exact Nat.le_trans (h.logBounded row hrow) (version_le_concat rfl)
    · rw [members.memberships]
      exact h.upserts n F id hlog
  | egress n enforced exist =>
    have hset := set_egress m n
    refine inv_recorded (m := m.setNetwork n _) { h with
      networks := fun x hx => ?_, logBounded := fun r hr => ?_ } (fun n' id hb => ?_) fun b hb => ?_
    · rw [(hset x.networkId enforced).2.2]
      exact h.networks x hx
    · rw [(hset r.networkId enforced).1]
      exact h.logBounded r hr
    · cases (bumped_singleton.1 hb).2
    · rw [List.mem_singleton.1 hb, (hset n enforced).2.2]
      exact exist
  | pruned n olderThan =>
    refine ⟨?_, ?_, fun x hx => ?_, ?_, fun r hr => ?_, ?_⟩
    · rw [toTables_pruneNetwork]
      exact h.members
    · rw [toTables_pruneNetwork]
      exact h.routes
    · rw [isSome_network?_pruneNetwork]
      rw [toTables_pruneNetwork] at hx
      exact h.networks x hx
    · rw [toTables_pruneNetwork]
      exact h.policies
    · rw [version_pruneNetwork]
      exact h.logBounded r (stateChanges_pruneNetwork hr)
    · rintro n' F id ⟨r, hr, hlog⟩
      rw [toTables_pruneNetwork]
      exact h.upserts n' F id ⟨r, stateChanges_pruneNetwork hr, hlog⟩

theorem inv_apply (h : m.Inv) : (apply c m s).Inv :=
  (apply_effect h.routes).inv h

/-- What every effect on a sound mesh keeps, every run keeps. -/
theorem run_effects {P : Mesh → Prop}
    (hP : ∀ m s m', m.Inv → Effect c s m m' → P m → P m') {m₁ : Mesh} (hinv : m₁.Inv)
    (ss : List Stamped) (h : P m₁) : P (Base.run (apply c) m₁ ss) :=
  (Base.run_inv (fun m : Mesh => m.Inv ∧ P m) (fun m s hI => ⟨inv_apply hI.1,
    hP m s _ hI.1 (apply_effect hI.1.routes) hI.2⟩) m₁ ss ⟨hinv, h⟩).2

theorem inv_history (ss : List Stamped) : (history c ss).Inv :=
  Base.run_inv Mesh.Inv (fun _ _ h => inv_apply h) _ ss inv_empty

variable {n : Id} {F : Nat} {k : ChangeKind}

theorem logged_toTables (h : m.Logged n F k) : Mesh.Logged { m with toTables := t } n F k := h

theorem Effect.logged (he : Effect c s m m') (hinv : m.Inv) (hlog : m.Logged n F k)
    (hF : m'.floor n ≤ F)
    (hnamed : ∀ id, k = .peerUpsert id → ∃ x ∈ m'.memberships, x.id = id) : m'.Logged n F k := by
  cases he with
  | settings t | routes t | joined t | revoked =>
    exact Mesh.logged_recordAll_of_logged _ _ n F k _ (logged_toTables hlog)
  | policy | egress => exact Mesh.logged_recordAll_of_logged _ _ n F k _ hlog
  | forgot org device =>
    refine logged_deleteDevice.2
      ⟨Mesh.logged_recordAll_of_logged _ _ n F k _ hlog, fun id hk hgone => ?_⟩
    rcases hnamed id hk with ⟨x, hx, rfl⟩
    rcases mem_deleteDevice.1 hx with ⟨hmem, hne⟩
    rcases hgone with ⟨y, hy, hyd, hyid⟩
    rw [Mesh.toTables_recordAll] at hmem hy
    rw [hinv.member_eq hy hmem hyid] at hyd
    exact hne hyd
  | network => exact hlog
  | pruned => exact (logged_pruneNetwork hinv.logBounded hF).2 hlog

theorem Effect.logged_new (he : Effect c s m m')
    (hevent : ∀ n olderThan, s.event ≠ .pruneNetwork n olderThan) (hlog : m'.Logged n F k) :
    m.Logged n F k ∨ m'.Logged n (m.version n) k := by
  cases he with
  | settings t | routes t | policy | joined t | revoked =>
    exact Mesh.logged_recordAll_new _ _ n F k _ hlog
  | forgot org device =>
    -- The rows a deletion takes are not what is new.
    rcases logged_deleteDevice.1 hlog with ⟨hlog, hstay⟩
    rcases Mesh.logged_recordAll_new _ _ n F k _ hlog with hlog | hlog
    · exact .inl hlog
    · exact .inr (logged_deleteDevice.2 ⟨hlog, hstay⟩)
  | network => exact .inl hlog
  | egress n' enforced =>
    have hver := (set_egress m n' n enforced).1
    rw [← hver]
    exact Mesh.logged_recordAll_new _ _ n F k _ hlog
  | pruned n' olderThan event => exact absurd event (hevent n' olderThan)

theorem floor_le_version (ss : List Stamped) : (history c ss).floor n ≤ (history c ss).version n := by
  have hrun := Base.run_inv (fun m : Mesh => m.Inv ∧ m.floor n ≤ m.version n)
    (fun m s hI => by
      have he : Effect c s m (apply c m s) := apply_effect hI.1.routes
      refine ⟨he.inv hI.1, ?_⟩
      by_cases hevent : ∃ n olderThan, s.event = .pruneNetwork n olderThan
      · rcases hevent with ⟨n', olderThan, hevent⟩
        have happly : apply c m s = pruneNetwork m n' olderThan := by
          unfold apply mutate Base.attempt
          rw [hevent]
        rw [happly, version_pruneNetwork]
        exact floor_pruneNetwork_le hI.1.logBounded hI.2
      · push Not at hevent
        rw [he.floor_eq hevent]
        exact Nat.le_trans hI.2 he.version_le)
    {} ss ⟨inv_empty, Nat.le_refl _⟩
  exact hrun.2

theorem version_pos (ss : List Stamped) (h : ((history c ss).network? n).isSome) :
    1 ≤ (history c ss).version n := by
  refine run_effects (P := fun m => (m.network? n).isSome → 1 ≤ m.version n)
    (fun m s m' _ he hpos hn => ?_) inv_empty ss nofun h
  rcases he.network_of hn with hold | hnew
  · exact Nat.le_trans (hpos hold) he.version_le
  · exact hnew

theorem logged_before {m₀ : Mesh} {now : Time} {bumps : List (Id × List ChangeKind)}
    {k : ChangeKind} (hlog : (Mesh.recordAll now m₀ bumps).Logged n F k)
    (hsame : m₀.stateChanges = m.stateChanges) (hnone : ¬Bumped bumps n k) : m.Logged n F k := by
  rcases Mesh.logged_of_recordAll _ _ n F _ _ hlog with h | h
  · unfold Mesh.Logged at h ⊢
    rwa [hsame] at h
  · exact absurd h hnone

theorem activePolicy_publish_ne {n n' : Id} {p : AclPolicy} (hn : n' ≠ n) (hp : p.networkId = n')
    (next : Id) :
    Store.activePolicy { t with
      aclPolicies := (t.aclPolicies.map fun q =>
        if q.networkId = n' then { q with isActive := false } else q) ++ [p]
      nextId := next } n = Store.activePolicy t n := by
  unfold Store.activePolicy
  rw [List.find?_append]
  have hnew : [p].find? (fun q => q.networkId = n ∧ q.isActive) = none := by
    rw [List.find?_singleton, if_neg]
    rw [decide_eq_true_eq, hp]
    exact fun h => hn h.1
  rw [hnew, Option.or_none]
  induction t.aclPolicies with
  | nil => rfl
  | cons q qs ih =>
    rw [List.map_cons, List.find?_cons, List.find?_cons, ih]
    by_cases hq : q.networkId = n'
    · simp only [hq, if_true, hn, false_and, decide_false]
    · rw [if_neg hq]

theorem activePolicy_publish {qs : List AclPolicy} {p : AclPolicy} (ht : t.aclPolicies = qs ++ [p])
    (hn : p.networkId = n) (hact : p.isActive) : (Store.activePolicy t n).isSome := by
  unfold Store.activePolicy
  rw [ht, List.find?_isSome]
  refine ⟨p, List.mem_concat_self, ?_⟩
  simp only [hn, hact, and_self, decide_true]

theorem Effect.activePolicy (he : Effect c s m m') :
    Store.activePolicy m'.toTables n = Store.activePolicy m.toTables n ∨
      ((Store.activePolicy m'.toTables n).isSome ∧
        ∀ F ≤ m.version n, m'.Logged n F .policy) := by
  have hsame : ∀ {t : Tables}, t.aclPolicies = m.aclPolicies →
      Store.activePolicy t n = Store.activePolicy m.toTables n := by
    intro t ht
    unfold Store.activePolicy
    rw [ht]
  cases he with
  | settings t bumps members routes policies | routes t n' bumps members inv others policies =>
    left
    rw [Mesh.toTables_recordAll]
    exact hsame policies
  | policy n' doc version valid exist =>
    rw [Mesh.toTables_recordAll]
    by_cases hn : n' = n
    · subst hn
      refine .inr ⟨activePolicy_publish rfl rfl rfl, fun F hF => ?_⟩
      exact Mesh.logged_recordAll s.now _ n' F .policy [.policy] _ (.head _)
        (.head _) hF
    · exact .inl (activePolicy_publish_ne hn rfl _)
  | joined t x d key wrote =>
    left
    rw [Mesh.toTables_recordAll, wrote.rest]
    rfl
  | revoked | egress =>
    left
    rw [Mesh.toTables_recordAll]
    rfl
  | forgot =>
    refine .inl (hsame ?_)
    change (Mesh.recordAll _ _ _).toTables.aclPolicies = _
    rw [Mesh.toTables_recordAll]
  | network t r members routes policies => exact .inl (hsame policies)
  | pruned =>
    left
    rw [toTables_pruneNetwork]

theorem Effect.policy_logged (he : Effect c s m m') (h : m'.Logged n F .policy) :
    m.Logged n F .policy ∨ (Store.activePolicy m'.toTables n).isSome := by
  cases he with
  | settings t bumps members routes policies kinds =>
    exact .inl (logged_before h rfl fun hb => nomatch kinds n _ hb)
  | routes t n' bumps members inv others policies logged named kinds =>
    exact .inl (logged_before h rfl fun hb => (kinds n _ hb).2 rfl)
  | policy n' doc version valid exist =>
    by_cases hn : n' = n
    · subst hn
      rw [Mesh.toTables_recordAll]
      exact .inr (activePolicy_publish rfl rfl rfl)
    · exact .inl (logged_before h rfl fun hb => hn (bumped_singleton.1 hb).1.symm)
  | joined t x d key wrote =>
    refine .inl (logged_before h rfl fun hb => ?_)
    rcases bumped_joinBumps hb with ⟨_, hk⟩ | hk
    · cases hk
    · cases hk
  | revoked | egress => exact .inl (logged_before h rfl fun hb => nomatch (bumped_singleton.1 hb).2)
  | forgot =>
    refine .inl (logged_before (logged_deleteDevice.1 h).1 rfl fun hb => ?_)
    rcases bumped_flatMap.1 hb with ⟨y, _, hb⟩
    rcases bumped_leaveBumps hb with ⟨_, key, _, hk⟩ | hk
    · cases hk
    · cases hk
  | network => exact .inl h
  | pruned =>
    rcases h with ⟨r, hr, hlog⟩
    exact .inl ⟨r, stateChanges_pruneNetwork hr, hlog⟩

theorem activePolicy_run {m₁ : Mesh} (hinv : m₁.Inv) (ss : List Stamped)
    (h : (Store.activePolicy m₁.toTables n).isSome) :
    (Store.activePolicy (Base.run (apply c) m₁ ss).toTables n).isSome := by
  refine run_effects (P := fun m => (Store.activePolicy m.toTables n).isSome)
    (fun m s m' _ he hold => ?_) hinv ss h
  rcases he.activePolicy (n := n) with hsame | ⟨hsome, _⟩
  · rw [hsame]
    exact hold
  · exact hsome

theorem activePolicy_of_logged (ss : List Stamped) (h : (history c ss).Logged n F .policy) :
    (Store.activePolicy (history c ss).toTables n).isSome := by
  refine run_effects
    (P := fun m => m.Logged n F .policy → (Store.activePolicy m.toTables n).isSome)
    (fun m s m' _ he hold hlog => ?_) inv_empty ss
    (fun ⟨_, hr, _⟩ => absurd hr List.not_mem_nil) h
  rcases he.policy_logged hlog with hbefore | hsome
  · rcases he.activePolicy (n := n) with hsame | ⟨hsome, _⟩
    · rw [hsame]
      exact hold hbefore
    · exact hsome
  · exact hsome

def SameMember (x y : Membership) : Prop :=
  { x with state := y.state } = y

theorem SameMember.trans {y z : Membership} (h : SameMember x y) (h' : SameMember y z) :
    SameMember x z := by
  unfold SameMember at h h' ⊢
  rw [← h', ← h]

theorem Effect.nextId_le (he : Effect c s m m') : m.nextId ≤ m'.nextId := by
  cases he with
  | settings t bumps members | routes t n bumps members =>
    rw [Mesh.toTables_recordAll]; exact members.nextId
  | policy => rw [Mesh.toTables_recordAll]; exact Nat.le_succ _
  | joined t x d key wrote =>
    rw [Mesh.toTables_recordAll]
    exact Nat.le_of_lt (Nat.lt_of_le_of_lt wrote.fresh.1 wrote.fresh.2)
  | revoked | egress => rw [Mesh.toTables_recordAll]; exact Nat.le_refl _
  | forgot => exact Nat.le_of_eq (congrArg Tables.nextId (Mesh.toTables_recordAll _ _ _)).symm
  | network t r members => exact members.nextId
  | pruned => rw [toTables_pruneNetwork]

theorem Effect.networkIds (he : Effect c s m m') :
    m'.networks.map Network.id = m.networks.map Network.id ∨
      m'.networks.map Network.id = m.networks.map Network.id ++ [m.nextId] ∧
        m.nextId < m'.nextId := by
  cases he with
  | settings | routes | policy | joined | revoked | forgot =>
    exact .inl (Mesh.networkIds_recordAll _ _ _)
  | network t r members routes policies start fresh =>
    right
    refine ⟨?_, fresh.2⟩
    rw [List.map_append, List.map_singleton, fresh.1]
  | egress n enforced =>
    left
    rw [Mesh.networkIds_recordAll, Mesh.networkIds_setNetwork]
    exact fun r => rfl
  | pruned n olderThan =>
    left
    unfold pruneNetwork
    split
    · rfl
    · exact Mesh.networkIds_setNetwork _ _ _ fun r => rfl

def Mesh.NetworkIds (m : Mesh) : Prop :=
  (m.networks.map Network.id).Nodup ∧ ∀ r ∈ m.networks, r.id < m.nextId

theorem Effect.keyed (he : Effect c s m m') (h : m.NetworkIds) : m'.NetworkIds := by
  have hbelow : ∀ id ∈ m.networks.map Network.id, id < m.nextId := by
    intro id hid
    rcases List.mem_map.1 hid with ⟨r, hr, rfl⟩
    exact h.2 r hr
  rcases he.networkIds with hids | ⟨hids, hnext⟩
  · refine ⟨hids ▸ h.1, fun r hr => ?_⟩
    exact Nat.lt_of_lt_of_le (hbelow r.id (hids ▸ List.mem_map_of_mem hr)) he.nextId_le
  · constructor
    · rw [hids]
      refine List.nodup_append.2 ⟨h.1, List.nodup_singleton _, fun id hid id' hid' heq => ?_⟩
      rw [List.mem_singleton.1 hid'] at heq
      exact absurd (hbelow id hid) (heq ▸ Nat.lt_irrefl _)
    · intro r hr
      rcases Base.mem_concat.1 (hids ▸ List.mem_map_of_mem hr) with hold | hnew
      · exact Nat.lt_trans (hbelow r.id hold) hnext
      · rw [hnew]
        exact hnext

theorem Effect.member_of (he : Effect c s m m') (hx : x ∈ m'.memberships) :
    (∃ y ∈ m.memberships, SameMember y x ∧ (x.state = .active → y = x)) ∨ m.nextId ≤ x.id := by
  have hself : x ∈ m.memberships →
      (∃ y ∈ m.memberships, SameMember y x ∧ (x.state = .active → y = x)) ∨ m.nextId ≤ x.id :=
    fun h => .inl ⟨x, h, rfl, fun _ => rfl⟩
  cases he with
  | settings t bumps members | routes t n bumps members =>
    rw [Mesh.toTables_recordAll] at hx
    exact hself (members.memberships ▸ hx)
  | policy | egress =>
    rw [Mesh.toTables_recordAll] at hx
    exact hself hx
  | joined t y d key wrote =>
    rw [Mesh.toTables_recordAll] at hx
    rw [wrote.memberships] at hx
    rcases Base.mem_concat.1 hx with hx | rfl
    · exact hself hx
    · exact .inr wrote.fresh.1
  | revoked y =>
    rw [Mesh.toTables_recordAll] at hx
    rcases List.mem_map.1 hx with ⟨z, hz, rfl⟩
    refine .inl ⟨z, hz, ?_⟩
    split
    · exact ⟨rfl, nofun⟩
    · exact ⟨rfl, fun _ => rfl⟩
  | forgot =>
    have := (mem_deleteDevice.1 hx).1
    rw [Mesh.toTables_recordAll] at this
    exact hself this
  | network t r members => exact hself (members.memberships ▸ hx)
  | pruned =>
    rw [toTables_pruneNetwork] at hx
    exact hself hx

theorem sameMember_run {m₁ : Mesh} (hinv : m₁.Inv) (ss : List Stamped) {y : Membership}
    (hy : y ∈ m₁.memberships) (hx : x ∈ (Base.run (apply c) m₁ ss).memberships) (hid : x.id = y.id) :
    SameMember y x := by
  have hrun := run_effects (c := c)
    (P := fun m => m₁.nextId ≤ m.nextId ∧ ∀ x ∈ m.memberships,
      (∃ y ∈ m₁.memberships, SameMember y x) ∨ m₁.nextId ≤ x.id)
    (fun m s m' _ he ⟨hle, hmem⟩ => by
      refine ⟨Nat.le_trans hle he.nextId_le, fun x hx => ?_⟩
      rcases he.member_of hx with ⟨z, hz, hzx, _⟩ | hnew
      · rcases hmem z hz with ⟨y, hy, hyz⟩ | hnew
        · exact .inl ⟨y, hy, hyz.trans hzx⟩
        · right
          rw [← hzx]
          exact hnew
      · exact .inr (Nat.le_trans hle hnew))
    hinv ss ⟨Nat.le_refl _, fun x hx => .inl ⟨x, hx, rfl⟩⟩
  rcases hrun.2 x hx with ⟨z, hz, hzx⟩ | hnew
  · have hzid : z.id = y.id := by
      rw [← hid, ← hzx]
    rw [← hinv.member_eq hz hy hzid]
    exact hzx
  · have hlt := hinv.members.memberBelow y hy
    rw [← hid] at hlt
    exact absurd hlt (Nat.not_lt_of_le hnew)

/-- Every address a member has is on record as its own, and none is on record twice in a network. -/
structure Allotted (t : Tables) : Prop where
  once : (t.addressAllocations.map fun r => (r.networkId, r.address)).Nodup
  held : ∀ x ∈ t.memberships, ∀ a, x.addressV4 = some a ∨ x.addressV6 = some a →
    ∃ r ∈ t.addressAllocations, (r.networkId, r.address) = (x.networkId, a) ∧ r.holderId = x.id

theorem Allotted.joined {t' : Tables} {d : Device} {key : Key} (h : Allotted t)
    (hj : Enroll.Joined t t' x d key) : Allotted t' := by
  rcases hj.allocated with ⟨chosen, hrows, hv4, hv6⟩
  refine ⟨hj.allocatedOnce h.once, fun y hy a ha => ?_⟩
  rw [hrows]
  rcases Base.mem_concat.1 (hj.memberships ▸ hy) with hy | rfl
  · rcases h.held y hy a ha with ⟨r, hr, hrest⟩
    exact ⟨r, List.mem_append_left _ hr, hrest⟩
  · -- Either address is among those chosen, and each of them was recorded.
    rw [hv4, hv6, Enroll.byFamily, Enroll.byFamily, Option.map_eq_some_iff,
      Option.map_eq_some_iff] at ha
    rcases ha with ⟨p, hp, rfl⟩ | ⟨p, hp, rfl⟩
    all_goals
      have hmem := List.mem_of_find?_eq_some hp
      exact ⟨_, List.mem_append_right _ (List.mem_map_of_mem hmem), rfl, rfl⟩

theorem Effect.allotted (he : Effect c s m m') (h : Allotted m.toTables) :
    Allotted m'.toTables := by
  have hkept : ∀ t', MembersKept m.toTables t' → Allotted t' := fun t' hk => by
    refine ⟨?_, ?_⟩
    · rw [hk.allocations]
      exact h.once
    · rw [hk.memberships, hk.allocations]
      exact h.held
  cases he with
  | settings t _ members | routes t _ _ members =>
    rw [Mesh.toTables_recordAll]
    exact hkept t members
  | policy | egress =>
    rw [Mesh.toTables_recordAll]
    exact ⟨h.once, h.held⟩
  | joined t x d key wrote =>
    rw [Mesh.toTables_recordAll]
    exact h.joined wrote
  | revoked x =>
    rw [Mesh.toTables_recordAll]
    refine ⟨h.once, fun y hy a ha => ?_⟩
    rcases mem_markRevoked hy with ⟨z, hz, hid, _, hn, hv4, hv6⟩
    rw [hv4, hv6] at ha
    rw [hid, hn]
    exact h.held z hz a ha
  | forgot org device =>
    -- The rows outlive the members they name.
    rw [← Mesh.toTables_recordAll s.now m] at h
    exact ⟨h.once, fun y hy => h.held y (mem_deleteDevice.1 hy).1⟩
  | network t _ members => exact hkept t members
  | pruned =>
    rw [toTables_pruneNetwork]
    exact h

/-- Through every history, no two members of a network, revoked or not, have an address in common.
-/
theorem addresses_distinct (c : Enroll.Checks) (ss : List Stamped) :
    (history c ss).memberships.Pairwise fun x y => x.networkId = y.networkId →
      ∀ a, x.addressV4 = some a ∨ x.addressV6 = some a →
        ¬(y.addressV4 = some a ∨ y.addressV6 = some a) := by
  have h : Allotted (history c ss).toTables :=
    run_effects (fun _ _ _ _ he => he.allotted) inv_empty ss
      ⟨List.nodup_nil, fun _ hy => absurd hy List.not_mem_nil⟩
  refine (List.pairwise_map.1 (inv_history ss).members.memberIds).imp_of_mem ?_
  intro x y hx hy hne hn a ha hb
  rcases h.held x hx a ha with ⟨r, hr, hra, hrx⟩
  rcases h.held y hy a hb with ⟨r', hr', hra', hry⟩
  rw [hn, ← hra'] at hra
  rw [← hrx, ← hry, List.inj_on_of_nodup_map h.once hr hr' hra] at hne
  exact hne rfl

end Meshp.Store
