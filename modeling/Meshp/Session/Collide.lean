import Meshp.Session.RouteDelta
import Meshp.Session.Mappings

/-!
# Who Hears of a Collision

A collision belongs to a device and a version belongs to a network. What one
network carries decides what another must tell the devices they share, so a
mutation that changes it has to bump both.
-/

namespace Meshp.Session

open Netip (Prefix)
open Store

section Carried

variable {c : Enroll.Checks} {s : Stamped} {m m' : Mesh} {t t' : Tables} {n : Id} {p : Prefix}
  {device : Id} {F : Nat}

def ActiveIn (t : Tables) (device n : Id) : Prop :=
  ∃ x ∈ t.memberships, x.deviceId = device ∧ x.state = .active ∧ x.networkId = n

theorem carries_of_kept (h : RoutesKept t t' n) : Carries t' n p ↔ Carries t n p := by
  unfold Carries
  rw [h.groups]
  refine exists_congr fun g => and_congr_right fun hg => and_congr_right fun _ => ?_
  have hfilter := h.prefixes g hg
  have hmem : ∀ r : RouteGroupPrefix, r.routeGroupId = g.id →
      (r ∈ t'.routeGroupPrefixes ↔ r ∈ t.routeGroupPrefixes) := by
    intro r hr
    have := congrArg (r ∈ ·) hfilter
    simpa only [List.mem_filter, hr, decide_true, and_true, eq_iff_iff] using this
  refine exists_congr fun r => ⟨fun ⟨hr, hid, hp⟩ => ⟨(hmem r hid).1 hr, hid, hp⟩,
    fun ⟨hr, hid, hp⟩ => ⟨(hmem r hid).2 hr, hid, hp⟩⟩

theorem carries_of_eq (hg : t'.routeGroups = t.routeGroups)
    (hp : t'.routeGroupPrefixes = t.routeGroupPrefixes) : Carries t' n p ↔ Carries t n p := by
  unfold Carries groupsOf
  rw [hg, hp]

theorem mem_carried_congr {c : Id × Prefix}
    (hact : ActiveIn t' device c.1 ↔ ActiveIn t device c.1)
    (hcar : ActiveIn t device c.1 → (Carries t' c.1 c.2 ↔ Carries t c.1 c.2)) :
    c ∈ carriedPrefixesForDevice t' device ↔ c ∈ carriedPrefixesForDevice t device := by
  have hiff : ∀ t : Tables, c ∈ carriedPrefixesForDevice t device ↔
      ActiveIn t device c.1 ∧ Carries t c.1 c.2 := fun t => mem_carried
  rw [hiff, hiff, hact]
  exact and_congr_right hcar

theorem activeIn_of_eq (h : t'.memberships = t.memberships) :
    ActiveIn t' device n ↔ ActiveIn t device n := by
  unfold ActiveIn
  rw [h]

theorem mem_networksSharing {n' : Id} (h : ActiveIn t device n) (h' : ActiveIn t device n')
    (hne : n' ≠ n) : n' ∈ networksSharingADeviceWith t n := by
  rcases h with ⟨x, hx, hxd, hxact, rfl⟩
  rcases h' with ⟨y, hy, hyd, hyact, rfl⟩
  unfold networksSharingADeviceWith
  rw [List.mem_dedup, List.mem_flatMap]
  refine ⟨x, List.mem_filter.2 ⟨hx, decide_eq_true ⟨rfl, hxact⟩⟩, ?_⟩
  exact List.mem_map_of_mem
    (List.mem_filter.2 ⟨hy, decide_eq_true ⟨hyd.trans hxd.symm, hne, hyact⟩⟩)

theorem carries_routes {x : Membership} {n₀ : Id} {bumps : List (Id × List ChangeKind)}
    (hx : x ∈ m.memberships) (hact : x.state = .active) (hF : F ≤ m.version x.networkId)
    (others : ∀ n', n' ≠ n₀ → RoutesKept m.toTables t n')
    (logged : RoutesKept m.toTables t n₀ ∨ Bumped bumps n₀ .routes)
    (shared : (∀ n' p, Carries t n' p ↔ Carries m.toTables n' p) ∨
      ∀ n' ∈ networksSharingADeviceWith m.toTables n₀, Bumped bumps n' .routes)
    (hnone : ¬(Mesh.recordAll s.now { m with toTables := t } bumps).Logged x.networkId F .routes)
    (hn : ActiveIn m.toTables x.deviceId n) : Carries t n p ↔ Carries m.toTables n p := by
  have hsilent : ¬Bumped bumps x.networkId .routes := by
    rintro ⟨ks, hmem, hk⟩
    exact hnone (Mesh.logged_recordAll s.now _ x.networkId F _ ks _ hmem hk hF)
  by_cases hn₀ : n = n₀
  · subst hn₀
    by_cases hxn : x.networkId = n
    · rw [hxn] at hsilent
      exact carries_of_kept (logged.resolve_right hsilent)
    · rcases shared with hcar | hbump
      · exact hcar n p
      · -- The device is in both, so this network would have been told.
        exact absurd (hbump _ (mem_networksSharing hn ⟨x, hx, rfl, hact, rfl⟩ hxn)) hsilent
  · exact carries_of_kept (others n hn₀)

theorem carried_step (he : Effect c s m m') (hinv : m.Inv) {x : Membership} (hx : x ∈ m.memberships)
    (hx' : x ∈ m'.memberships) (hact : x.state = .active) (hF : F ≤ m.version x.networkId)
    (hnone : ¬m'.Logged x.networkId F .routes) (d : Id × Prefix) :
    (d ∈ carriedPrefixesForDevice m'.toTables x.deviceId →
      d ∈ carriedPrefixesForDevice m.toTables x.deviceId) ∧
    (d ∈ carriedPrefixesForDevice m.toTables x.deviceId →
      d ∈ carriedPrefixesForDevice m'.toTables x.deviceId ∨
        d.1 ≠ x.networkId ∧ ∃ y ∈ m.memberships, y.deviceId = x.deviceId ∧
          s.event = .revokeMembership d.1 y.id) := by
  have hsame : ∀ {a b p : Prop}, (a ↔ b) → (a → b) ∧ (b → a ∨ p) :=
    fun h => ⟨h.1, fun hd => .inl (h.2 hd)⟩
  cases he with
  | settings t bumps members routes =>
    refine hsame ?_
    rw [Mesh.toTables_recordAll]
    exact mem_carried_congr (activeIn_of_eq members.memberships)
      fun _ => carries_of_eq routes.1 routes.2.1
  | routes t n₀ bumps members inv others policies logged named kinds exist shared =>
    refine hsame ?_
    rw [Mesh.toTables_recordAll]
    exact mem_carried_congr (activeIn_of_eq members.memberships)
      (carries_routes hx hact hF others logged shared hnone)
  | policy | egress =>
    refine hsame ?_
    rw [Mesh.toTables_recordAll]
    exact mem_carried_congr (activeIn_of_eq rfl) fun _ => carries_of_eq rfl rfl
  | joined t y dev key wrote =>
    by_cases hy : y.deviceId = x.deviceId
    · -- Its other networks are told, and this is one of them.
      have hdev : x.deviceId = dev.id := hy.symm.trans wrote.deviceId
      have hne := wrote.notMember x hx hdev
      have hother : x.networkId ∈ otherNetworksForDevice t y.deviceId y.networkId := by
        unfold otherNetworksForDevice
        rw [List.mem_dedup, wrote.memberships]
        exact List.mem_map_of_mem (List.mem_filter.2
          ⟨List.mem_append_left _ hx, decide_eq_true ⟨hy.symm, hne, hact⟩⟩)
      have hbump : (x.networkId, [ChangeKind.routes]) ∈ Enroll.joinBumps t y :=
        .tail _ (List.mem_map.2 ⟨_, hother, rfl⟩)
      exact absurd (Mesh.logged_recordAll s.now { m with toTables := t } x.networkId F _ _ _ hbump
        (.head _) hF) hnone
    · refine hsame ?_
      rw [Mesh.toTables_recordAll]
      refine mem_carried_congr ?_ fun _ => ?_
      · unfold ActiveIn
        rw [wrote.memberships]
        constructor
        · rintro ⟨z, hz, hzd, hrest⟩
          rcases Base.mem_concat.1 hz with hz | rfl
          · exact ⟨z, hz, hzd, hrest⟩
          · exact absurd hzd hy
        · rintro ⟨z, hz, hrest⟩
          exact ⟨z, List.mem_append_left _ hz, hrest⟩
      · rw [wrote.rest]
        exact carries_of_eq rfl rfl
  | revoked y key event member =>
    rw [Mesh.toTables_recordAll] at hx' ⊢
    have hiff : ∀ t : Tables, d ∈ carriedPrefixesForDevice t x.deviceId ↔
        ActiveIn t x.deviceId d.1 ∧ Carries t d.1 d.2 := fun t => mem_carried
    rw [hiff, hiff]
    constructor
    · rintro ⟨⟨z, hz, hzd, hzact, hzn⟩, hcar⟩
      refine ⟨?_, hcar⟩
      rcases List.mem_map.1 hz with ⟨w, hw, rfl⟩
      by_cases hid : w.id = y.id
      · rw [if_pos hid] at hzact
        cases hzact
      · rw [if_neg hid] at hzd hzact hzn
        exact ⟨w, hw, hzd, hzact, hzn⟩
    · rintro ⟨⟨z, hz, hzd, hzact, hzn⟩, hcar⟩
      by_cases hd : d.1 = x.networkId
      · exact .inl ⟨⟨x, hx', rfl, hact, hd.symm⟩, hcar⟩
      · by_cases hid : z.id = y.id
        · have hzy := hinv.member_eq hz member hid
          refine .inr ⟨hd, y, member, by rw [← hzy]; exact hzd, ?_⟩
          rw [event, ← hzn, hzy]
        · refine .inl ⟨⟨z, List.mem_map.2 ⟨z, hz, if_neg hid⟩, hzd, hzact, hzn⟩, hcar⟩
  | forgot org gone =>
    refine hsame ?_
    rcases mem_deleteDevice.1 hx' with ⟨_, hkept⟩
    rw [toTables_deleteDevice (Mesh.toTables_recordAll _ _ _)]
    refine mem_carried_congr ?_ fun _ => carries_of_eq rfl rfl
    unfold ActiveIn
    constructor
    · rintro ⟨z, hz, hrest⟩
      exact ⟨z, (mem_deleteDevice.1 hz).1, hrest⟩
    · rintro ⟨z, hz, hzd, hrest⟩
      refine ⟨z, mem_deleteDevice.2 ⟨hz, ?_⟩, hzd, hrest⟩
      rwa [hzd]
  | network t r members routes =>
    refine hsame ?_
    exact mem_carried_congr (activeIn_of_eq members.memberships)
      fun _ => carries_of_eq routes.1 routes.2.1
  | pruned =>
    refine hsame ?_
    rw [toTables_pruneNetwork]

def KeepsCollision (device : Id) (m : Mesh) (s : Stamped) : Prop :=
  match s.event with
  | .revokeMembership n id =>
    (∃ y ∈ m.memberships, y.id = id ∧ y.deviceId = device) →
      colliding (carriedPrefixesForDevice m.toTables device) = [] ∨
        colliding ((carriedPrefixesForDevice m.toTables device).filter (·.1 ≠ n)) ≠ []
  | _ => True

theorem colliding_step (he : Effect c s m m') (hinv : m.Inv) {x : Membership}
    (hx : x ∈ m.memberships) (hx' : x ∈ m'.memberships) (hact : x.state = .active)
    (hF : F ≤ m.version x.networkId) (hnone : ¬m'.Logged x.networkId F .routes)
    (hkeeps : KeepsCollision x.deviceId m s) :
    colliding (carriedPrefixesForDevice m'.toTables x.deviceId) = [] ↔
      colliding (carriedPrefixesForDevice m.toTables x.deviceId) = [] := by
  have hstep := carried_step he hinv hx hx' hact hF hnone
  constructor
  · intro hnil
    by_contra hsome
    -- Whatever collided among the networks it keeps still does.
    have hlost : ∀ carried : List (Id × Prefix), colliding carried ≠ [] →
        ∃ d ∈ carried, d ∉ carriedPrefixesForDevice m'.toTables x.deviceId := by
      intro carried hne
      by_contra hall
      push Not at hall
      rcases List.exists_mem_of_ne_nil _ hne with ⟨p, hp⟩
      have := colliding_mono hall hp
      rw [hnil] at this
      cases this
    rcases hlost _ hsome with ⟨d, hd, hgone⟩
    rcases (hstep d).2 hd with hd | ⟨_, y, hy, hyd, hevent⟩
    · exact hgone hd
    · unfold KeepsCollision at hkeeps
      rw [hevent] at hkeeps
      rcases hkeeps ⟨y, hy, rfl, hyd⟩ with hempty | hleft
      · exact hsome hempty
      · rcases hlost _ hleft with ⟨d', hd', hgone'⟩
        rcases List.mem_filter.1 hd' with ⟨hd', hne⟩
        rcases (hstep d').2 hd' with hd' | ⟨_, y', _, _, hevent'⟩
        · exact hgone' hd'
        · rw [hevent, Event.revokeMembership.injEq] at hevent'
          rw [hevent'.1] at hne
          simp at hne
  · intro hnil
    rw [List.eq_nil_iff_forall_not_mem]
    intro p hp
    have := colliding_mono (fun d hd => (hstep d).1 hd) hp
    rw [hnil] at this
    cases this

end Carried

end Meshp.Session
