import Meshp.Peerset.Set
import Meshp.Session.Explained

/-!
# What an Agent Is Answered

The builder's answers, taken apart once. An agent within the delta window is sent
the snapshot, or is told that nothing it can see has moved, or is sent the delta;
and in the second case the log really is silent.
-/

namespace Meshp.Session

open Base (bind_eq_ok)
open Store

variable {m : Mesh} {row : SessionRow} {x : Membership} {F : Nat} {b : Builder}
  {d : Wire.StateDelta} {t : Tables}

theorem sessionRow_ok {id : Id} (h : sessionRow m id = .ok row) :
    row.membership ∈ m.memberships ∧ row.membership.id = id ∧
      row.network.stateVersion = m.version row.membership.networkId ∧
      row.network.oldestDeltaVersion = m.floor row.membership.networkId := by
  unfold sessionRow at h
  split at h
  · cases h
  rename_i x hfind
  split at h
  · rename_i d n _ hnet
    cases h
    obtain ⟨hmem, hid⟩ := Base.of_find? hfind
    refine ⟨hmem, hid, ?_, ?_⟩
    · rw [Mesh.version, hnet]
      rfl
    · rw [Mesh.floor, hnet]
      rfl
  · cases h

theorem sessionRow_isOk (hinv : m.Inv) (hx : x ∈ m.memberships) :
    ∃ row, sessionRow m x.id = .ok row ∧ row.membership = x := by
  have hfind : m.memberships.find? (·.id = x.id) = some x :=
    Base.find?_of_nodup hinv.members.memberIds hx
  rcases hinv.members.memberDevice x hx with ⟨d, hd, hdx⟩
  have hdev : m.devices.find? (·.id = x.deviceId) = some d := by
    rw [← hdx]
    exact Base.find?_of_nodup hinv.members.deviceIds hd
  rcases Option.isSome_iff_exists.1 (hinv.networks x hx) with ⟨r, hr⟩
  refine ⟨⟨x, r⟩, ?_, rfl⟩
  unfold sessionRow
  simp only [hfind, hdev, hr]

theorem mem_changesSince {n : Id} {k : ChangeKind} (hb : m.LogBounded) :
    k ∈ changesSince m n F (m.version n) ↔ m.Logged n F k := by
  unfold changesSince Mesh.Logged
  rw [List.mem_map]
  constructor
  · rintro ⟨r, hr, rfl⟩
    rcases List.mem_filter.1 hr with ⟨hmem, hp⟩
    rw [decide_eq_true_eq] at hp
    exact ⟨r, hmem, hp.1, hp.2.1, rfl⟩
  · rintro ⟨r, hr, hn, hF, rfl⟩
    have hle := hb r hr
    rw [hn] at hle
    exact ⟨r, List.mem_filter.2 ⟨hr, by simp only [hn, hF, hle, and_self, decide_true]⟩, rfl⟩

structure SnapshotOf (b : Builder) (t : Tables) (x : Membership) (d : Wire.StateDelta) : Prop where
  fromVersion : d.fromVersion = 0
  upsertPeers : d.upsertPeers = (peersOf t x.networkId x.id).map (peerFrom b.relayConfig)
  removePeerKeys : d.removePeerKeys = []
  filter : filterFor t x = .ok d.filter
  routeGroups : d.routeGroups = (routeGroupsFor b t x).assigned
  advertised : d.advertised = (routeGroupsFor b t x).advertised

theorem snapshotFromPeers_ok
    (h : snapshotFromPeers b t row (peersOf t row.membership.networkId row.membership.id) = .ok d) :
    SnapshotOf b t row.membership d := by
  unfold snapshotFromPeers at h
  rcases bind_eq_ok.1 h with ⟨filter, hfilter, h⟩
  cases h
  exact ⟨rfl, rfl, rfl, hfilter, rfl, rfl⟩

theorem SnapshotOf.same {y : Membership} (h : SnapshotOf b t y d) (hxy : SameMember y x) :
    SnapshotOf b t x d := by
  rw [← hxy]
  exact { h with }

theorem snapshot_ok {id : Id} (h : b.snapshot m id = .ok d) :
    ∃ x ∈ m.memberships, x.id = id ∧ SnapshotOf b m.toTables x d := by
  rcases bind_eq_ok.1 h with ⟨row, hrow, hd⟩
  rcases sessionRow_ok hrow with ⟨hmem, hid, _⟩
  exact ⟨row.membership, hmem, hid, snapshotFromPeers_ok hd⟩

structure Silent (F : Nat) (d : Wire.StateDelta) : Prop where
  fromVersion : d.fromVersion = F
  upsertPeers : d.upsertPeers = []
  removePeerKeys : d.removePeerKeys = []
  filter : d.filter = none
  routeGroups : d.routeGroups = []
  removedRouteGroupIds : d.removedRouteGroupIds = []
  advertised : d.advertised = none

structure DeltaOf (b : Builder) (m : Mesh) (x : Membership) (F : Nat) (d : Wire.StateDelta) :
    Prop where
  fromVersion : d.fromVersion = F
  upsertPeers : ∀ v, v ∈ d.upsertPeers ↔
    ∃ r ∈ (upsertedIds x.id (changesSince m x.networkId F (m.version x.networkId))).filterMap
      (peerOf m.toTables), peerFrom b.relayConfig r = v
  removePeerKeys : ∀ key, key ∈ d.removePeerKeys ↔
    key ∈ removedKeys (changesSince m x.networkId F (m.version x.networkId)) ∧
      ∀ r ∈ (upsertedIds x.id (changesSince m x.networkId F (m.version x.networkId))).filterMap
        (peerOf m.toTables), r.key.publicKey ≠ key
  filter : filterChange m.toTables x (changesSince m x.networkId F (m.version x.networkId)) =
    .ok d.filter
  routes : routesMoved (changesSince m x.networkId F (m.version x.networkId)) = true →
    d.routeGroups = (routeGroupsFor b m.toTables x).assigned ∧
      d.removedRouteGroupIds = withdrawals (routeGroupsFor b m.toTables x)
        (changesSince m x.networkId F (m.version x.networkId)) ∧
      d.advertised = (routeGroupsFor b m.toTables x).advertised
  noRoutes : routesMoved (changesSince m x.networkId F (m.version x.networkId)) = false →
    d.routeGroups = [] ∧ d.removedRouteGroupIds = [] ∧ d.advertised = none

theorem delta_ok (hver : row.network.stateVersion = m.version row.membership.networkId)
    (h : delta b m row F = .ok d) : DeltaOf b m row.membership F d := by
  unfold delta at h
  rw [hver] at h
  rcases bind_eq_ok.1 h with ⟨filter, hfilter, h⟩
  cases h
  refine ⟨rfl, fun v => ?_, fun key => ?_, hfilter, fun hr => ?_, fun hr => ?_⟩
  · rw [List.mem_insertionSort, List.mem_map]
  · rw [List.mem_insertionSort, List.mem_filter]
    simp
  · simp only [hr, if_true, and_self]
  · simp only [hr, Bool.false_eq_true, if_false, and_self]

/-- Whether `For` gets as far as the route groups: a snapshot does once its filter has compiled, a
delta when its window says they moved. -/
def readsRoutes (m : Mesh) (row : SessionRow) (F : Nat) : Bool :=
  let head := row.network.stateVersion
  let changes := changesSince m row.membership.networkId F head
  let peers := peersOf m.toTables row.membership.networkId row.membership.id
  let whole := (filterFor m.toTables row.membership).toOption.isSome
  if F = 0 ∨ head < F ∨ F < row.network.oldestDeltaVersion then whole
  else if F = head then false
  else if changes.length = 0 then false
  else if peers.length < changes.length then whole
  else routesMoved changes

theorem snapshotFromPeers_filter {peers : List LiveRow}
    (h : snapshotFromPeers b t row peers = .ok d) :
    (filterFor t row.membership).toOption.isSome = true ∧
      d.toVersion = row.network.stateVersion := by
  unfold snapshotFromPeers at h
  rcases bind_eq_ok.1 h with ⟨filter, hfilter, h⟩
  cases h
  rw [hfilter]
  exact ⟨rfl, rfl⟩

theorem delta_toVersion (h : delta b m row F = .ok d) : d.toVersion = row.network.stateVersion := by
  unfold delta at h
  rcases bind_eq_ok.1 h with ⟨_, _, h⟩
  cases h
  rfl

theorem answer_ok (hb : m.LogBounded) (hrow : sessionRow m row.membership.id = .ok row)
    (h : answer b m row F = .ok d) :
    d.toVersion = row.network.stateVersion ∧
      ((b.snapshot m row.membership.id = .ok d ∧ readsRoutes m row F = true) ∨
        (F ≠ 0 ∧ row.network.oldestDeltaVersion ≤ F ∧
          ((Silent F d ∧ ∀ k, ¬m.Logged row.membership.networkId F k) ∨
            (DeltaOf b m row.membership F d ∧ readsRoutes m row F =
              routesMoved (changesSince m row.membership.networkId F
                row.network.stateVersion))))) := by
  have hver := (sessionRow_ok hrow).2.2.1
  have hsnap : b.snapshot m row.membership.id = snapshotFromPeers b m.toTables row
      (peersOf m.toTables row.membership.networkId row.membership.id) := by
    unfold Builder.snapshot
    rw [hrow]
    rfl
  rw [hsnap]
  unfold answer at h
  simp only [readsRoutes]
  by_cases hout : F = 0 ∨ row.network.stateVersion < F ∨ F < row.network.oldestDeltaVersion
  · rw [if_pos hout] at h ⊢
    exact ⟨(snapshotFromPeers_filter h).2, .inl ⟨h, (snapshotFromPeers_filter h).1⟩⟩
  rw [if_neg hout] at h ⊢
  push Not at hout
  rcases hout with ⟨hF, _, hfloor⟩
  split at h
  · -- Already at the head, above which nothing is logged.
    rename_i hhead
    cases h
    refine ⟨rfl, .inr ⟨hF, hfloor, .inl ⟨⟨rfl, rfl, rfl, rfl, rfl, rfl, rfl⟩, ?_⟩⟩⟩
    rw [hhead, hver]
    exact not_logged_version hb _
  · rename_i hhead
    rw [if_neg hhead]
    unfold changeFrom at h
    simp only at h
    split at h
    · rename_i hnone
      cases h
      refine ⟨rfl, .inr ⟨hF, hfloor, .inl ⟨⟨rfl, rfl, rfl, rfl, rfl, rfl, rfl⟩,
        fun k hk => ?_⟩⟩⟩
      rw [← mem_changesSince hb, ← hver, List.length_eq_zero_iff.1 hnone] at hk
      cases hk
    · rename_i hsome
      rw [if_neg hsome]
      split at h
      · rename_i hmany
        rw [if_pos hmany]
        exact ⟨(snapshotFromPeers_filter h).2, .inl ⟨h, (snapshotFromPeers_filter h).1⟩⟩
      · rename_i hfew
        rw [if_neg hfew]
        exact ⟨delta_toVersion h, .inr ⟨hF, hfloor, .inr ⟨delta_ok hver h, rfl⟩⟩⟩

theorem for_ok (hinv : m.Inv) (hx : x ∈ m.memberships) (h : b.for m x.id F = .ok d) :
    b.snapshot m x.id = .ok d ∨
      (F ≠ 0 ∧ Silent F d ∧ ∀ k, ¬m.Logged x.networkId F k) ∨ (F ≠ 0 ∧ DeltaOf b m x F d) := by
  rcases sessionRow_isOk hinv hx with ⟨row, hrow, rfl⟩
  unfold Builder.for at h
  rw [hrow] at h
  rcases (answer_ok hinv.logBounded hrow h).2 with hsnap | ⟨hF, _, hsilent | hdelta⟩
  · exact .inl hsnap.1
  · exact .inr (.inl ⟨hF, hsilent⟩)
  · exact .inr (.inr ⟨hF, hdelta.1⟩)

theorem policyAddresses_ne_nil (h : x.addressV4 ≠ none ∨ x.addressV6 ≠ none) :
    policyAddresses x ≠ [] := by
  unfold policyAddresses
  cases h4 : x.addressV4 with
  | some a => simp
  | none =>
    cases h6 : x.addressV6 with
    | some a => simp
    | none =>
      rw [h4, h6] at h
      simp at h

theorem mem_policyDevices {n : Id} {r : LiveRow} (hr : r ∈ liveRows t)
    (hn : r.membership.networkId = n)
    (haddr : r.membership.addressV4 ≠ none ∨ r.membership.addressV6 ≠ none) :
    policyDevice r ∈ policyDevices t n := by
  unfold policyDevices
  refine List.mem_filter.2 ⟨List.mem_map_of_mem (List.mem_filter.2 ⟨hr, by simpa using hn⟩), ?_⟩
  rw [decide_eq_true_eq]
  exact policyAddresses_ne_nil haddr

theorem matches_self (h : x.addressV4 ≠ none ∨ x.addressV6 ≠ none) :
    (policyAddresses x).any
      (((x.addressV4.toList ++ x.addressV6.toList).map Netip.Addr.unmap).contains ·.addr) = true := by
  rcases List.exists_mem_of_ne_nil _ (policyAddresses_ne_nil h) with ⟨p, hp⟩
  refine List.any_eq_true.2 ⟨p, hp, ?_⟩
  rcases List.mem_map.1 hp with ⟨a, ha, rfl⟩
  rw [List.contains_iff_mem]
  exact List.mem_map_of_mem ha

theorem compileFor_isOk (hinv : m.Inv) (hx : x ∈ m.memberships) (hact : x.state = .active)
    {doc : Acl.Document} (hdoc : doc.validate = .ok ()) :
    ∃ self filter, selfAmong (policyDevices m.toTables x.networkId) x = some self ∧
      Acl.compile doc self (policyDevices m.toTables x.networkId) = .ok filter ∧
      compileFor m.toTables x doc = .ok filter := by
  have haddr := hinv.members.memberAddress x hx
  rcases hinv.members.exists_liveRow hx hact with ⟨r, hr, rfl⟩
  have hmem := mem_policyDevices hr rfl haddr
  -- The device itself is in the list, so some device is found, with an address.
  cases hself : selfAmong (policyDevices m.toTables r.membership.networkId) r.membership with
  | none =>
    have hnone := List.find?_eq_none.1 hself _ hmem
    exact absurd (matches_self haddr) hnone
  | some self =>
    have hself' := List.mem_of_find?_eq_some hself
    have haddr' : self.addresses ≠ [] := by
      have := (List.mem_filter.1 hself').2
      simpa using this
    rcases Acl.compile_ok hdoc haddr' (policyDevices m.toTables r.membership.networkId)
      with ⟨filter, hfilter⟩
    refine ⟨self, filter, rfl, hfilter, ?_⟩
    unfold compileFor
    simp only [hself, hfilter]

theorem filterFor_isOk (hinv : m.Inv) (hx : x ∈ m.memberships) (hact : x.state = .active) :
    ∃ filter, filterFor m.toTables x = .ok filter := by
  unfold filterFor activeDocument
  cases hpol : activePolicy m.toTables x.networkId with
  | none => exact ⟨none, rfl⟩
  | some p =>
    have hvalid := hinv.policies p (List.mem_of_find?_eq_some hpol)
    rcases compileFor_isOk hinv hx hact hvalid with ⟨_, filter, _, _, hfilter⟩
    refine ⟨some filter, ?_⟩
    simp only [hvalid, hfilter]
    rfl

theorem snapshotFromPeers_isOk (hinv : m.Inv) (hx : row.membership ∈ m.memberships)
    (hact : row.membership.state = .active) (b : Builder) (peers : List LiveRow) :
    ∃ d, snapshotFromPeers b m.toTables row peers = .ok d := by
  rcases filterFor_isOk hinv hx hact with ⟨filter, hfilter⟩
  unfold snapshotFromPeers
  rw [hfilter]
  exact ⟨_, rfl⟩

theorem delta_isOk (hinv : m.Inv) (hx : row.membership ∈ m.memberships)
    (hact : row.membership.state = .active) (b : Builder) (F : Nat) :
    ∃ d, delta b m row F = .ok d := by
  rcases filterFor_isOk hinv hx hact with ⟨filter, hfilter⟩
  unfold delta filterChange
  by_cases hpolicy : .policy ∈
      changesSince m row.membership.networkId F row.network.stateVersion
  · simp only [if_pos hpolicy, hfilter]
    exact ⟨_, rfl⟩
  · simp only [if_neg hpolicy]
    exact ⟨_, rfl⟩

theorem snapshot_isOk (hinv : m.Inv) (hx : x ∈ m.memberships) (hact : x.state = .active)
    (b : Builder) : ∃ d, b.snapshot m x.id = .ok d := by
  rcases sessionRow_isOk hinv hx with ⟨row, hrow, rfl⟩
  unfold Builder.snapshot
  rw [hrow]
  exact snapshotFromPeers_isOk hinv hx hact b _

theorem for_isOk (hinv : m.Inv) (hx : x ∈ m.memberships) (hact : x.state = .active) (b : Builder)
    (F : Nat) : ∃ d, b.for m x.id F = .ok d := by
  rcases sessionRow_isOk hinv hx with ⟨row, hrow, rfl⟩
  have hsnap := snapshotFromPeers_isOk hinv hx hact b
  unfold Builder.for
  rw [hrow]
  change ∃ d, answer b m row F = .ok d
  unfold answer
  split
  · exact hsnap _
  split
  · exact ⟨_, rfl⟩
  · unfold changeFrom
    simp only
    split
    · exact ⟨_, rfl⟩
    split
    · exact hsnap _
    · exact delta_isOk hinv hx hact b F

theorem snapshots_ok {c : Enroll.Checks} {b₁ b₂ : Builder} {m₁ m₂ : Mesh} {ss : List Stamped}
    {σ₁ σ₂ : Wire.StateDelta} (hinv₁ : m₁.Inv) (hinv₂ : m₂.Inv) (hx : x ∈ m₂.memberships)
    (hrun : m₂ = Base.run (apply c) m₁ ss) (h₁ : b₁.snapshot m₁ x.id = .ok σ₁)
    (h₂ : b₂.snapshot m₂ x.id = .ok σ₂) :
    SnapshotOf b₁ m₁.toTables x σ₁ ∧ SnapshotOf b₂ m₂.toTables x σ₂ ∧ x.id < m₁.nextId := by
  rcases snapshot_ok h₁ with ⟨y₁, hy₁, hid₁, hσ₁⟩
  rcases snapshot_ok h₂ with ⟨y₂, hy₂, hid₂, hσ₂⟩
  refine ⟨hσ₁.same ?_, ?_, ?_⟩
  · rw [hrun] at hx
    exact sameMember_run hinv₁ ss hy₁ hx hid₁.symm
  · rw [← hinv₂.member_eq hy₂ hx hid₂]
    exact hσ₂
  · rw [← hid₁]
    exact hinv₁.members.memberBelow y₁ hy₁

end Meshp.Session
