import Meshp.Session.Answers

/-!
# When a Delta Carries the Filter

A packet filter is compiled from the policy and from whoever is in the network, so
it moves when the policy is published and also when a device a rule picks comes or
goes. The delta carries a filter for the first of these and not for the second: an
agent that folds deltas in keeps the filter it had while devices join and leave
around it.
-/

namespace Meshp.Session

open Base (Along run)
open Store

section Step

variable {c : Enroll.Checks} {s : Stamped} {m m' : Mesh} {n : Id} {F : Nat}

/-- Some rows left a network: those of one revoked membership, or of one forgotten device. -/
structure RowsLeft (s : Stamped) (m m' : Mesh) (n : Id) (gone : Membership → Bool) : Prop where
  rows : netRows m'.toTables n = (netRows m.toTables n).filter fun r => !gone r.membership
  stay : ∀ x ∈ m'.memberships, x.state = .active → gone x = false
  event : (∃ n' id, s.event = .revokeMembership n' id ∧ ∀ y, gone y = true → y.id = id) ∨
    ∃ org device, s.event = .forgetDevice org device ∧ ∀ y, gone y = true → y.deviceId = device

theorem netRows_eq (h : liveRows m'.toTables = liveRows m.toTables) :
    netRows m'.toTables n = netRows m.toTables n := by
  unfold netRows
  rw [h]

theorem netRows_recordAll {now : Time} {m₀ : Mesh} (bumps : List (Id × List ChangeKind)) :
    netRows (Mesh.recordAll now m₀ bumps).toTables n = netRows m₀.toTables n := by
  rw [Mesh.toTables_recordAll]

theorem netRows_effect (he : Effect c s m m') (hinv : m.Inv) (n : Id) :
    netRows m'.toTables n = netRows m.toTables n ∨
      (∃ req r, s.event = .redeem req ∧
        (∃ tok ∈ m.enrollmentTokens, c.hashToken req.token = .ok tok.tokenHash ∧
          tok.networkId = n ∧ r.membership.tags = tok.preassignedTags) ∧
        netRows m'.toTables n = netRows m.toTables n ++ [r]) ∨
      ∃ gone, RowsLeft s m m' n gone := by
  cases he with
  | settings t bumps members | routes t n' bumps members =>
    left
    rw [netRows_recordAll]
    exact netRows_eq (liveRows_of_kept members)
  | policy | egress =>
    left
    rw [netRows_recordAll]
    rfl
  | joined t x d key wrote req event token =>
    rw [netRows_recordAll]
    have hrows := liveRows_joined hinv.members wrote
    by_cases hn : x.networkId = n
    · rcases token with ⟨tok, htok, hhash, hnet, htags⟩
      refine .inr (.inl ⟨req, ⟨x, { membershipId := x.id, publicKey := key }, d⟩, event,
        ⟨tok, htok, hhash, hnet.symm.trans hn, htags⟩, ?_⟩)
      unfold netRows
      rw [hrows, List.filter_append, List.filter_singleton]
      simp only [hn, decide_true, cond_true]
    · left
      unfold netRows
      rw [hrows, List.filter_append, List.filter_singleton]
      simp only [hn, decide_false, cond_false, List.append_nil]
  | revoked x key event =>
    refine .inr (.inr ⟨fun y => y.id = x.id, ?_, ?_, .inl ⟨_, _, event, ?_⟩⟩)
    · rw [netRows_recordAll]
      unfold netRows
      rw [liveRows_markRevoked, List.filter_filter, List.filter_filter]
      refine List.filter_congr fun r _ => ?_
      rw [Bool.and_comm, decide_not]
    · intro y hy hact
      rw [Mesh.toTables_recordAll] at hy
      rcases List.mem_map.1 hy with ⟨z, _, rfl⟩
      split at hact
      · cases hact
      · rename_i hne
        rw [if_neg hne]
        exact decide_eq_false hne
    · exact fun y hy => of_decide_eq_true hy
  | forgot org device event =>
    refine .inr (.inr ⟨fun y => y.deviceId = device, ?_, ?_, .inr ⟨_, _, event, ?_⟩⟩)
    · unfold netRows
      rw [liveRows_deleteDevice, Mesh.toTables_recordAll, List.filter_filter, List.filter_filter]
      · refine List.filter_congr fun r _ => ?_
        rw [Bool.and_comm, decide_not]
      · rw [Mesh.toTables_recordAll]
        exact hinv.members
    · exact fun y hy _ => decide_eq_false (mem_deleteDevice.1 hy).2
    · exact fun y hy => of_decide_eq_true hy
  | network t r members => exact .inl (netRows_eq (liveRows_of_kept members))
  | pruned =>
    left
    rw [toTables_pruneNetwork]

end Step

/-- Whether a device of membership `y` has one of the addresses membership `x` looks for itself by.
-/
def sharesAddress (x y : Membership) : Bool :=
  (policyAddresses y).any
    (((x.addressV4.toList ++ x.addressV6.toList).map Netip.Addr.unmap).contains ·.addr)

def unpicked (t : Tables) (n : Id) (tags : List String) : Prop :=
  ∀ p ∈ activePolicy t n, p.document.picks tags = false

def leavesUnseen (t : Tables) (y : Membership) : Prop :=
  unpicked t y.networkId y.tags ∧
    ∀ x ∈ t.memberships, x.networkId = y.networkId → x.id ≠ y.id → sharesAddress x y = false

def UnseenByPolicy (c : Enroll.Checks) (n : Id) (m : Mesh) (s : Stamped) : Prop :=
  match s.event with
  | .redeem req =>
    ∀ tok ∈ m.enrollmentTokens, c.hashToken req.token = .ok tok.tokenHash → tok.networkId = n →
      unpicked m.toTables n tok.preassignedTags
  | .revokeMembership _ id =>
    ∀ y ∈ m.memberships, y.id = id → y.networkId = n → y.state = .active →
      leavesUnseen m.toTables y
  | .forgetDevice _ device =>
    ∀ y ∈ m.memberships, y.deviceId = device → y.networkId = n → y.state = .active →
      leavesUnseen m.toTables y
  | _ => True

theorem selfAmong_eq (t : Tables) (n : Id) (x : Membership) :
    selfAmong (policyDevices t n) x =
      ((netRows t n).find? fun r => sharesAddress x r.membership).map policyDevice := by
  unfold selfAmong policyDevices
  rw [Base.find?_filter_eq]
  · rw [List.find?_map]
    rfl
  · intro d _ hd
    rw [decide_eq_true_eq]
    intro hnil
    rw [hnil] at hd
    cases hd

theorem picked_eq (t : Tables) (n : Id) (doc : Acl.Document) :
    (policyDevices t n).filter (fun d => doc.picks d.tags) =
      (((netRows t n).filter fun r => doc.picks r.membership.tags).map policyDevice).filter
        (·.addresses ≠ []) := by
  unfold policyDevices
  rw [List.filter_comm, List.filter_map]
  rfl

/-- Whatever the filter of a member is compiled from is the same in two meshes: the policy, the rows
its rules pick, and the row the member finds itself by. -/
structure SameFilter (m₁ m : Mesh) (n : Id) (x : Membership) : Prop where
  policy : activePolicy m.toTables n = activePolicy m₁.toTables n
  picked : ∀ p ∈ activePolicy m₁.toTables n,
    ((netRows m.toTables n).filter fun r => p.document.picks r.membership.tags) =
      (netRows m₁.toTables n).filter fun r => p.document.picks r.membership.tags
  self : x ∈ m.memberships →
    ((netRows m.toTables n).find? fun r => sharesAddress x r.membership) =
      (netRows m₁.toTables n).find? fun r => sharesAddress x r.membership

variable {m : Mesh} {x : Membership}

theorem SameFilter.filterFor {m₁ : Mesh} (h : SameFilter m₁ m x.networkId x)
    (hx : x ∈ m.memberships) :
    Session.filterFor m.toTables x = Session.filterFor m₁.toTables x := by
  have hself : selfAmong (policyDevices m.toTables x.networkId) x =
      selfAmong (policyDevices m₁.toTables x.networkId) x := by
    rw [selfAmong_eq, selfAmong_eq, h.self hx]
  unfold Session.filterFor activeDocument
  rw [h.policy]
  cases hp : activePolicy m₁.toTables x.networkId with
  | none => rfl
  | some p =>
    have hpicked : (policyDevices m.toTables x.networkId).filter
        (fun d => p.document.picks d.tags) =
          (policyDevices m₁.toTables x.networkId).filter fun d => p.document.picks d.tags := by
      rw [picked_eq, picked_eq, h.picked p hp]
    have hcompile : compileFor m.toTables x p.document = compileFor m₁.toTables x p.document := by
      unfold compileFor
      simp only [hself, Acl.compile_eq_of_unpicked hpicked]
    cases hvalid : p.document.validate with
    | error fault => simp only [hvalid]
    | ok _ => simp only [hvalid, hcompile]

theorem exists_self (hinv : m.Inv) (hx : x ∈ m.memberships) (hact : x.state = .active) :
    ((netRows m.toTables x.networkId).find? fun r => sharesAddress x r.membership).isSome := by
  rcases hinv.members.exists_liveRow hx hact with ⟨r, hr, rfl⟩
  rw [List.find?_isSome]
  exact ⟨r, mem_netRows.2 ⟨hr, rfl⟩, matches_self (hinv.members.memberAddress _ hx)⟩

section Run

variable {c : Enroll.Checks} {s : Stamped} {m₁ m m' : Mesh} {n : Id} {F : Nat} {x : Membership}

theorem SameFilter.joined (h : SameFilter m₁ m n x) (hinv : m.Inv) (hn : x.networkId = n)
    (hact : x.state = .active) (hx : x ∈ m'.memberships → x ∈ m.memberships)
    (hpol : activePolicy m'.toTables n = activePolicy m.toTables n) {r : LiveRow}
    (hrows : netRows m'.toTables n = netRows m.toTables n ++ [r])
    (hun : unpicked m.toTables n r.membership.tags) : SameFilter m₁ m' n x where
  policy := hpol.trans h.policy
  picked := fun p hp => by
    have hr : p.document.picks r.membership.tags = false := hun p (h.policy ▸ hp)
    rw [hrows, List.filter_append, List.filter_singleton, hr, cond_false, List.append_nil]
    exact h.picked p hp
  self := fun hx' => by
    subst hn
    rcases Option.isSome_iff_exists.1 (exists_self hinv (hx hx') hact) with ⟨own, hown⟩
    rw [hrows, List.find?_append, ← h.self (hx hx'), hown]
    rfl

theorem SameFilter.left (h : SameFilter m₁ m n x) (hn : x.networkId = n) (hact : x.state = .active)
    (hx : x ∈ m'.memberships → x ∈ m.memberships)
    (hpol : activePolicy m'.toTables n = activePolicy m.toTables n) {gone : Membership → Bool}
    (hleft : RowsLeft s m m' n gone) (hinv : m.Inv)
    (hun : ∀ r ∈ netRows m.toTables n, gone r.membership = true →
      leavesUnseen m.toTables r.membership) : SameFilter m₁ m' n x where
  policy := hpol.trans h.policy
  picked := fun p hp => by
    rw [hleft.rows, Base.filter_filter_eq]
    · exact h.picked p hp
    · intro r hr hpick
      by_contra hgone
      rw [Bool.not_eq_true, Bool.not_eq_false'] at hgone
      have hnet := (mem_netRows.1 hr).2
      have := (hun r hr hgone).1 p (by rw [hnet, h.policy]; exact hp)
      rw [hpick] at this
      cases this
  self := fun hx' => by
    rw [hleft.rows, Base.find?_filter_eq]
    · exact h.self (hx hx')
    · intro r hr hshare
      by_contra hgone
      rw [Bool.not_eq_true, Bool.not_eq_false'] at hgone
      rcases mem_netRows.1 hr with ⟨hlive, hnet⟩
      -- The member itself stays, so whoever leaves is another.
      have hne : x.id ≠ r.membership.id := by
        intro hid
        have heq := hinv.member_eq (hx hx')
          (mem_liveRows.1 hlive).1 hid
        rw [← heq, hleft.stay x hx' hact] at hgone
        cases hgone
      have := (hun r hr hgone).2 x (hx hx') (hn.trans hnet.symm) hne
      rw [hshare] at this
      cases this

theorem sameFilter_step (he : Effect c s m m') (hinv : m.Inv) (hF : F ≤ m.version n)
    (hfloor : m'.floor n ≤ F) (hcond : UnseenByPolicy c n m s) (hn : x.networkId = n)
    (hact : x.state = .active) (hold : x.id < m.nextId)
    (h : m.Logged n F .policy ∨ SameFilter m₁ m n x) :
    m'.Logged n F .policy ∨ SameFilter m₁ m' n x := by
  rcases h with hlog | h
  · exact .inl (he.logged hinv hlog hfloor nofun)
  rcases he.activePolicy (n := n) with hpol | ⟨_, hlog⟩
  swap
  · exact .inl (hlog F hF)
  right
  have hx : x ∈ m'.memberships → x ∈ m.memberships := by
    intro hx'
    rcases he.member_of hx' with ⟨y, hy, _, hyx⟩ | hnew
    · rw [← hyx hact]
      exact hy
    · exact absurd hold (Nat.not_lt_of_le hnew)
  unfold UnseenByPolicy at hcond
  rcases netRows_effect he hinv n with hrows | ⟨req, r, hev, ⟨tok, htok, hhash, hnet, htags⟩, hrows⟩ |
    ⟨gone, hleft⟩
  · refine ⟨hpol.trans h.policy, fun p hp => ?_, fun hx' => ?_⟩
    · rw [hrows]
      exact h.picked p hp
    · rw [hrows]
      exact h.self (hx hx')
  · rw [hev] at hcond
    refine h.joined hinv hn hact hx hpol hrows ?_
    rw [htags]
    exact hcond tok htok hhash hnet
  · refine h.left hn hact hx hpol hleft hinv fun r hr hgone => ?_
    rcases mem_netRows.1 hr with ⟨hlive, hnet⟩
    rcases mem_liveRows.1 hlive with ⟨hmem, hra, _⟩
    rcases hleft.event with ⟨n', id, hev, hwho⟩ | ⟨org, device, hev, hwho⟩
    · rw [hev] at hcond
      exact hcond _ hmem (hwho _ hgone) hnet hra
    · rw [hev] at hcond
      exact hcond _ hmem (hwho _ hgone) hnet hra

theorem sameFilter_run (hinv : m₁.Inv) (hn : x.networkId = n) (hact : x.state = .active)
    (hold : x.id < m₁.nextId) (ss : List Stamped)
    (hcond : Along (apply c) (UnseenByPolicy c n) m₁ ss)
    (hfloor : (run (apply c) m₁ ss).floor n ≤ m₁.version n) :
    (run (apply c) m₁ ss).Logged n (m₁.version n) .policy ∨
      SameFilter m₁ (run (apply c) m₁ ss) n x := by
  have hrun := run_window
    (fun m => x.id < m.nextId ∧ (m.Logged n (m₁.version n) .policy ∨ SameFilter m₁ m n x)) hinv
    ⟨hold, .inr ⟨rfl, fun _ _ => rfl, fun _ => rfl⟩⟩
    (fun m s he hI hle hc hfl hP => ⟨Nat.lt_of_lt_of_le hP.1 he.nextId_le,
      sameFilter_step he hI hle hfl hc hn hact hP.1 hP.2⟩) ss hcond hfloor
  exact hrun.2

end Run

theorem filterFor_ok {t : Tables} {filter : Option Wire.PacketFilter}
    (h : filterFor t x = .ok filter) :
    (activePolicy t x.networkId = none ∧ filter = none) ∨
      (filter.isSome ∧ (selfAmong (policyDevices t x.networkId) x).isSome) := by
  unfold filterFor activeDocument at h
  cases hp : activePolicy t x.networkId with
  | none =>
    rw [hp] at h
    cases h
    exact .inl ⟨rfl, rfl⟩
  | some p =>
    rw [hp] at h
    cases hvalid : p.document.validate with
    | error fault =>
      simp only [hvalid] at h
      cases h
    | ok _ =>
      simp only [hvalid] at h
      rcases Base.map_eq_ok.1 h with ⟨f, hf, rfl⟩
      right
      refine ⟨rfl, ?_⟩
      unfold compileFor at hf
      simp only at hf
      split at hf
      · cases hf
      · rename_i self hself
        rw [hself]
        rfl

theorem active_of_self (hinv : m.Inv) (hx : x ∈ m.memberships)
    (hown : x.state = .active ∨ ∀ y ∈ m.memberships, y.networkId = x.networkId → y.id ≠ x.id → sharesAddress x y = false)
    (hself : (selfAmong (policyDevices m.toTables x.networkId) x).isSome) : x.state = .active := by
  rcases hown with hact | hown
  · exact hact
  rw [selfAmong_eq, Option.isSome_map, List.find?_isSome] at hself
  rcases hself with ⟨r, hr, hshare⟩
  rcases mem_netRows.1 hr with ⟨hlive, hnet⟩
  rcases mem_liveRows.1 hlive with ⟨hmem, hact, _⟩
  by_cases hid : r.membership.id = x.id
  · rw [← hinv.member_eq hmem hx hid]
    exact hact
  · rw [hown _ hmem hnet hid] at hshare
    cases hshare

theorem delta_filter {b : Builder} {F : Nat} {d : Wire.StateDelta} (hb : m.LogBounded)
    (h : DeltaOf b m x F d) :
    (m.Logged x.networkId F .policy ∧ filterFor m.toTables x = .ok d.filter) ∨
      (¬m.Logged x.networkId F .policy ∧ d.filter = none) := by
  have hfilter := h.filter
  unfold filterChange at hfilter
  split at hfilter
  · rename_i hlog
    exact .inl ⟨(mem_changesSince hb).1 hlog, hfilter⟩
  · rename_i hlog
    injection hfilter with hnone
    exact .inr ⟨fun h => hlog ((mem_changesSince hb).2 h), hnone.symm⟩

theorem snapshot_filter_eq {c : Enroll.Checks} {b₁ b₂ : Builder} {m₁ : Mesh} {ss : List Stamped}
    {σ₁ σ₂ : Wire.StateDelta} (hinv₁ : m₁.Inv) (hinv₂ : (run (apply c) m₁ ss).Inv)
    (hx : x ∈ (run (apply c) m₁ ss).memberships) (hold : x.id < m₁.nextId)
    (hown : x.state = .active ∨ ∀ y ∈ (run (apply c) m₁ ss).memberships, y.networkId = x.networkId → y.id ≠ x.id → sharesAddress x y = false)
    (hfloor : (run (apply c) m₁ ss).floor x.networkId ≤ m₁.version x.networkId)
    (hcond : Along (apply c) (UnseenByPolicy c x.networkId) m₁ ss)
    (hnone : ¬(run (apply c) m₁ ss).Logged x.networkId (m₁.version x.networkId) .policy)
    (hσ₁ : SnapshotOf b₁ m₁.toTables x σ₁) (hσ₂ : SnapshotOf b₂ (run (apply c) m₁ ss).toTables x σ₂) :
    σ₁.filter = σ₂.filter := by
  rcases filterFor_ok hσ₂.filter with ⟨hpol, hf⟩ | ⟨_, hself⟩
  · -- Without a policy at the end there was none at the start.
    rcases filterFor_ok hσ₁.filter with ⟨_, hf₁⟩ | ⟨hsome, _⟩
    · rw [hf₁, hf]
    · cases hpol₁ : activePolicy m₁.toTables x.networkId with
      | none =>
        have hf₁ := hσ₁.filter
        unfold filterFor activeDocument at hf₁
        rw [hpol₁] at hf₁
        injection hf₁ with hf₁
        rw [← hf₁] at hsome
        cases hsome
      | some p =>
        have := activePolicy_run (c := c) hinv₁ ss (n := x.networkId) (by rw [hpol₁]; rfl)
        rw [hpol] at this
        cases this
  · have hact := active_of_self hinv₂ hx hown hself
    rcases sameFilter_run hinv₁ rfl hact hold ss hcond hfloor with hlog | hsame
    · exact absurd hlog hnone
    · have hf₂ := hσ₂.filter
      rw [hsame.filterFor hx, hσ₁.filter] at hf₂
      injection hf₂

/-- Within the delta window, if the policy was published since, or if no device it picks came or
went, then the filter an agent holds after any answer is the filter of the head. A member that is no
longer active is meant only if nobody else in its network has its address. -/
theorem filter_fold_eq_snapshot (c : Enroll.Checks) (b₁ b₂ : Builder) (ss₁ ss₂ : List Stamped)
    (n : Id) (x : Membership) (hx : x ∈ (history c (ss₁ ++ ss₂)).memberships)
    (hn : x.networkId = n)
    (hown : x.state = .active ∨ ∀ y ∈ (history c (ss₁ ++ ss₂)).memberships, y.networkId = n →
      y.id ≠ x.id → sharesAddress x y = false)
    (hwindow : (history c (ss₁ ++ ss₂)).floor n ≤ (history c ss₁).version n)
    (hunseen : (history c (ss₁ ++ ss₂)).Logged n ((history c ss₁).version n) .policy ∨
      Along (apply c) (UnseenByPolicy c n) (history c ss₁) ss₂) :
    (∀ σ₁ σ₂ δ, b₁.snapshot (history c ss₁) x.id = .ok σ₁ →
      b₂.snapshot (history c (ss₁ ++ ss₂)) x.id = .ok σ₂ →
      b₂.for (history c (ss₁ ++ ss₂)) x.id ((history c ss₁).version n) = .ok δ →
      ((({} : Peerset.Set).apply σ₁).apply δ).filter = (({} : Peerset.Set).apply σ₂).filter) ∧
    (x.state = .active →
      (∃ σ₂, b₂.snapshot (history c (ss₁ ++ ss₂)) x.id = .ok σ₂) ∧
      ∃ δ, b₂.for (history c (ss₁ ++ ss₂)) x.id ((history c ss₁).version n) = .ok δ) := by
  have hinv₁ := inv_history (c := c) ss₁
  have hinv₂ := inv_history (c := c) (ss₁ ++ ss₂)
  have hrun : history c (ss₁ ++ ss₂) = run (apply c) (history c ss₁) ss₂ :=
    Base.run_append _ _ _
  refine ⟨fun σ₁ σ₂ δ h₁ h₂ hδ => ?_, fun hact =>
    ⟨snapshot_isOk hinv₂ hx hact b₂, for_isOk hinv₂ hx hact b₂ _⟩⟩
  subst hn
  rcases snapshots_ok hinv₁ hinv₂ hx hrun h₁ h₂ with ⟨hσ₁, hσ₂, hold⟩
  -- Where the policy is not logged, the two ends compile one filter.
  have hsame : ¬(history c (ss₁ ++ ss₂)).Logged x.networkId
      ((history c ss₁).version x.networkId) .policy → σ₁.filter = σ₂.filter := by
    intro hnone
    rcases hunseen with hlog | hcond
    · exact absurd hlog hnone
    rw [hrun] at hinv₂ hx hown hwindow hnone hσ₂
    exact snapshot_filter_eq hinv₁ hinv₂ hx hold hown hwindow hcond hnone hσ₁ hσ₂
  rw [Peerset.filter_apply_snapshot hσ₂.fromVersion]
  rcases for_ok hinv₂ hx hδ with hsnap | ⟨hF, hsilent, hnone⟩ | ⟨hF, hdelta⟩
  · rw [h₂] at hsnap
    cases hsnap
    exact Peerset.filter_apply_snapshot hσ₂.fromVersion
  · rw [Peerset.filter_apply (by rw [hsilent.fromVersion]; exact hF), hsilent.filter,
      Peerset.filter_apply_snapshot hσ₁.fromVersion]
    exact hsame (hnone _)
  · rw [Peerset.filter_apply (by rw [hdelta.fromVersion]; exact hF),
      Peerset.filter_apply_snapshot hσ₁.fromVersion]
    rcases delta_filter hinv₂.logBounded hdelta with ⟨hlog, hfilter⟩ | ⟨hnone, hfilter⟩
    · -- A logged policy is in force, so what the delta carries is a filter.
      have hpol := activePolicy_of_logged (ss₁ ++ ss₂) hlog
      rw [hσ₂.filter] at hfilter
      injection hfilter with heq
      rw [← heq]
      rcases filterFor_ok hσ₂.filter with ⟨hnone, _⟩ | ⟨hsome, _⟩
      · rw [hnone] at hpol
        cases hpol
      · rcases Option.isSome_iff_exists.1 hsome with ⟨f, hf⟩
        rw [hf]
        rfl
    · rw [hfilter]
      exact hsame hnone

def taggedMayReach : Acl.Document :=
  { version := 1, rules := [{ src := ["tag:admin"], dst := ["10.0.0.0/24"] }] }

theorem filter_fold_eq_snapshot_untagged :
    let ss₁ := founding [] ++
      [joining 1 7, joining 1 8, joining 2 9, ⟨3, .publishPolicy 2 taggedMayReach⟩]
    let ss₂ := [joining 4 11]
    let m₁ := history trusting ss₁
    let m₂ := history trusting (ss₁ ++ ss₂)
    founder [] ∈ m₂.memberships ∧ m₂.floor 2 ≤ m₁.version 2 ∧
      Along (apply trusting) (UnseenByPolicy trusting 2) m₁ ss₂ ∧
      ∃ σ₁ σ₂ δ, Builder.snapshot {} m₁ 6 = .ok σ₁ ∧ Builder.snapshot {} m₂ 6 = .ok σ₂ ∧
        Builder.for {} m₂ 6 (m₁.version 2) = .ok δ ∧ δ.fromVersion ≠ 0 ∧ σ₁.filter ≠ none ∧
        ((({} : Peerset.Set).apply σ₁).apply δ).filter = (({} : Peerset.Set).apply σ₂).filter := by
  intro ss₁ ss₂ m₁ m₂
  have hrun : (founder [] ∈ m₂.memberships ∧ m₂.floor 2 ≤ m₁.version 2) ∧
      (∀ tok ∈ m₁.enrollmentTokens, ∀ p ∈ activePolicy m₁.toTables 2,
        p.document.picks tok.preassignedTags = false) ∧
      (∃ σ₁, Builder.snapshot {} m₁ 6 = .ok σ₁ ∧ σ₁.filter ≠ none) ∧
      ∃ δ, Builder.for {} m₂ 6 (m₁.version 2) = .ok δ ∧ δ.fromVersion ≠ 0 := by
    decide +kernel
  rcases hrun with ⟨⟨hx, hwindow⟩, htokens, ⟨σ₁, h₁, hsome⟩, δ, hδ, hfrom⟩
  have hunseen : Along (apply trusting) (UnseenByPolicy trusting 2) m₁ ss₂ :=
    ⟨fun tok htok _ _ => htokens tok htok, trivial⟩
  have hfold := filter_fold_eq_snapshot trusting {} {} ss₁ ss₂ 2 (founder []) hx rfl (.inl rfl)
    hwindow (.inr hunseen)
  rcases (hfold.2 rfl).1 with ⟨σ₂, h₂⟩
  exact ⟨hx, hwindow, hunseen, σ₁, σ₂, δ, h₁, h₂, hδ, hfrom, hsome, hfold.1 σ₁ σ₂ δ h₁ h₂ hδ⟩

def everybodyMayReach : Acl.Document :=
  { version := 1, rules := [{ src := ["*"], dst := ["*"] }] }

/-- A device joins, or is revoked, under a policy about everybody: in both cases the filter an agent
holds after the delta is the one it held before, and not the one of the head. -/
theorem filter_fold_stale_after_join_and_revocation :
    let ss₁ := founding [] ++
      [joining 1 7, joining 1 8, joining 2 9, ⟨3, .publishPolicy 2 everybodyMayReach⟩]
    let m₁ := history trusting ss₁
    ∀ s ∈ [joining 4 11, ⟨4, .revokeMembership 2 8⟩],
      let m₂ := history trusting (ss₁ ++ [s])
      (founder [] ∈ m₂.memberships ∧ (activePolicy m₂.toTables 2).isSome ∧
        m₂.floor 2 ≤ m₁.version 2) ∧
      ∃ σ₁, Builder.snapshot {} m₁ 6 = .ok σ₁ ∧ ∃ σ₂, Builder.snapshot {} m₂ 6 = .ok σ₂ ∧
        ∃ δ, Builder.for {} m₂ 6 (m₁.version 2) = .ok δ ∧
          ((({} : Peerset.Set).apply σ₁).apply δ).filter ≠
            (({} : Peerset.Set).apply σ₂).filter := by
  decide +kernel

end Meshp.Session
