import Meshp.Store.Effect

/-!
# What Stays in the Log

Two things take rows out of the change log. Forgetting a device cascades to the
rows that point at its memberships. Pruning drops everything old enough, and
raises the network's delta floor past it, so that whoever would have needed a
dropped row is sent a snapshot instead.
-/

namespace Meshp.Store

def Gone (t : Tables) (device id : Id) : Prop :=
  ∃ x ∈ t.memberships, x.deviceId = device ∧ x.id = id

variable {device : Id} {r : Network}

theorem contains_gone {t : Tables} {id : Id} :
    ((t.memberships.filter (·.deviceId = device)).map Membership.id).contains id = true ↔
      Gone t device id := by
  rw [List.contains_iff_mem, List.mem_map]
  constructor
  · rintro ⟨x, hx, rfl⟩
    rcases List.mem_filter.1 hx with ⟨hmem, hd⟩
    exact ⟨x, hmem, by simpa using hd, rfl⟩
  · rintro ⟨x, hmem, hd, rfl⟩
    exact ⟨x, List.mem_filter.2 ⟨hmem, by simpa using hd⟩, rfl⟩

theorem not_contains_gone {t : Tables} {id : Id} :
    (!((t.memberships.filter (·.deviceId = device)).map Membership.id).contains id) = true ↔
      ¬Gone t device id := by
  rw [Bool.not_eq_true', ← Bool.not_eq_true, contains_gone]

theorem logged_deleteDevice {m : Mesh} {n : Id} {F : Nat} {k : ChangeKind} :
    (deleteDevice m device).Logged n F k ↔
      m.Logged n F k ∧ ∀ id, k = .peerUpsert id → ¬Gone m.toTables device id := by
  -- Only rows that point at a membership can go, and they go with it.
  have hstay : ∀ r, r ∈ (deleteDevice m device).stateChanges ↔
      r ∈ m.stateChanges ∧ ∀ id, r.kind = .peerUpsert id → ¬Gone m.toTables device id := by
    intro r
    simp only [deleteDevice, List.mem_filter]
    refine and_congr_right fun _ => ?_
    cases hk : r.kind with
    | peerUpsert id =>
      simp only [ChangeKind.peerUpsert.injEq, forall_eq']
      exact not_contains_gone
    | peerRemove _ | policy | routes | tunnel | dns | routeGroupRemove _ => simp
  unfold Mesh.Logged
  simp only [hstay]
  constructor
  · rintro ⟨r, ⟨hr, hp⟩, hn, hF, rfl⟩
    exact ⟨⟨r, hr, hn, hF, rfl⟩, hp⟩
  · rintro ⟨⟨r, hr, hn, hF, rfl⟩, hgone⟩
    exact ⟨r, ⟨hr, hgone⟩, hn, hF, rfl⟩

theorem le_foldl_max (vs : List Nat) (a : Nat) :
    a ≤ vs.foldl max a ∧ ∀ v ∈ vs, v ≤ vs.foldl max a := by
  induction vs generalizing a with
  | nil => exact ⟨Nat.le_refl _, nofun⟩
  | cons v vs ih =>
    rcases ih (max a v) with ⟨hacc, hmem⟩
    rw [List.foldl_cons]
    refine ⟨by omega, fun w hw => ?_⟩
    rcases List.mem_cons.1 hw with rfl | hw
    · omega
    · exact hmem w hw

variable {m : Mesh} {n n' : Id} {olderThan : Time} {F : Nat} {k : ChangeKind}

theorem pruneNetwork_cases (m : Mesh) (n : Id) (olderThan : Time) :
    pruneNetwork m n olderThan = m ∨
      ∃ top, pruneNetwork m n olderThan =
          { m.setNetwork n fun r =>
              { r with oldestDeltaVersion := max r.oldestDeltaVersion top } with
            stateChanges := m.stateChanges.filter fun r => !prunable n olderThan r } ∧
        ∀ r ∈ m.stateChanges, prunable n olderThan r = true → r.version ≤ top := by
  unfold pruneNetwork
  split
  · exact .inl rfl
  · exact .inr ⟨_, rfl, fun r hr hold =>
      (le_foldl_max _ 0).2 _ (List.mem_map_of_mem (List.mem_filter.2 ⟨hr, hold⟩))⟩

theorem toTables_pruneNetwork : (pruneNetwork m n olderThan).toTables = m.toTables := by
  rcases pruneNetwork_cases m n olderThan with h | ⟨top, h, _⟩
  · rw [h]
  · rw [h]
    rfl

theorem raise_floor (m : Mesh) (n n' : Id) (top : Nat) :
    let m' := m.setNetwork n fun r => { r with oldestDeltaVersion := max r.oldestDeltaVersion top }
    m'.version n' = m.version n' ∧ m.floor n' ≤ m'.floor n' ∧
      (m'.network? n').isSome = (m.network? n').isSome ∧
      ((m.network? n).isSome → top ≤ m'.floor n) := by
  have hnet := fun n' => m.network?_setNetwork n n'
    (fun r => { r with oldestDeltaVersion := max r.oldestDeltaVersion top }) fun _ => rfl
  simp only [Mesh.version, Mesh.floor, hnet, if_true]
  by_cases hn : n' = n
  · subst hn
    cases m.network? n' with
    | none => simp
    | some r => simp
  · cases m.network? n with
    | none => simp [hn]
    | some r => simp [hn]

theorem version_pruneNetwork : (pruneNetwork m n olderThan).version n' = m.version n' := by
  rcases pruneNetwork_cases m n olderThan with h | ⟨top, h, _⟩
  · rw [h]
  · rw [h]
    exact (raise_floor m n n' top).1

theorem floor_le_pruneNetwork : m.floor n' ≤ (pruneNetwork m n olderThan).floor n' := by
  rcases pruneNetwork_cases m n olderThan with h | ⟨top, h, _⟩
  · rw [h]
  · rw [h]
    exact (raise_floor m n n' top).2.1

theorem isSome_network?_pruneNetwork :
    ((pruneNetwork m n olderThan).network? n').isSome = (m.network? n').isSome := by
  rcases pruneNetwork_cases m n olderThan with h | ⟨top, h, _⟩
  · rw [h]
  · rw [h]
    exact (raise_floor m n n' top).2.2.1

theorem stateChanges_pruneNetwork {r : StateChange}
    (h : r ∈ (pruneNetwork m n olderThan).stateChanges) : r ∈ m.stateChanges := by
  rcases pruneNetwork_cases m n olderThan with heq | ⟨top, heq, _⟩
  · rwa [heq] at h
  · rw [heq] at h
    exact List.mem_of_mem_filter h

theorem le_floor_of_prunable (hb : m.LogBounded) {r : StateChange} (hr : r ∈ m.stateChanges)
    (hold : prunable n olderThan r = true) :
    r.version ≤ (pruneNetwork m n olderThan).floor n := by
  have hmem : r ∈ m.stateChanges.filter (prunable n olderThan) := List.mem_filter.2 ⟨hr, hold⟩
  have hold : r.networkId = n ∧ r.createdAt < olderThan := by simpa [prunable] using hold
  unfold pruneNetwork
  split
  · rename_i hnone
    rw [List.map_eq_nil_iff.1 hnone] at hmem
    cases hmem
  · have htop := (le_foldl_max _ 0).2 _ (List.mem_map_of_mem (f := StateChange.version) hmem)
    cases hnet : m.network? n with
    | none =>
      -- A network that is not there has no version for a row to be above.
      have hver := hb r hr
      rw [hold.1, Mesh.version, hnet] at hver
      exact Nat.le_trans hver (Nat.zero_le _)
    | some row =>
      exact Nat.le_trans htop ((raise_floor m n n _).2.2.2 (by rw [hnet]; rfl))

theorem logged_pruneNetwork (hb : m.LogBounded)
    (hF : (pruneNetwork m n olderThan).floor n' ≤ F) :
    (pruneNetwork m n olderThan).Logged n' F k ↔ m.Logged n' F k := by
  constructor
  · rintro ⟨r, hr, h⟩
    exact ⟨r, stateChanges_pruneNetwork hr, h⟩
  · rintro ⟨r, hr, hn, hv, hk⟩
    have hstay : prunable n olderThan r = false := by
      by_contra hgone
      have hold : prunable n olderThan r = true := by simpa using hgone
      have hle := le_floor_of_prunable hb hr hold
      have hold : r.networkId = n ∧ r.createdAt < olderThan := by simpa [prunable] using hold
      rw [show n' = n from hn.symm.trans hold.1] at hF
      omega
    rcases pruneNetwork_cases m n olderThan with heq | ⟨top, heq, _⟩
    · rw [heq]
      exact ⟨r, hr, hn, hv, hk⟩
    · rw [heq]
      exact ⟨r, List.mem_filter.2 ⟨hr, by rw [hstay]; rfl⟩, hn, hv, hk⟩

variable {c : Enroll.Checks} {s : Stamped} {m' : Mesh}

theorem network?_concat {row : Network} (h : m'.networks = m.networks ++ [r])
    (hrow : m.network? n = some row) : m'.network? n = some row := by
  unfold Mesh.network? at hrow ⊢
  rw [h, List.find?_append, hrow]
  rfl

theorem version_le_concat (h : m'.networks = m.networks ++ [r]) : m.version n ≤ m'.version n := by
  unfold Mesh.version
  cases hrow : m.network? n with
  | none => exact Nat.zero_le _
  | some row => rw [network?_concat h hrow]

theorem floor_le_concat (h : m'.networks = m.networks ++ [r]) : m.floor n ≤ m'.floor n := by
  unfold Mesh.floor
  cases hrow : m.network? n with
  | none => exact Nat.zero_le _
  | some row => rw [network?_concat h hrow]

theorem set_egress (m : Mesh) (n n' : Id) (enforced : Bool) :
    let m' := m.setNetwork n fun r => { r with egressFailClosed := enforced }
    m'.version n' = m.version n' ∧ m'.floor n' = m.floor n' ∧
      (m'.network? n').isSome = (m.network? n').isSome := by
  have hnet := m.network?_setNetwork n n'
    (fun r => { r with egressFailClosed := enforced }) fun _ => rfl
  simp only [Mesh.version, Mesh.floor, hnet]
  by_cases hn : n' = n
  · subst hn
    cases m.network? n' <;> simp
  · simp [hn]

theorem Effect.network_isSome (h : Effect c s m m') (hn : (m.network? n).isSome) :
    (m'.network? n).isSome := by
  cases h with
  | settings t bumps | routes t n bumps | policy | joined | revoked =>
    rwa [Mesh.isSome_network?_recordAll]
  | forgot org device =>
    have := Mesh.isSome_network?_recordAll s.now m n
      ((m.memberships.filter (·.deviceId = device)).flatMap (leaveBumps m.toTables))
    rw [← this] at hn
    exact hn
  | network t r =>
    rcases Option.isSome_iff_exists.1 hn with ⟨row, hrow⟩
    exact Option.isSome_iff_exists.2 ⟨row, network?_concat rfl hrow⟩
  | egress n' enforced =>
    rw [Mesh.isSome_network?_recordAll, (set_egress m n' n enforced).2.2]
    exact hn
  | pruned => rwa [isSome_network?_pruneNetwork]

theorem Effect.version_le (h : Effect c s m m') : m.version n ≤ m'.version n := by
  cases h with
  | settings | routes | policy | joined | revoked => exact Mesh.version_le_recordAll_of rfl
  | forgot => exact Mesh.version_le_recordAll _ m n _
  | network => exact version_le_concat rfl
  | egress n' enforced =>
    rw [← (set_egress m n' n enforced).1]
    exact Mesh.version_le_recordAll _ _ n _
  | pruned => rw [version_pruneNetwork]

theorem Effect.floor_le (h : Effect c s m m') : m.floor n ≤ m'.floor n := by
  cases h with
  | settings | routes | policy | joined | revoked => exact Mesh.floor_le_recordAll_of rfl
  | forgot => exact Nat.le_of_eq (Mesh.floor_recordAll _ m n _).symm
  | network => exact floor_le_concat rfl
  | egress n' enforced =>
    rw [Mesh.floor_recordAll, (set_egress m n' n enforced).2.1]
  | pruned => exact floor_le_pruneNetwork

theorem floor_concat (h : m'.networks = m.networks ++ [r]) (hr : r.oldestDeltaVersion = 0) :
    m'.floor n = m.floor n := by
  unfold Mesh.floor
  cases hrow : m.network? n with
  | some row => rw [network?_concat h hrow]
  | none =>
    unfold Mesh.network? at hrow ⊢
    rw [h, List.find?_append, hrow]
    by_cases hid : r.id = n
    · simp [hid, hr]
    · simp [hid]

theorem Effect.floor_eq (h : Effect c s m m')
    (hevent : ∀ n olderThan, s.event ≠ .pruneNetwork n olderThan) : m'.floor n = m.floor n := by
  cases h with
  | settings | routes | policy | joined | revoked => exact Mesh.floor_recordAll _ _ n _
  | forgot => exact Mesh.floor_recordAll _ m n _
  | network t r members routes policies start => exact floor_concat rfl start.2
  | egress n' enforced => rw [Mesh.floor_recordAll, (set_egress m n' n enforced).2.1]
  | pruned n' olderThan event => exact absurd event (hevent n' olderThan)

theorem foldl_max_le {vs : List Nat} {a top : Nat} (ha : a ≤ top) (h : ∀ v ∈ vs, v ≤ top) :
    vs.foldl max a ≤ top := by
  induction vs generalizing a with
  | nil => exact ha
  | cons v vs ih =>
    have hv := h v (.head _)
    exact ih (by omega) fun w hw => h w (.tail _ hw)

theorem raised_floor_le {top : Nat} (htop : top ≤ m.version n) (h : m.floor n' ≤ m.version n') :
    (m.setNetwork n fun r =>
      { r with oldestDeltaVersion := max r.oldestDeltaVersion top }).floor n' ≤ m.version n' := by
  have hnet := m.network?_setNetwork n n'
    (fun r => { r with oldestDeltaVersion := max r.oldestDeltaVersion top }) fun _ => rfl
  by_cases hn : n' = n
  · subst hn
    unfold Mesh.floor at h ⊢
    rw [hnet, if_pos rfl]
    cases hrow : m.network? n' with
    | none => exact Nat.zero_le _
    | some row =>
      rw [hrow] at h
      simp only [Option.map_some, Option.getD_some] at h ⊢
      omega
  · unfold Mesh.floor at h ⊢
    rw [hnet, if_neg hn]
    exact h

theorem floor_pruneNetwork_le (hb : m.LogBounded) (h : m.floor n' ≤ m.version n') :
    (pruneNetwork m n olderThan).floor n' ≤ m.version n' := by
  unfold pruneNetwork
  split
  · exact h
  · refine raised_floor_le (foldl_max_le (Nat.zero_le _) fun v hv => ?_) h
    rcases List.mem_map.1 hv with ⟨r, hr, rfl⟩
    rcases List.mem_filter.1 hr with ⟨hmem, hold⟩
    have hold : r.networkId = n ∧ r.createdAt < olderThan := by simpa [prunable] using hold
    rw [← hold.1]
    exact hb r hmem

theorem Effect.network_of (h : Effect c s m m') (hn : (m'.network? n).isSome) :
    (m.network? n).isSome ∨ 1 ≤ m'.version n := by
  cases h with
  | settings t bumps | routes t n bumps | policy | joined | revoked =>
    exact .inl (by rwa [Mesh.isSome_network?_recordAll] at hn)
  | forgot org device =>
    exact .inl ((Mesh.isSome_network?_recordAll s.now m n _).symm.trans hn)
  | network t r members routes policies start =>
    cases hrow : m.network? n with
    | some row => exact .inl rfl
    | none =>
      right
      unfold Mesh.network? at hn hrow
      unfold Mesh.version Mesh.network?
      rw [List.find?_append, hrow] at hn ⊢
      by_cases hid : r.id = n
      · simp [hid, start.1]
      · simp [hid] at hn
  | egress n' enforced =>
    rw [Mesh.isSome_network?_recordAll, (set_egress m n' n enforced).2.2] at hn
    exact .inl hn
  | pruned => exact .inl (by rwa [isSome_network?_pruneNetwork] at hn)

end Meshp.Store
