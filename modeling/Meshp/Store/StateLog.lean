import Meshp.Base.Rows
import Meshp.Store.Mesh

/-!
# What a Version Bump Leaves Behind

A mutation writes some tables and then bumps one or more networks, each bump
logging the changes that explain it. However a mutation arrives at its bumps, what
it leaves is the tables it wrote with a list of bumps recorded over them, and
`Mesh.recordAll` is that list applied. Every function that bumps is given one
lemma here saying which list, and nothing after this module looks inside a bump
again.
-/

namespace Meshp.Store

open Base (bind_eq_ok refuseIf_eq_ok)

namespace Mesh

variable (m : Mesh) (now : Time) (n n' : Id) (F : Nat) (k : ChangeKind) (ks : List ChangeKind)

theorem network?_setNetwork (f : Network → Network) (hf : ∀ r, (f r).id = r.id) :
    (m.setNetwork n f).network? n' =
      if n' = n then (m.network? n).map f else m.network? n' := by
  -- Rewriting a row keeps its identifier, so a lookup finds the same row.
  have hid : ∀ r : Network, (if r.id = n then f r else r).id = r.id := by
    intro r
    by_cases h : r.id = n
    · rw [if_pos h, hf]
    · rw [if_neg h]
  unfold network? setNetwork
  rw [List.find?_map]
  have hcomp : ((fun r : Network => decide (r.id = n')) ∘
      fun r => if r.id = n then f r else r) = fun r : Network => decide (r.id = n') := by
    funext r
    simp only [Function.comp_apply, hid]
  rw [hcomp]
  cases hfind : m.networks.find? (fun r => decide (r.id = n')) with
  | none =>
    split
    · rename_i h
      rw [← h, hfind]
      rfl
    · rfl
  | some r =>
    have hr : r.id = n' := (Base.of_find? hfind).2
    rw [Option.map_some, hr]
    split
    · rename_i h
      rw [← h, hfind]
      rfl
    · rfl

@[simp]
theorem toTables_record : (m.record now n ks).toTables = m.toTables := rfl

theorem network?_record : (m.record now n ks).network? n' =
    if n' = n then (m.network? n).map (fun r => { r with stateVersion := r.stateVersion + 1 })
    else m.network? n' :=
  network?_setNetwork m n n' _ fun _ => rfl

theorem isSome_network?_record :
    ((m.record now n ks).network? n').isSome = (m.network? n').isSome := by
  rw [network?_record]
  by_cases h : n' = n
  · subst h
    rw [if_pos rfl, Option.isSome_map]
  · rw [if_neg h]

theorem version_record (h : (m.network? n).isSome) :
    (m.record now n ks).version n' = if n' = n then m.version n + 1 else m.version n' := by
  unfold version
  rw [network?_record]
  by_cases hn : n' = n
  · rcases Option.isSome_iff_exists.1 h with ⟨r, hr⟩
    simp only [if_pos hn, hr, Option.map_some, Option.getD_some]
  · simp only [if_neg hn]

theorem version_le_record : m.version n' ≤ (m.record now n ks).version n' := by
  cases h : m.network? n with
  | none =>
    unfold version
    rw [network?_record]
    by_cases hn : n' = n
    · rw [if_pos hn, hn, h]
      exact Nat.le_refl _
    · rw [if_neg hn]
  | some r =>
    rw [version_record m now n n' ks (by rw [h]; rfl)]
    by_cases hn : n' = n
    · rw [if_pos hn, hn]
      omega
    · rw [if_neg hn]

@[simp]
theorem floor_record : (m.record now n ks).floor n' = m.floor n' := by
  unfold floor
  rw [network?_record]
  by_cases hn : n' = n
  · subst hn
    rw [if_pos rfl, Option.map_map]
    rfl
  · rw [if_neg hn]

/-- A change of kind `k` is logged for network `n` at some version above `F`. -/
def Logged : Prop :=
  ∃ r ∈ m.stateChanges, r.networkId = n ∧ F < r.version ∧ r.kind = k

theorem Logged.mono {m : Mesh} {n : Id} {F F' : Nat} {k : ChangeKind} (h : m.Logged n F k)
    (hF : F' ≤ F) : m.Logged n F' k := by
  rcases h with ⟨r, hr, hn, hv, hk⟩
  exact ⟨r, hr, hn, Nat.lt_of_le_of_lt hF hv, hk⟩

theorem logged_record : (m.record now n ks).Logged n' F k ↔
    m.Logged n' F k ∨ (n' = n ∧ k ∈ ks ∧ F ≤ m.version n) := by
  unfold Logged record
  simp only [List.mem_append, List.mem_map]
  constructor
  · rintro ⟨r, hr | ⟨k', hk', rfl⟩, hn, hF, hk⟩
    · exact .inl ⟨r, hr, hn, hF, hk⟩
    · simp only at hn hF hk
      exact .inr ⟨hn.symm, hk ▸ hk', by omega⟩
  · rintro (⟨r, hr, h⟩ | ⟨rfl, hk, hF⟩)
    · exact ⟨r, .inl hr, h⟩
    · exact ⟨_, .inr ⟨k, hk, rfl⟩, rfl, by simp only; omega, rfl⟩

def LogBounded : Prop :=
  ∀ r ∈ m.stateChanges, r.version ≤ m.version r.networkId

theorem logBounded_record (h : (m.network? n).isSome) (hb : m.LogBounded) :
    (m.record now n ks).LogBounded := by
  intro r hr
  simp only [record, List.mem_append, List.mem_map] at hr
  rcases hr with hr | ⟨k, _, rfl⟩
  · exact Nat.le_trans (hb r hr) (version_le_record m now n r.networkId ks)
  · rw [version_record m now n n ks h, if_pos rfl]

end Mesh

namespace Mesh

def recordAll (now : Time) (m : Mesh) (bumps : List (Id × List ChangeKind)) : Mesh :=
  bumps.foldl (fun m b => m.record now b.1 b.2) m

variable (now : Time) (m : Mesh) (n : Id) (F : Nat) (k : ChangeKind) (ks : List ChangeKind)
  (bumps : List (Id × List ChangeKind))

theorem networkIds_setNetwork (f : Network → Network) (hf : ∀ r, (f r).id = r.id) :
    (m.setNetwork n f).networks.map Network.id = m.networks.map Network.id := by
  simp only [setNetwork, List.map_map]
  refine List.map_congr_left fun r _ => ?_
  by_cases hr : r.id = n
  · simp only [Function.comp_apply, if_pos hr, hf]
  · simp only [Function.comp_apply, if_neg hr]

@[simp]
theorem recordAll_cons : recordAll now m ((n, ks) :: bumps) =
    recordAll now (m.record now n ks) bumps := rfl

theorem recordAll_append (bumps' : List (Id × List ChangeKind)) :
    recordAll now m (bumps ++ bumps') = recordAll now (recordAll now m bumps) bumps' :=
  List.foldl_append

@[simp]
theorem toTables_recordAll : (recordAll now m bumps).toTables = m.toTables :=
  Base.run_keeps Mesh.toTables bumps m fun m b _ => toTables_record m now b.1 b.2

theorem networkIds_recordAll :
    (recordAll now m bumps).networks.map Network.id = m.networks.map Network.id := by
  refine Base.run_keeps (·.networks.map Network.id) bumps m fun m b _ => ?_
  exact networkIds_setNetwork m b.1 _ fun r => rfl

@[simp]
theorem floor_recordAll : (recordAll now m bumps).floor n = m.floor n :=
  Base.run_keeps (·.floor n) bumps m fun m b _ => floor_record m now b.1 n b.2

theorem isSome_network?_recordAll :
    ((recordAll now m bumps).network? n).isSome = (m.network? n).isSome :=
  Base.run_keeps (fun m => (m.network? n).isSome) bumps m fun m b _ =>
    isSome_network?_record m now b.1 n b.2

theorem version_le_recordAll : m.version n ≤ (recordAll now m bumps).version n :=
  Base.run_inv (m.version n ≤ ·.version n)
    (fun m' b h => Nat.le_trans h (version_le_record m' now b.1 n b.2)) m bumps (Nat.le_refl _)

theorem version_le_recordAll_of {m₀ m : Mesh} {now : Time} {n : Id}
    {bumps : List (Id × List ChangeKind)} (h : m₀.networks = m.networks) :
    m.version n ≤ (recordAll now m₀ bumps).version n := by
  have hver : m.version n = m₀.version n := by
    unfold version network?
    rw [h]
  rw [hver]
  exact version_le_recordAll now m₀ n bumps

theorem floor_le_recordAll_of {m₀ m : Mesh} {now : Time} {n : Id}
    {bumps : List (Id × List ChangeKind)} (h : m₀.networks = m.networks) :
    m.floor n ≤ (recordAll now m₀ bumps).floor n := by
  rw [floor_recordAll]
  unfold floor network?
  rw [h]

theorem logged_recordAll_of_logged (h : m.Logged n F k) : (recordAll now m bumps).Logged n F k :=
  Base.run_inv (·.Logged n F k) (fun m b h => (logged_record m now b.1 n F k b.2).2 (.inl h)) m bumps
    h

theorem logged_recordAll (hb : (n, ks) ∈ bumps) (hk : k ∈ ks) (hF : F ≤ m.version n) :
    (recordAll now m bumps).Logged n F k := by
  induction bumps generalizing m with
  | nil => cases hb
  | cons b bumps ih =>
    rw [recordAll_cons]
    rcases List.mem_cons.1 hb with rfl | hb
    · exact logged_recordAll_of_logged now _ n F k bumps
        ((logged_record m now n n F k ks).2 (.inr ⟨rfl, hk, hF⟩))
    · exact ih _ hb (Nat.le_trans hF (version_le_record m now b.1 n b.2))

theorem logged_of_recordAll (h : (recordAll now m bumps).Logged n F k) :
    m.Logged n F k ∨ ∃ ks, (n, ks) ∈ bumps ∧ k ∈ ks := by
  induction bumps generalizing m with
  | nil => exact .inl h
  | cons b bumps ih =>
    rw [recordAll_cons] at h
    rcases ih _ h with h | ⟨ks, hb, hk⟩
    · rcases (logged_record m now b.1 n F k b.2).1 h with h | ⟨rfl, hk, _⟩
      · exact .inl h
      · exact .inr ⟨b.2, .head _, hk⟩
    · exact .inr ⟨ks, .tail _ hb, hk⟩

theorem logged_recordAll_new (h : (recordAll now m bumps).Logged n F k) :
    m.Logged n F k ∨ (recordAll now m bumps).Logged n (m.version n) k := by
  induction bumps generalizing m with
  | nil => exact .inl h
  | cons b bumps ih =>
    rw [recordAll_cons] at h ⊢
    rcases ih _ h with h | h
    · rcases (logged_record m now b.1 n F k b.2).1 h with h | ⟨hn, hk, _⟩
      · exact .inl h
      · refine .inr (logged_recordAll_of_logged now _ n _ k bumps ?_)
        exact (logged_record m now b.1 n _ k b.2).2 (.inr ⟨hn, hk, hn ▸ Nat.le_refl _⟩)
    · exact .inr (h.mono (version_le_record m now b.1 n b.2))

theorem logBounded_recordAll (hn : ∀ b ∈ bumps, (m.network? b.1).isSome) (hb : m.LogBounded) :
    (recordAll now m bumps).LogBounded := by
  induction bumps generalizing m with
  | nil => exact hb
  | cons b bumps ih =>
    rw [recordAll_cons]
    refine ih _ (fun b' hb' => ?_) (logBounded_record m now b.1 b.2 (hn b (.head _)) hb)
    rw [isSome_network?_record]
    exact hn b' (.tail _ hb')

end Mesh

variable {m m' : Mesh} {now : Time}

theorem bumpVersion_ok {n : Id} {changes : List Change} (ks : List ChangeKind)
    (hks : changes.mapM Change.kind = .ok ks) (h : bumpVersion now m n changes = .ok m') :
    m' = Mesh.recordAll now m [(n, ks)] ∧ (m.network? n).isSome := by
  unfold bumpVersion at h
  rcases bind_eq_ok.1 h with ⟨_, _, h⟩
  rcases bind_eq_ok.1 h with ⟨_, hnet, h⟩
  rcases bind_eq_ok.1 h with ⟨ks', hks', h⟩
  rw [hks, Except.ok.injEq] at hks'
  subst hks'
  cases h
  exact ⟨rfl, Option.isSome_iff_ne_none.2 (refuseIf_eq_ok.1 hnet)⟩

theorem bumpRoutes_ok {ns : List Id} (h : bumpRoutes now m ns = .ok m') :
    m' = Mesh.recordAll now m (ns.map fun n => (n, [.routes])) ∧
      ∀ n ∈ ns, (m.network? n).isSome := by
  induction ns generalizing m with
  | nil =>
    simp only [bumpRoutes, Except.ok.injEq] at h
    exact ⟨h.symm, nofun⟩
  | cons n ns ih =>
    simp only [bumpRoutes] at h
    rcases bind_eq_ok.1 h with ⟨m₁, h₁, h₂⟩
    rcases bumpVersion_ok [.routes] rfl h₁ with ⟨rfl, hn⟩
    rcases ih h₂ with ⟨rfl, hns⟩
    refine ⟨rfl, fun n' hn' => ?_⟩
    rcases List.mem_cons.1 hn' with rfl | hn'
    · exact hn
    · rw [← Mesh.isSome_network?_recordAll now m n' [(n, [.routes])]]
      exact hns n' hn'

/-- The bumps of `bumpRoutesEverywhere`. -/
def routesEverywhere (m : Tables) (n : Id) : List (Id × List ChangeKind) :=
  (n, [.routes]) :: (networksSharingADeviceWith m n).map fun n => (n, [.routes])

theorem bumpRoutesEverywhere_ok {n : Id} (h : bumpRoutesEverywhere now m n = .ok m') :
    m' = Mesh.recordAll now m (routesEverywhere m.toTables n) ∧
      ∀ b ∈ routesEverywhere m.toTables n, (m.network? b.1).isSome := by
  unfold bumpRoutesEverywhere at h
  rcases bind_eq_ok.1 h with ⟨m₁, h₁, h₂⟩
  rcases bumpVersion_ok [.routes] rfl h₁ with ⟨rfl, hn⟩
  rcases bumpRoutes_ok h₂ with ⟨rfl, hns⟩
  refine ⟨rfl, fun b hb => ?_⟩
  rcases List.mem_cons.1 hb with rfl | hb
  · exact hn
  · rcases List.mem_map.1 hb with ⟨n', hn', rfl⟩
    rw [← Mesh.isSome_network?_recordAll now m n' [(n, [.routes])]]
    exact hns n' hn'

end Meshp.Store
