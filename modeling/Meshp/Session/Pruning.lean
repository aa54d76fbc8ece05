import Meshp.Session.Reads

/-!
# A Build While the Log Is Pruned

Pruning raises the floor and drops the rows below it in one transaction, so the
two never disagree in the database. A build reads them in different statements. A
prune that commits after the floor was read and before the changes were takes away
rows the floor said were there, and the build goes on to answer from what is left:
if nothing is left it says that nothing moved, under a label that says everything
did.
-/

namespace Meshp.Session

open Base (Reading Action Along run)
open Base.Reading (step)
open Base.Statements (Ensures Only ensures_of_only ensures_pure ensures_query only_each only_query)
open Store

variable {F : Nat} {m : Mesh} {n : Id} {c : Enroll.Checks}

theorem changesSince_pruneNetwork {n' : Id} {olderThan : Time} {head : Nat}
    (h : ∀ r ∈ m.stateChanges, r.networkId = n → prunable n' olderThan r = true → r.version ≤ F) :
    changesSince (pruneNetwork m n' olderThan) n F head = changesSince m n F head := by
  rcases pruneNetwork_cases m n' olderThan with heq | ⟨top, heq, _⟩
  · rw [heq]
  · rw [heq]
    unfold changesSince
    simp only [List.filter_filter]
    congr 1
    refine List.filter_congr fun r hr => ?_
    by_cases hold : prunable n' olderThan r = true
    · -- A dropped row is at or below the start of the window.
      have hout : ¬(r.networkId = n ∧ F < r.version ∧ r.version ≤ head) := by
        rintro ⟨hn, hF, _⟩
        have := h r hr hn hold
        omega
      simp only [hout, decide_false, Bool.false_and]
    · simp [hold]

def isPrune (s : Stamped) : Bool :=
  match s.event with
  | .pruneNetwork _ _ => true
  | _ => false

theorem apply_of_isPrune {s : Stamped} (h : isPrune s = true) (m : Mesh) :
    ∃ n olderThan, s.event = .pruneNetwork n olderThan ∧ apply c m s = pruneNetwork m n olderThan := by
  unfold isPrune at h
  split at h
  · rename_i n olderThan hevent
    refine ⟨n, olderThan, hevent, ?_⟩
    unfold apply mutate Base.attempt
    rw [hevent]
  · cases h

/-- What is left of a mesh by prunes that commit after `i` reads of a build for network `n` from
version `F`. -/
structure Thinned (n : Id) (F i : Nat) (m m' : Mesh) : Prop where
  tables : m'.toTables = m.toTables
  version : m'.version n = m.version n
  floor : m.floor n ≤ m'.floor n
  bounded : m.LogBounded → m'.LogBounded
  /-- The window is whole as long as the floor says so, and while the build has yet to read it. -/
  changes : m.LogBounded → (m'.floor n ≤ F ∨ (2 ≤ i ∧ i < 5)) →
    ∀ head, changesSince m' n F head = changesSince m n F head

theorem Thinned.refl (n : Id) (F i : Nat) (m : Mesh) : Thinned n F i m m :=
  ⟨rfl, rfl, Nat.le_refl _, id, fun _ _ _ => rfl⟩

theorem Thinned.trans {i : Nat} {m₁ m₂ m₃ : Mesh} (h : Thinned n F i m₁ m₂)
    (h' : Thinned n F i m₂ m₃) : Thinned n F i m₁ m₃ where
  tables := h'.tables.trans h.tables
  version := h'.version.trans h.version
  floor := Nat.le_trans h.floor h'.floor
  bounded := fun hb => h'.bounded (h.bounded hb)
  changes := fun hb hwhole head => by
    rw [h'.changes (h.bounded hb) hwhole, h.changes hb]
    rcases hwhole with hle | hreads
    · exact .inl (Nat.le_trans h'.floor hle)
    · exact .inr hreads

/-- A prune takes nothing of a network above `F` if it commits after the second read of a build,
which is of the floor, and before the fifth, which is of the changes. -/
def Spares {α : Type} (n : Id) (F : Nat) (r : Reading Mesh α) : Action Stamped → Prop
  | .read => True
  | .commit s =>
    match s.event with
    | .pruneNetwork n' olderThan =>
      2 ≤ r.reads → r.reads < 5 → ∀ ch ∈ r.store.stateChanges, ch.networkId = n →
        prunable n' olderThan ch = true → ch.version ≤ F
    | _ => True

instance {α : Type} (n : Id) (F : Nat) (r : Reading Mesh α) (act : Action Stamped) :
    Decidable (Spares n F r act) := by
  unfold Spares
  split
  · infer_instance
  · split
    · infer_instance
    · infer_instance

theorem logBounded_pruneNetwork {olderThan : Time} (hb : m.LogBounded) :
    (pruneNetwork m n olderThan).LogBounded := by
  intro r hr
  rw [version_pruneNetwork]
  exact hb r (stateChanges_pruneNetwork hr)

theorem thinned_apply {s : Stamped} {α : Type} {r : Reading Mesh α} (hprune : isPrune s = true)
    (hspare : Spares n F r (.commit s)) : Thinned n F r.reads r.store (apply c r.store s) := by
  rcases apply_of_isPrune (c := c) hprune r.store with ⟨n', olderThan, hevent, happly⟩
  rw [happly]
  refine ⟨toTables_pruneNetwork, version_pruneNetwork, floor_le_pruneNetwork,
    logBounded_pruneNetwork, fun hb hwhole head => changesSince_pruneNetwork fun ch hch hn hold => ?_⟩
  rcases hwhole with hfloor | ⟨hlo, hhi⟩
  · have hle := le_floor_of_prunable hb hch hold
    have hold : ch.networkId = n' ∧ ch.createdAt < olderThan := by simpa [prunable] using hold
    rw [← hn, hold.1] at hfloor
    exact Nat.le_trans hle hfloor
  · simp only [Spares, hevent] at hspare
    exact hspare hlo hhi ch hch hn hold

theorem only_filterReads (x : Membership) : Only Mesh.toTables (filterReads x) := by
  refine (only_query fun m m' h => by rw [h]).bind fun policy => ?_
  match policy with
  | .error e => exact .done _
  | .ok none => exact .done _
  | .ok (some doc) => exact only_query fun m m' h => by rw [h]

theorem only_snapshotReads (b : Builder) (row : SessionRow) (peers : List LiveRow) :
    Only Mesh.toTables (snapshotReads b row peers) := by
  refine (only_query fun m m' h => by rw [h]).bind fun dns => ?_
  refine (only_filterReads row.membership).bind fun filter => ?_
  match filter with
  | .error e => exact .done _
  | .ok filter =>
    exact (only_query fun m m' h => by rw [h]).bind fun routes => .done _

theorem only_routeReads (b : Builder) (x : Membership) (changes : List ChangeKind) :
    Only Mesh.toTables (routeReads b x changes) := by
  unfold routeReads
  split
  · exact only_query fun m m' h => by rw [h]
  · exact .done _

theorem only_filterChangeReads (x : Membership) (changes : List ChangeKind) :
    Only Mesh.toTables (filterChangeReads x changes) := by
  unfold filterChangeReads
  split
  · exact only_filterReads x
  · exact .done _

theorem only_windowReads (b : Builder) (walk : Walk) (row : SessionRow) (F : Nat)
    (changes : List ChangeKind) : Only Mesh.toTables (windowReads b walk row F changes) := by
  refine (only_query fun m m' h => by rw [h]).bind fun dns => ?_
  refine (only_each (fun id m m' h => by rw [h]) _).bind fun found => ?_
  refine (only_routeReads b row.membership changes).bind fun routes => ?_
  refine (only_filterChangeReads row.membership changes).bind fun filter => ?_
  match filter with
  | .error e => exact .done _
  | .ok filter => exact .done _

theorem windowReads_ok {b : Builder} {walk : Walk} {row : SessionRow} {d : Wire.StateDelta}
    (h : (windowReads b walk row F (changesSince m row.membership.networkId F (m.version row.membership.networkId))).atOnce m = .ok d) :
    DeltaOf b m row.membership F d := by
  rw [atOnce_windowReads] at h
  rcases Base.map_eq_ok.1 h with ⟨filter, hfilter, rfl⟩
  have hperm := walk.perm (upsertedIds row.membership.id
    (changesSince m row.membership.networkId F (m.version row.membership.networkId)))
  have hmem : ∀ r, r ∈ (walk.visit (upsertedIds row.membership.id
      (changesSince m row.membership.networkId F
        (m.version row.membership.networkId)))).filterMap (peerOf m.toTables) ↔
      r ∈ (upsertedIds row.membership.id (changesSince m row.membership.networkId F
        (m.version row.membership.networkId))).filterMap (peerOf m.toTables) :=
    fun r => (hperm.filterMap _).mem_iff
  unfold deltaFrom
  refine ⟨rfl, fun v => ?_, fun key => ?_, hfilter, fun hr => ?_, fun hr => ?_⟩
  · rw [List.mem_insertionSort, List.mem_map]
    simp only [hmem]
  · rw [List.mem_insertionSort, List.mem_filter]
    simp only [Bool.not_eq_true', List.contains_eq_mem, decide_eq_false_iff_not, List.mem_map, hmem]
    simp
  · simp only [hr, if_true, and_self]
  · simp only [hr, Bool.false_eq_true, if_false, and_self]

section Guarantee

variable {b : Builder} {walk : Walk} {m : Mesh} {x : Membership} {F : Nat}

abbrev Right (b : Builder) (m : Mesh) (x : Membership) (F : Nat) (_ : Nat) (_ : Mesh)
    (result : Except Failure Wire.StateDelta) : Prop :=
  ∀ d, result = .ok d → Answered b m x F d

theorem ensures_snapshotReads_thinned {row : SessionRow} {i : Nat} {t : Mesh}
    (hver : row.network.stateVersion = m.version row.membership.networkId)
    (ht : t.toTables = m.toTables) :
    Ensures (Thinned row.membership.networkId F) (Right b m row.membership F) i
      (snapshotReads b row
        (peersOf m.toTables row.membership.networkId row.membership.id)) t := by
  refine ensures_of_only (only_snapshotReads b row _) (fun _ _ _ h => h.tables) ?_
  intro _ _ _ d hd
  rw [atOnce_snapshotReads, ht] at hd
  refine ⟨?_, .inl (snapshotFromPeers_ok hd)⟩
  rcases Base.bind_eq_ok.1 hd with ⟨filter, _, hd⟩
  cases hd
  exact hver

theorem ensures_windowReads_thinned {row : SessionRow} {i : Nat} {t : Mesh}
    (hver : row.network.stateVersion = m.version row.membership.networkId)
    (hF : F ≠ 0) (hle : F ≤ m.version row.membership.networkId)
    (hfloor : m.floor row.membership.networkId ≤ F) (ht : t.toTables = m.toTables) :
    Ensures (Thinned row.membership.networkId F) (Right b m row.membership F) i
      (windowReads b walk row F
        (changesSince m row.membership.networkId F (m.version row.membership.networkId))) t := by
  refine ensures_of_only (only_windowReads b walk row F _) (fun _ _ _ h => h.tables) ?_
  intro _ _ _ d hd
  rw [(only_windowReads b walk row F _).atOnce_eq ht] at hd
  refine ⟨?_, .inr ⟨hF, hle, hfloor, .inr (windowReads_ok hd)⟩⟩
  rw [atOnce_windowReads] at hd
  rcases Base.map_eq_ok.1 hd with ⟨filter, _, rfl⟩
  exact hver

theorem ensures_changeReads_thinned {row : SessionRow} {t : Mesh} (hb : m.LogBounded)
    (hbt : t.LogBounded) (hver : row.network.stateVersion = m.version row.membership.networkId)
    (hF : F ≠ 0) (hle : F ≤ m.version row.membership.networkId)
    (hfloor : m.floor row.membership.networkId ≤ F) (ht : t.toTables = m.toTables)
    (hwhole : ∀ head, changesSince t row.membership.networkId F head =
      changesSince m row.membership.networkId F head) :
    Ensures (Thinned row.membership.networkId F) (Right b m row.membership F) 2
      (changeReads b walk row F) t := by
  refine ensures_query fun t₃ h₃ => ?_
  -- Nothing in the window goes between the floor and the count.
  have hw₃ := h₃.changes hbt (.inr ⟨by omega, by omega⟩)
  split
  · rename_i hnone
    refine ensures_pure fun _ _ d hd => ?_
    cases hd
    refine ⟨hver, .inr ⟨hF, hle, hfloor, .inl ⟨⟨rfl, rfl, rfl, rfl, rfl, rfl, rfl⟩, fun k hk => ?_⟩⟩⟩
    rw [← mem_changesSince hb, ← hver, ← hwhole, ← hw₃, List.length_eq_zero_iff.1 hnone] at hk
    cases hk
  · refine ensures_query fun t₄ h₄ => ?_
    have ht₄ : t₄.toTables = m.toTables := h₄.tables.trans (h₃.tables.trans ht)
    rw [ht₄]
    split
    · exact ensures_snapshotReads_thinned hver ht₄
    · refine ensures_query fun t₅ h₅ => ?_
      -- Nor between the count, the peers and the changes.
      have hw₄ := h₄.changes (h₃.bounded hbt) (.inr ⟨by omega, by omega⟩)
      have hw₅ := h₅.changes (h₄.bounded (h₃.bounded hbt)) (.inr ⟨by omega, by omega⟩)
      rw [hw₅, hw₄, hw₃, hwhole, hver]
      exact ensures_windowReads_thinned hver hF hle hfloor (h₅.tables.trans ht₄)

theorem ensures_forReads_thinned (hinv : m.Inv) (hx : x ∈ m.memberships) :
    Ensures (Thinned x.networkId F) (Right b m x F) 0 (b.forReads walk x.id F) m := by
  refine ensures_query fun t₁ h₁ => ?_
  cases hrow : sessionRow t₁ x.id with
  | error e => exact ensures_pure fun _ _ d hd => by cases hd
  | ok row =>
    rcases sessionRow_ok hrow with ⟨hmem, hid, hver, _⟩
    rw [h₁.tables] at hmem
    -- The row read is the membership's own, whatever was pruned before.
    have hxx := hinv.member_eq hmem hx hid
    subst hxx
    rw [h₁.version] at hver
    refine ensures_query fun t₂ h₂ => ?_
    have ht₂ : t₂.toTables = m.toTables := h₂.tables.trans h₁.tables
    unfold answerReads
    split
    · refine ensures_query fun t₃ h₃ => ?_
      have ht₃ := h₃.tables.trans ht₂
      rw [ht₃]
      exact ensures_snapshotReads_thinned hver ht₃
    rename_i hwindow
    push Not at hwindow
    rcases hwindow with ⟨hF, hahead, hfloor₂⟩
    rw [hver] at hahead
    have hfloor : m.floor row.membership.networkId ≤ F :=
      Nat.le_trans h₁.floor (Nat.le_trans h₂.floor hfloor₂)
    split
    · rename_i hhead
      refine ensures_pure fun _ _ d hd => ?_
      cases hd
      refine ⟨hver, .inr ⟨hF, hahead, hfloor, .inl ⟨⟨rfl, rfl, rfl, rfl, rfl, rfl, rfl⟩, ?_⟩⟩⟩
      rw [hhead, hver]
      exact not_logged_version hinv.logBounded _
    · have hb₁ := h₁.bounded hinv.logBounded
      refine ensures_changeReads_thinned hinv.logBounded (h₂.bounded hb₁) hver hF hahead hfloor
        ht₂ fun head => ?_
      rw [h₂.changes hb₁ (.inl hfloor₂),
        h₁.changes hinv.logBounded (.inl (Nat.le_trans h₂.floor hfloor₂))]

end Guarantee

/-- An agent that holds the peers the network's snapshot had at version `F`. -/
def HeldAt (c : Enroll.Checks) (b : Builder) (ss : List Stamped) (x : Membership) (F : Nat)
    (held : Peerset.Set) : Prop :=
  ∃ ss₁ ss₂ σ, ss = ss₁ ++ ss₂ ∧ (history c ss₁).version x.networkId = F ∧
    b.snapshot (history c ss₁) x.id = .ok σ ∧ held.peers = (({} : Peerset.Set).apply σ).peers

theorem HeldAt.explained {b : Builder} {ss : List Stamped} {x : Membership} {held : Peerset.Set}
    (h : HeldAt c b ss x F held) (hx : x ∈ (history c ss).memberships)
    (hfloor : (history c ss).floor x.networkId ≤ F) :
    ∃ m₁ : Mesh, m₁.Inv ∧ PeersExplained m₁ (history c ss) x.networkId F ∧
      held.peers = peerTable b m₁.toTables x.networkId x.id := by
  rcases h with ⟨ss₁, ss₂, σ, rfl, rfl, hσ, hpeers⟩
  have hinv₁ := inv_history (c := c) ss₁
  have hrun : history c (ss₁ ++ ss₂) = run (apply c) (history c ss₁) ss₂ := Base.run_append _ _ _
  rcases snapshot_ok hσ with ⟨y, hy, hid, hof⟩
  rw [hrun] at hx hfloor ⊢
  have hsame := sameMember_run hinv₁ ss₂ hy hx hid.symm
  refine ⟨history c ss₁, hinv₁, peersExplained_run hinv₁ _ ss₂ hfloor, ?_⟩
  rw [hpeers, (hof.same hsame).peers]

/-- In every interleaving of a build with prunes in which none that commits between the reads of the
floor and of the changes takes a change above the version the build is from, the answer leaves out
no change up to its label, and folding it in gives the peers of that label. -/
theorem answer_through_prunes (c : Enroll.Checks) (b : Builder) (walk : Walk) (ss : List Stamped)
    (x : Membership) (hx : x ∈ (history c ss).memberships) (F : Nat)
    (acts : List (Action Stamped)) (hprunes : ∀ s, .commit s ∈ acts → isPrune s = true)
    (hspare : Along (step (apply c)) (Spares x.networkId F)
      ⟨history c ss, b.forReads walk x.id F, 0⟩ acts) (d : Wire.StateDelta)
    (hd : (run (step (apply c)) ⟨history c ss, b.forReads walk x.id F, 0⟩ acts).result =
      some (.ok d)) :
    Answered b (history c ss) x F d ∧
      ∀ held σ, b.snapshot (history c ss) x.id = .ok σ →
        (F ≠ 0 → F ≤ (history c ss).version x.networkId → HeldAt c b ss x F held) →
        (held.apply d).peers = (({} : Peerset.Set).apply σ).peers := by
  have hinv := inv_history (c := c) ss
  have hacts := Base.along_and_mem (P := fun act => ∀ s, act = .commit s → isPrune s = true) _ _
    hspare fun act hact s hs => hprunes s (hs ▸ hact)
  have hanswer : Answered b (history c ss) x F d := by
    refine Reading.result_run (fun _ _ => .refl _ _ _ _) (fun _ _ _ _ => .trans)
      (Base.along_mono (fun r act h e he => ?_) _ _ hacts) (ensures_forReads_thinned hinv hx) hd d rfl
    subst he
    exact thinned_apply (h.2 e rfl) h.1
  refine ⟨hanswer, fun held σ hσ hheld => ?_⟩
  rcases snapshot_ok hσ with ⟨y, hy, hid, hof⟩
  rw [hinv.member_eq hy hx hid] at hof
  rw [hof.peers]
  exact hanswer.fold hinv fun hF hle hfloor => (hheld hF hle).explained hx hfloor

theorem answer_through_prunes_spared :
    let ss := founding [] ++ [joining 1 7, joining 2 8, joining 3 9]
    let m₁ := history trusting (founding [] ++ [joining 1 7, joining 2 8])
    let acts : List (Action Stamped) := [.read, .commit ⟨4, .pruneNetwork 2 3⟩, .read, .read, .read,
      .read, .commit ⟨4, .pruneNetwork 2 4⟩, .read, .read]
    ∃ σ₁ σ d, Builder.snapshot {} m₁ 6 = .ok σ₁ ∧
      Builder.snapshot {} (history trusting ss) 6 = .ok σ ∧
      (run (step (apply trusting))
        ⟨history trusting ss, Builder.forReads {} .inOrder 6 (m₁.version 2), 0⟩ acts).result =
          some (.ok d) ∧
      d.fromVersion ≠ 0 ∧ d.upsertPeers ≠ [] ∧
      ((({} : Peerset.Set).apply σ₁).apply d).peers = (({} : Peerset.Set).apply σ).peers := by
  intro ss m₁ acts
  have hrun : founder [] ∈ (history trusting ss).memberships ∧
      Along (step (apply trusting)) (Spares 2 (m₁.version 2))
        ⟨history trusting ss, Builder.forReads {} .inOrder 6 (m₁.version 2), 0⟩ acts ∧
      (∃ σ₁, Builder.snapshot {} m₁ 6 = .ok σ₁ ∧ True) ∧
      (∃ σ, Builder.snapshot {} (history trusting ss) 6 = .ok σ ∧ True) ∧
      (run (step (apply trusting))
        ⟨history trusting ss, Builder.forReads {} .inOrder 6 (m₁.version 2), 0⟩
        acts).result.any fun r => ∃ d, r = .ok d ∧ d.fromVersion ≠ 0 ∧ d.upsertPeers ≠ [] := by
    decide +kernel
  rcases hrun with ⟨hx, hspare, ⟨σ₁, hσ₁, _⟩, ⟨σ, hσ, _⟩, hd⟩
  rcases (Option.any_eq_true _ _).1 hd with ⟨result, hd, hok⟩
  rcases of_decide_eq_true hok with ⟨d, rfl, hmoved⟩
  have hprunes : ∀ s, Action.commit s ∈ acts → isPrune s = true := by
    intro s hs
    simp only [acts, List.mem_cons, List.not_mem_nil, Action.commit.injEq, reduceCtorEq, or_false,
      false_or] at hs
    rcases hs with rfl | rfl
    · rfl
    · rfl
  have hfold := (answer_through_prunes trusting {} .inOrder ss (founder []) hx (m₁.version 2) acts
    hprunes hspare d hd).2 (({} : Peerset.Set).apply σ₁) σ hσ fun _ _ =>
      ⟨founding [] ++ [joining 1 7, joining 2 8], [joining 3 9], σ₁, rfl, rfl, hσ₁, rfl⟩
  exact ⟨σ₁, σ, d, hσ₁, hσ, hd, hmoved.1, hmoved.2, hfold⟩

/-- The floor is read, everything is pruned, and the changes are counted: none. The agent is told
that nothing moved, and goes on without a peer the version it is at has. -/
theorem peer_lost_to_prune :
    let m₁ := history trusting (founding [] ++ [joining 1 7])
    let m := history trusting (founding [] ++ [joining 1 7, joining 2 8])
    ∃ σ₁ σ d, Builder.snapshot {} m₁ 6 = .ok σ₁ ∧ Builder.snapshot {} m 6 = .ok σ ∧
      (run (step (apply trusting)) ⟨m, Builder.forReads {} .inOrder 6 (m₁.version 2), 0⟩
        [.read, .read, .commit ⟨4, .pruneNetwork 2 3⟩, .read]).result = some (.ok d) ∧
      d.toVersion = m.version 2 ∧ m.Logged 2 (m₁.version 2) (.peerUpsert 8) ∧
      ((({} : Peerset.Set).apply σ₁).apply d).peers ≠ (({} : Peerset.Set).apply σ).peers := by
  intro m₁ m
  have hrun : ∃ σ₁, Builder.snapshot {} m₁ 6 = .ok σ₁ ∧ ∃ σ, Builder.snapshot {} m 6 = .ok σ ∧
      (run (step (apply trusting)) ⟨m, Builder.forReads {} .inOrder 6 (m₁.version 2), 0⟩
        [.read, .read, .commit ⟨4, .pruneNetwork 2 3⟩, .read]).result.any fun r =>
          ∃ d, r = .ok d ∧ d.toVersion = m.version 2 ∧
            ((({} : Peerset.Set).apply σ₁).apply d).peers.keys.card ≠
              (({} : Peerset.Set).apply σ).peers.keys.card := by
    decide +kernel
  have hlogged : m.Logged 2 (m₁.version 2) (.peerUpsert 8) := by
    unfold Mesh.Logged
    decide +kernel
  rcases hrun with ⟨σ₁, hσ₁, σ, hσ, hrun⟩
  rcases (Option.any_eq_true _ _).1 hrun with ⟨result, hd, hok⟩
  rcases of_decide_eq_true hok with ⟨d, rfl, hversion, hlost⟩
  refine ⟨σ₁, σ, d, hσ₁, hσ, hd, hversion, hlogged, fun heq => hlost ?_⟩
  rw [heq]

end Meshp.Session
