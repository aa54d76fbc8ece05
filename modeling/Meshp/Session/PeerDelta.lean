import Meshp.Session.Answers

/-!
# A Delta of Peers Is as Good as a Snapshot

An agent that was sent the snapshot of some version and then the answer to that
version holds, peer for peer, what the snapshot of the head would have given it.
-/

namespace Meshp.Session

open Base (Explains insertAll eraseAll)
open Store
open Wire.Peer (publicKey)

variable {r : LiveRow} {self n : Id} {F : Nat} {m₁ m₂ : Mesh}

theorem peerOf_eq_some {t : Tables} (h : MemberInv t) {id : Id} :
    peerOf t id = some r ↔ r ∈ liveRows t ∧ r.membership.id = id := by
  unfold peerOf
  constructor
  · intro hfind
    exact Base.of_find? hfind
  · rintro ⟨hr, rfl⟩
    cases hfind : (liveRows t).find? (·.membership.id = r.membership.id) with
    | none =>
      have hnone := List.find?_eq_none.1 hfind r hr
      simp only [decide_true, not_true_eq_false] at hnone
    | some r' =>
      obtain ⟨hr', hid⟩ := Base.of_find? hfind
      rw [h.eq_of_id hr hr' hid]

theorem mem_upsertedIds {id : Id} {changes : List ChangeKind} :
    id ∈ upsertedIds self changes ↔ .peerUpsert id ∈ changes ∧ id ≠ self := by
  unfold upsertedIds
  rw [List.mem_dedup, List.mem_filterMap]
  constructor
  · rintro ⟨k, hk, hid⟩
    cases k with
    | peerUpsert id' =>
      simp only at hid
      split at hid
      · cases hid
      · rename_i hne
        cases hid
        exact ⟨hk, hne⟩
    | peerRemove _ | policy | routes | tunnel | dns | routeGroupRemove _ => cases hid
  · rintro ⟨hk, hne⟩
    exact ⟨_, hk, by simp only [if_neg hne]⟩

theorem mem_removedKeys {key : Key} {changes : List ChangeKind} :
    key ∈ removedKeys changes ↔ .peerRemove key ∈ changes := by
  unfold removedKeys
  rw [List.mem_dedup, List.mem_filterMap]
  constructor
  · rintro ⟨k, hk, hkey⟩
    cases k with
    | peerRemove key' =>
      cases hkey
      exact hk
    | peerUpsert _ | policy | routes | tunnel | dns | routeGroupRemove _ => cases hkey
  · intro hk
    exact ⟨_, hk, rfl⟩

theorem mem_peersOf {t : Tables} :
    r ∈ peersOf t n self ↔ r ∈ netRows t n ∧ r.membership.id ≠ self := by
  unfold peersOf
  rw [mem_netRows, List.mem_filter, decide_eq_true_eq, and_assoc]

theorem mem_upserts {m : Mesh} (hinv : m.Inv) :
    r ∈ (upsertedIds self (changesSince m n F (m.version n))).filterMap (peerOf m.toTables) ↔
      r ∈ peersOf m.toTables n self ∧ m.Logged n F (.peerUpsert r.membership.id) := by
  rw [List.mem_filterMap]
  constructor
  · rintro ⟨id, hid, hr⟩
    rcases mem_upsertedIds.1 hid with ⟨hlog, hne⟩
    rcases (peerOf_eq_some hinv.members).1 hr with ⟨hlive, rfl⟩
    rw [mem_changesSince hinv.logBounded] at hlog
    -- An upsert names a membership of the network it is logged in.
    rcases hinv.upserts n F _ hlog with ⟨x, hx, hxid, hxn⟩
    have hxx := hinv.member_eq (mem_liveRows.1 hlive).1 hx hxid.symm
    exact ⟨mem_peersOf.2 ⟨mem_netRows.2 ⟨hlive, by rw [hxx, hxn]⟩, hne⟩, hlog⟩
  · rintro ⟨hr, hlog⟩
    rcases mem_peersOf.1 hr with ⟨hnet, hne⟩
    refine ⟨r.membership.id, mem_upsertedIds.2 ⟨?_, hne⟩, ?_⟩
    · rwa [mem_changesSince hinv.logBounded]
    · exact (peerOf_eq_some hinv.members).2 ⟨(mem_netRows.1 hnet).1, rfl⟩

theorem key_peersOf {m : Mesh} (hinv : m.Inv) :
    ∀ r ∈ peersOf m.toTables n self, ∀ r' ∈ peersOf m.toTables n self,
      r'.key.publicKey = r.key.publicKey → r' = r := by
  intro r hr r' hr' hkey
  have hlive := (mem_netRows.1 (mem_peersOf.1 hr).1).1
  have hlive' := (mem_netRows.1 (mem_peersOf.1 hr').1).1
  exact hinv.members.eq_of_key hlive hlive' hkey

theorem explains_peersOf (hex : PeersExplained m₁ m₂ n F) (self : Id) :
    Explains (fun r : LiveRow => r.membership.id) (fun r => r.key.publicKey)
      (peersOf m₁.toTables n self) (peersOf m₂.toTables n self)
      (fun id => m₂.Logged n F (.peerUpsert id)) (fun key => m₂.Logged n F (.peerRemove key)) :=
  hex.restrict (fun r => r.membership.id ≠ self) (fun _ => mem_peersOf) fun _ => mem_peersOf

theorem delta_peers {b : Builder} {x : Membership} {d : Wire.StateDelta} (hinv₁ : m₁.Inv)
    (hinv₂ : m₂.Inv) (hex : PeersExplained m₁ m₂ x.networkId F) (h : DeltaOf b m₂ x F d) :
    insertAll publicKey (eraseAll (insertAll publicKey ∅
        ((peersOf m₁.toTables x.networkId x.id).map (peerFrom b.relayConfig))) d.removePeerKeys)
        d.upsertPeers =
      insertAll publicKey ∅
        ((peersOf m₂.toTables x.networkId x.id).map (peerFrom b.relayConfig)) := by
  have hview : ∀ r, publicKey (peerFrom b.relayConfig r) = r.key.publicKey :=
    fun _ => rfl
  refine Base.foldDelta_eq (explains_peersOf hex _) hview (key_peersOf hinv₁) (key_peersOf hinv₂)
    (fun v => ?_) fun key => ?_
  · rw [h.upsertPeers]
    constructor
    · rintro ⟨r, hr, hv⟩
      rcases (mem_upserts hinv₂).1 hr with ⟨hpeer, hlog⟩
      exact ⟨r, hpeer, hlog, hv⟩
    · rintro ⟨r, hpeer, hlog, hv⟩
      exact ⟨r, (mem_upserts hinv₂).2 ⟨hpeer, hlog⟩, hv⟩
  · rw [h.removePeerKeys, mem_removedKeys, mem_changesSince hinv₂.logBounded]
    refine and_congr_right fun _ => ⟨fun hno v hv => ?_, fun hno r hr => ?_⟩
    · rcases (h.upsertPeers v).1 hv with ⟨r, hr, rfl⟩
      exact hno r hr
    · exact hno _ ((h.upsertPeers _).2 ⟨r, hr, rfl⟩)

theorem silent_peers {b : Builder} (hinv₁ : m₁.Inv) (hinv₂ : m₂.Inv)
    (hex : PeersExplained m₁ m₂ n F) (hnone : ∀ k, ¬m₂.Logged n F k) :
    insertAll publicKey ∅
        ((peersOf m₁.toTables n self).map (peerFrom b.relayConfig)) =
      insertAll publicKey ∅
        ((peersOf m₂.toTables n self).map (peerFrom b.relayConfig)) := by
  have hview : ∀ r, publicKey (peerFrom b.relayConfig r) = r.key.publicKey :=
    fun _ => rfl
  -- A silent log is a delta that erases nothing and writes nothing.
  change insertAll publicKey (Base.eraseAll (insertAll publicKey ∅
    ((peersOf m₁.toTables n self).map (peerFrom b.relayConfig))) []) [] = _
  refine Base.foldDelta_eq (explains_peersOf hex self) hview (key_peersOf hinv₁)
    (key_peersOf hinv₂) (fun v => ?_) fun key => ?_
  · constructor
    · intro h
      cases h
    · rintro ⟨r, _, hlog, _⟩
      exact absurd hlog (hnone _)
  · constructor
    · intro h
      cases h
    · rintro ⟨hlog, _⟩
      exact absurd hlog (hnone _)

/-- With the relay registry held fixed, an agent that folds the answer to its version into the
snapshot of that version has the peers of a snapshot of the head; and an active membership is
answered. -/
theorem peers_fold_eq_snapshot (c : Enroll.Checks) (b₁ b₂ : Builder)
    (hrelays : b₁.relayConfig = b₂.relayConfig) (ss₁ ss₂ : List Stamped) (n : Id) (x : Membership)
    (hx : x ∈ (history c (ss₁ ++ ss₂)).memberships) (hn : x.networkId = n)
    (hwindow : (history c (ss₁ ++ ss₂)).floor n ≤ (history c ss₁).version n) :
    (∀ σ₁ σ₂ δ, b₁.snapshot (history c ss₁) x.id = .ok σ₁ →
      b₂.snapshot (history c (ss₁ ++ ss₂)) x.id = .ok σ₂ →
      b₂.for (history c (ss₁ ++ ss₂)) x.id ((history c ss₁).version n) = .ok δ →
      ((({} : Peerset.Set).apply σ₁).apply δ).peers = (({} : Peerset.Set).apply σ₂).peers) ∧
    (x.state = .active →
      (∃ σ₂, b₂.snapshot (history c (ss₁ ++ ss₂)) x.id = .ok σ₂) ∧
      ∃ δ, b₂.for (history c (ss₁ ++ ss₂)) x.id ((history c ss₁).version n) = .ok δ) := by
  have hinv₁ := inv_history (c := c) ss₁
  have hinv₂ := inv_history (c := c) (ss₁ ++ ss₂)
  have hrun : history c (ss₁ ++ ss₂) = Base.run (apply c) (history c ss₁) ss₂ :=
    Base.run_append _ _ _
  refine ⟨fun σ₁ σ₂ δ h₁ h₂ hδ => ?_, fun hact =>
    ⟨snapshot_isOk hinv₂ hx hact b₂, for_isOk hinv₂ hx hact b₂ _⟩⟩
  subst hn
  rcases snapshots_ok hinv₁ hinv₂ hx hrun h₁ h₂ with ⟨hσ₁, hσ₂, _⟩
  have hex : PeersExplained (history c ss₁) (history c (ss₁ ++ ss₂)) x.networkId
      ((history c ss₁).version x.networkId) := by
    rw [hrun] at hwindow ⊢
    exact peersExplained_run hinv₁ _ ss₂ hwindow
  rcases for_ok hinv₂ hx hδ with hsnap | ⟨hF, hsilent, hnone⟩ | ⟨hF, hdelta⟩
  · rw [h₂] at hsnap
    cases hsnap
    exact (Peerset.apply_snapshot _ hσ₂.fromVersion).1
  · rw [Peerset.peers_apply (by rw [hsilent.fromVersion]; exact hF), hsilent.upsertPeers,
      hsilent.removePeerKeys, Peerset.peers_apply_snapshot hσ₁.fromVersion hσ₁.removePeerKeys,
      Peerset.peers_apply_snapshot hσ₂.fromVersion hσ₂.removePeerKeys, hσ₁.upsertPeers,
      hσ₂.upsertPeers, hrelays]
    exact silent_peers hinv₁ hinv₂ hex hnone
  · rw [Peerset.peers_apply (by rw [hdelta.fromVersion]; exact hF),
      Peerset.peers_apply_snapshot hσ₁.fromVersion hσ₁.removePeerKeys,
      Peerset.peers_apply_snapshot hσ₂.fromVersion hσ₂.removePeerKeys, hσ₁.upsertPeers,
      hσ₂.upsertPeers, hrelays]
    exact delta_peers hinv₁ hinv₂ hex hdelta

theorem peers_fold_eq_snapshot_replaced :
    let ss₁ := founding [] ++ [joining 1 7, joining 1 8, joining 2 9]
    let ss₂ := [⟨3, .revokeMembership 2 8⟩, joining 3 11]
    let m₁ := history trusting ss₁
    let m₂ := history trusting (ss₁ ++ ss₂)
    founder [] ∈ m₂.memberships ∧ m₂.floor 2 ≤ m₁.version 2 ∧
      ∃ σ₁ σ₂ δ, Builder.snapshot {} m₁ 6 = .ok σ₁ ∧ Builder.snapshot {} m₂ 6 = .ok σ₂ ∧
        Builder.for {} m₂ 6 (m₁.version 2) = .ok δ ∧
        δ.removePeerKeys.length = 1 ∧ δ.upsertPeers.length = 1 ∧
        ((({} : Peerset.Set).apply σ₁).apply δ).peers = (({} : Peerset.Set).apply σ₂).peers := by
  intro ss₁ ss₂ m₁ m₂
  have hrun : (founder [] ∈ m₂.memberships ∧ m₂.floor 2 ≤ m₁.version 2) ∧
      (∃ σ₁, Builder.snapshot {} m₁ 6 = .ok σ₁ ∧ True) ∧
      ∃ δ, Builder.for {} m₂ 6 (m₁.version 2) = .ok δ ∧
        δ.removePeerKeys.length = 1 ∧ δ.upsertPeers.length = 1 := by decide +kernel
  rcases hrun with ⟨⟨hx, hwindow⟩, ⟨σ₁, h₁, _⟩, δ, hδ, hmoved⟩
  have hfold := peers_fold_eq_snapshot trusting {} {} rfl ss₁ ss₂ 2 (founder []) hx rfl hwindow
  rcases (hfold.2 rfl).1 with ⟨σ₂, h₂⟩
  exact ⟨hx, hwindow, σ₁, σ₂, δ, h₁, h₂, hδ, hmoved.1, hmoved.2, hfold.1 σ₁ σ₂ δ h₁ h₂ hδ⟩

end Meshp.Session
