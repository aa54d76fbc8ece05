import Meshp.Base.Delta
import Meshp.Session.Builder
import Meshp.Store.Invariant

/-!
# The Log Explains the Peers

Between a version of a network and any later state of it, as long as the delta
floor has not passed the version, the change log explains how the network's live
rows moved: a row that is new is upserted, a row that is gone has its key removed,
and a key that was removed and is in use again has been upserted since.
-/

namespace Meshp.Session

open Base (Explains run Along)
open Store

def netRows (t : Tables) (n : Id) : List LiveRow :=
  (liveRows t).filter (·.membership.networkId = n)

theorem mem_netRows {t : Tables} {n : Id} {r : LiveRow} :
    r ∈ netRows t n ↔ r ∈ liveRows t ∧ r.membership.networkId = n := by
  unfold netRows
  rw [List.mem_filter, decide_eq_true_eq]

/-- Above `F`, the log of a network explains how its live rows in `m₁` became those in `m`. -/
def PeersExplained (m₁ m : Mesh) (n : Id) (F : Nat) : Prop :=
  Explains (fun r : LiveRow => r.membership.id) (fun r => r.key.publicKey)
    (netRows m₁.toTables n) (netRows m.toTables n)
    (fun id => m.Logged n F (.peerUpsert id)) (fun key => m.Logged n F (.peerRemove key))

section Step

variable {c : Enroll.Checks} {s : Stamped} {m m' : Mesh} {n : Id} {F : Nat}

structure PeersMoved (m m' : Mesh) (n : Id) (F : Nat) : Prop where
  added : ∀ r ∈ netRows m'.toTables n,
    r ∈ netRows m.toTables n ∨ m'.Logged n F (.peerUpsert r.membership.id)
  gone : ∀ r ∈ netRows m.toTables n,
    r ∈ netRows m'.toTables n ∨ m'.Logged n F (.peerRemove r.key.publicKey)
  kept : ∀ r ∈ netRows m'.toTables n, r ∈ netRows m.toTables n →
    m'.Logged n F (.peerRemove r.key.publicKey) → m.Logged n F (.peerRemove r.key.publicKey)

theorem peersMoved_of_same (hrows : liveRows m'.toTables = liveRows m.toTables)
    (hlog : ∀ key, m'.Logged n F (.peerRemove key) → m.Logged n F (.peerRemove key)) :
    PeersMoved m m' n F where
  added := fun r hr => .inl (by
    unfold netRows at hr ⊢
    rwa [hrows] at hr)
  gone := fun r hr => .inl (by
    unfold netRows at hr ⊢
    rwa [hrows])
  kept := fun _ _ _ h => hlog _ h

theorem peersMoved_joined {t : Tables} {x : Membership} {d : Device} {key : Key} {now : Time}
    (hinv : m.Inv) (wrote : Enroll.Joined m.toTables t x d key) (hF : F ≤ m.version n) :
    PeersMoved m (Mesh.recordAll now { m with toTables := t } (Enroll.joinBumps t x)) n F := by
  have hrows := liveRows_joined hinv.members wrote
  refine ⟨fun r hr => ?_, fun r hr => .inl ?_, fun r _ _ hlog => ?_⟩
  · rcases mem_netRows.1 hr with ⟨hlive, hn⟩
    rw [Mesh.toTables_recordAll, hrows] at hlive
    rcases Base.mem_concat.1 hlive with hlive | rfl
    · exact .inl (mem_netRows.2 ⟨hlive, hn⟩)
    · -- The row that is new is the one the redemption logs.
      right
      subst hn
      exact Mesh.logged_recordAll now _ x.networkId F _ [.peerUpsert x.id] _ (.head _)
        (.head _) hF
  · rcases mem_netRows.1 hr with ⟨hlive, hn⟩
    rw [mem_netRows, Mesh.toTables_recordAll, hrows]
    exact ⟨List.mem_append_left _ hlive, hn⟩
  · refine logged_before hlog rfl fun hb => ?_
    rcases bumped_joinBumps hb with ⟨_, hk⟩ | hk
    · cases hk
    · cases hk

theorem eq_of_currentKey (hinv : m.Inv) {r : LiveRow} (hr : r ∈ liveRows m.toTables) {id : Id}
    (hkey : currentKey m.toTables id = some r.key.publicKey) : r.membership.id = id := by
  unfold currentKey at hkey
  rcases Option.map_eq_some_iff.1 hkey with ⟨k, hfind, hpub⟩
  obtain ⟨hmem, hid, _⟩ := Base.of_find? hfind
  rcases mem_liveRows.1 hr with ⟨_, _, ⟨hk, hkx, _⟩, _⟩
  have hkk := List.inj_on_of_nodup_map hinv.members.publicKeys hmem hk hpub
  rw [← hkx, ← hkk]
  exact hid

theorem peersMoved_revoked {x : Membership} {key : Key} {now : Time} (hinv : m.Inv)
    (member : x ∈ m.memberships) (hadKey : currentKey m.toTables x.id = some key)
    (hF : F ≤ m.version n) :
    PeersMoved m (Mesh.recordAll now { m with toTables := markRevoked m.toTables x.id }
      [(x.networkId, [.peerRemove key])]) n F := by
  have hrows := liveRows_markRevoked m.toTables x.id
  refine ⟨fun r hr => .inl ?_, fun r hr => ?_, fun r hr hr' hlog => ?_⟩
  · rcases mem_netRows.1 hr with ⟨hlive, hn⟩
    rw [Mesh.toTables_recordAll, hrows] at hlive
    exact mem_netRows.2 ⟨List.mem_of_mem_filter hlive, hn⟩
  · rcases mem_netRows.1 hr with ⟨hlive, hn⟩
    by_cases hid : r.membership.id = x.id
    · -- The revoked membership's own row: its key is the one that is named.
      right
      rcases mem_liveRows.1 hlive with ⟨hx, _, ⟨hk, hkx, _⟩, _⟩
      have hcur := hinv.members.currentKey_eq hk
      rw [hkx, hid, hadKey, Option.some.injEq] at hcur
      have hxx := hinv.member_eq hx member hid
      rw [hxx] at hn
      subst hn
      rw [← hcur]
      exact Mesh.logged_recordAll now _ x.networkId F _ [.peerRemove key] _ (.head _)
        (.head _) hF
    · left
      rw [mem_netRows, Mesh.toTables_recordAll, hrows]
      exact ⟨List.mem_filter.2 ⟨hlive, by simpa using hid⟩, hn⟩
  · refine logged_before hlog rfl fun hb => ?_
    have hkey : r.key.publicKey = key := by injection (bumped_singleton.1 hb).2
    have hlive := (mem_netRows.1 hr').1
    have hid := eq_of_currentKey hinv hlive (hkey ▸ hadKey)
    have hstay := (mem_netRows.1 hr).1
    rw [Mesh.toTables_recordAll, hrows] at hstay
    have := (List.mem_filter.1 hstay).2
    rw [decide_eq_true_eq] at this
    exact this hid

theorem peersMoved_forgot {device : Id} {now : Time} (hinv : m.Inv) (hF : F ≤ m.version n) :
    PeersMoved m (deleteDevice (Mesh.recordAll now m
      ((m.memberships.filter (·.deviceId = device)).flatMap (leaveBumps m.toTables))) device) n F := by
  have hrows : liveRows (deleteDevice (Mesh.recordAll now m
      ((m.memberships.filter (·.deviceId = device)).flatMap (leaveBumps m.toTables)))
        device).toTables = (liveRows m.toTables).filter (·.membership.deviceId ≠ device) := by
    rw [liveRows_deleteDevice, Mesh.toTables_recordAll]
    rw [Mesh.toTables_recordAll]
    exact hinv.members
  refine ⟨fun r hr => .inl ?_, fun r hr => ?_, fun r hr hr' hlog => ?_⟩
  · rcases mem_netRows.1 hr with ⟨hlive, hn⟩
    rw [hrows] at hlive
    exact mem_netRows.2 ⟨List.mem_of_mem_filter hlive, hn⟩
  · rcases mem_netRows.1 hr with ⟨hlive, hn⟩
    by_cases hd : r.membership.deviceId = device
    · -- A row of the device: its key is named before the device goes.
      right
      rcases mem_liveRows.1 hlive with ⟨hx, _, ⟨hk, hkx, _⟩, _⟩
      have hcur := hinv.members.currentKey_eq hk
      rw [hkx] at hcur
      rcases bumped_leaveBumps_key hcur (hinv.members.keyText _ hk) with ⟨ks, hmem, hks⟩
      rw [hn] at hmem
      refine logged_deleteDevice.2 ⟨Mesh.logged_recordAll now m n F _ ks _ ?_ hks hF, nofun⟩
      exact List.mem_flatMap.2
        ⟨r.membership, List.mem_filter.2 ⟨hx, by simpa using hd⟩, hmem⟩
    · left
      rw [mem_netRows, hrows]
      exact ⟨List.mem_filter.2 ⟨hlive, by simpa using hd⟩, hn⟩
  · have hlog := (logged_deleteDevice.1 hlog).1
    refine logged_before hlog rfl fun hb => ?_
    rcases bumped_flatMap.1 hb with ⟨y, hy, hb⟩
    rcases bumped_leaveBumps hb with ⟨_, key, hcur, hk⟩ | hk
    · injection hk with hkey
      have hlive := (mem_netRows.1 hr').1
      have hid := eq_of_currentKey hinv hlive (hkey ▸ hcur)
      rcases List.mem_filter.1 hy with ⟨hymem, hyd⟩
      have hxx := hinv.member_eq (mem_liveRows.1 hlive).1 hymem hid
      have hstay := (mem_netRows.1 hr).1
      rw [hrows] at hstay
      have hne := (List.mem_filter.1 hstay).2
      rw [decide_eq_true_eq, hxx] at hne
      exact hne (by simpa using hyd)
    · cases hk

theorem Effect.peers (he : Effect c s m m') (hinv : m.Inv) (hF : F ≤ m.version n)
    (hfloor : m'.floor n ≤ F) : PeersMoved m m' n F := by
  cases he with
  | settings t bumps members routes policies kinds exist =>
    refine peersMoved_of_same ?_ fun key hlog => logged_before hlog rfl fun hb => ?_
    · rw [Mesh.toTables_recordAll]
      exact liveRows_of_kept members
    · cases kinds n _ hb
  | routes t n' bumps members inv others policies logged named kinds exist =>
    refine peersMoved_of_same ?_ fun key hlog => logged_before hlog rfl fun hb => ?_
    · rw [Mesh.toTables_recordAll]
      exact liveRows_of_kept members
    · cases (kinds n _ hb).1
  | policy n' doc version valid exist | egress n' enforced =>
    refine peersMoved_of_same ?_ fun key hlog => logged_before hlog rfl fun hb => ?_
    · rw [Mesh.toTables_recordAll]
      rfl
    · cases (bumped_singleton.1 hb).2
  | joined t x d key wrote => exact peersMoved_joined hinv wrote hF
  | revoked x key event member hadKey => exact peersMoved_revoked hinv member hadKey hF
  | forgot org device => exact peersMoved_forgot hinv hF
  | network t r members => exact peersMoved_of_same (liveRows_of_kept members) fun _ hlog => hlog
  | pruned n' olderThan =>
    refine peersMoved_of_same ?_ fun key hlog =>
      (logged_pruneNetwork hinv.logBounded hfloor).1 hlog
    rw [toTables_pruneNetwork]

theorem peersExplained_step {m₁ : Mesh} (he : Effect c s m m') (hinv : m.Inv)
    (hF : F ≤ m.version n) (hfloor : m'.floor n ≤ F) (h : PeersExplained m₁ m n F) :
    PeersExplained m₁ m' n F := by
  have hmoved := Effect.peers he hinv hF hfloor
  refine Explains.step h (fun r hr hlog => ?_) (fun key hlog => ?_) hmoved.added hmoved.gone
    hmoved.kept
  · refine he.logged hinv hlog hfloor fun id hid => ?_
    cases hid
    exact ⟨r.membership, (mem_liveRows.1 (mem_netRows.1 hr).1).1, rfl⟩
  · exact he.logged hinv hlog hfloor nofun

end Step

variable {c : Enroll.Checks}

theorem not_logged_version {m : Mesh} (h : m.LogBounded) (n : Id) (k : ChangeKind) :
    ¬m.Logged n (m.version n) k := by
  rintro ⟨r, hr, rfl, hlt, _⟩
  have := h r hr
  omega

theorem run_window {m₁ : Mesh} {n : Id} {cond : Mesh → Stamped → Prop} (P : Mesh → Prop)
    (hinv : m₁.Inv) (hstart : P m₁)
    (hstep : ∀ m s, Effect c s m (apply c m s) → m.Inv → m₁.version n ≤ m.version n → cond m s →
      (apply c m s).floor n ≤ m₁.version n → P m → P (apply c m s))
    (ss : List Stamped) (hcond : Along (apply c) cond m₁ ss)
    (hfloor : (run (apply c) m₁ ss).floor n ≤ m₁.version n) : P (run (apply c) m₁ ss) := by
  have hrun := Base.run_inv_along
    (fun m => m.Inv ∧ m₁.version n ≤ m.version n ∧ (m.floor n ≤ m₁.version n → P m))
    (fun m s hI hc => ?_) m₁ ss ⟨hinv, Nat.le_refl _, fun _ => hstart⟩ hcond
  · exact hrun.2.2 hfloor
  rcases hI with ⟨hI, hle, hP⟩
  have he : Effect c s m (apply c m s) := apply_effect hI.routes
  refine ⟨he.inv hI, Nat.le_trans hle he.version_le, fun hfloor => ?_⟩
  exact hstep m s he hI hle hc hfloor (hP (Nat.le_trans he.floor_le hfloor))

theorem peersExplained_run {m₁ : Mesh} (hinv : m₁.Inv) (n : Id) (ss : List Stamped)
    (hfloor : (run (apply c) m₁ ss).floor n ≤ m₁.version n) :
    PeersExplained m₁ (run (apply c) m₁ ss) n (m₁.version n) :=
  run_window (fun m => PeersExplained m₁ m n (m₁.version n)) hinv
    (Explains.refl fun _ => not_logged_version hinv.logBounded n _)
    (fun _ _ he hI hle _ hfl hP => peersExplained_step he hI hle hfl hP) ss
    (Base.along_true m₁ ss) hfloor

end Meshp.Session
