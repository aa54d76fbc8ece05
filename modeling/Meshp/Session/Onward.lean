import Meshp.Base.Mends
import Meshp.Session.Pruning

/-!
# What a Mesh Can Become While Nobody Prunes

Everything about a later mesh that a build, a delta on its way or a table already
held depends on, said once for a single mutation and carried over any number of
them.
-/

namespace Meshp.Session

open Store

section Touched

variable (m : Mesh) (n me : Id) (v : Nat) (k : Key)

/-- Above version `v` the log says something about key `k`: that it was removed, or that the peer
that has it now was upserted. -/
def Touched : Prop :=
  m.Logged n v (.peerRemove k) ∨
    ∃ r ∈ peersOf m.toTables n me, r.key.publicKey = k ∧
      m.Logged n v (.peerUpsert r.membership.id)

variable {m n me v k}

theorem Touched.mono {v' : Nat} (h : Touched m n me v k) (hv : v' ≤ v) :
    Touched m n me v' k := by
  rcases h with h | ⟨r, hr, hk, h⟩
  · exact .inl (h.mono hv)
  · exact .inr ⟨r, hr, hk, h.mono hv⟩

theorem not_touched_version (hb : m.LogBounded) : ¬Touched m n me (m.version n) k := by
  rintro (h | ⟨_, _, _, h⟩)
  · exact not_logged_version hb n _ h
  · exact not_logged_version hb n _ h

theorem lookup_peerTable {b : Builder} (hinv : m.Inv) {p : Wire.Peer} :
    (peerTable b m.toTables n me).lookup k = some p ↔
      ∃ r ∈ peersOf m.toTables n me, r.key.publicKey = k ∧ peerFrom b.relayConfig r = p := by
  unfold peerTable
  have hdistinct : ∀ p ∈ (peersOf m.toTables n me).map (peerFrom b.relayConfig),
      ∀ q ∈ (peersOf m.toTables n me).map (peerFrom b.relayConfig),
        q.publicKey = p.publicKey → q = p := by
    intro p hp q hq hkey
    rcases List.mem_map.1 hp with ⟨r, hr, rfl⟩
    rcases List.mem_map.1 hq with ⟨r', hr', rfl⟩
    rw [key_peersOf hinv r hr r' hr' hkey]
  rw [Base.lookup_insertAll _ hdistinct]
  simp only [Finmap.lookup_empty, reduceCtorEq, and_false, or_false, List.mem_map]
  constructor
  · rintro ⟨⟨r, hr, rfl⟩, hk⟩
    exact ⟨r, hr, hk, rfl⟩
  · rintro ⟨r, hr, hk, rfl⟩
    exact ⟨⟨r, hr, rfl⟩, hk⟩

theorem lookup_peerTable_congr {b : Builder} {m' : Mesh} (hinv : m.Inv) (hinv' : m'.Inv)
    (h : ∀ r, r.key.publicKey = k →
      (r ∈ peersOf m'.toTables n me ↔ r ∈ peersOf m.toTables n me)) :
    (peerTable b m'.toTables n me).lookup k = (peerTable b m.toTables n me).lookup k := by
  refine Option.ext fun p => ?_
  rw [lookup_peerTable hinv, lookup_peerTable hinv']
  constructor
  · rintro ⟨r, hr, hk, hp⟩
    exact ⟨r, (h r hk).1 hr, hk, hp⟩
  · rintro ⟨r, hr, hk, hp⟩
    exact ⟨r, (h r hk).2 hr, hk, hp⟩

end Touched

/-- A mesh in which a membership of network `n`, first seen when the network was at version `start`,
has not been taken for another's, and whose log goes back to that version. -/
structure Live (n me : Id) (start : Nat) (m : Mesh) : Prop where
  inv : m.Inv
  floor : m.floor n ≤ start
  start : start ≤ m.version n
  known : me < m.nextId
  own : ∀ x ∈ m.memberships, x.id = me → x.networkId = n

/-- What holds between a mesh and a later one, for every version the log goes back to that had been
reached. -/
structure Onward (b : Builder) (n me : Id) (start : Nat) (m m' : Mesh) : Prop where
  live : Live n me start m'
  version : m.version n ≤ m'.version n
  nextId : m.nextId ≤ m'.nextId
  old : ∀ x ∈ m'.memberships, x.id < m.nextId →
    ∃ y ∈ m.memberships, y.id = x.id ∧ y.networkId = x.networkId
  explained : ∀ v, start ≤ v → v ≤ m.version n → ∀ m₁,
    PeersExplained m₁ m n v → PeersExplained m₁ m' n v
  stays : ∀ v, start ≤ v → v ≤ m.version n → ∀ r ∈ peersOf m.toTables n me,
    r ∈ peersOf m'.toTables n me ∨ Touched m' n me v r.key.publicKey
  moved : ∀ v, start ≤ v → v ≤ m.version n → ∀ k,
    (peerTable b m'.toTables n me).lookup k = (peerTable b m.toTables n me).lookup k ∨
      Touched m' n me v k
  kept : ∀ v, start ≤ v → v ≤ m.version n → ∀ k,
    Touched m n me v k → Touched m' n me v k
  fresh : ∀ v v', start ≤ v → start ≤ v' → v' ≤ m.version n → ∀ k,
    Touched m' n me v k → Touched m n me v k ∨ Touched m' n me v' k

section Step

variable {c : Enroll.Checks} {s : Stamped} {m m' : Mesh} {n me : Id} {start : Nat} {b : Builder}

theorem Live.effect (h : Live n me start m) (he : Effect c s m m')
    (hevent : ∀ n olderThan, s.event ≠ .pruneNetwork n olderThan) : Live n me start m' where
  inv := he.inv h.inv
  floor := by
    rw [he.floor_eq hevent]
    exact h.floor
  start := Nat.le_trans h.start he.version_le
  known := Nat.lt_of_lt_of_le h.known he.nextId_le
  own := fun x hx hid => by
    rcases he.member_of hx with ⟨y, hy, hyx, _⟩ | hnew
    · rw [← hyx]
      exact h.own y hy (by rw [← hid, ← hyx])
    · rw [hid] at hnew
      exact absurd h.known (Nat.not_lt.2 hnew)

theorem peersMoved_peersOf (me : Id) {v : Nat} (h : PeersMoved m m' n v) (r : LiveRow) :
    (r ∈ peersOf m'.toTables n me → r ∈ peersOf m.toTables n me ∨
      m'.Logged n v (.peerUpsert r.membership.id)) ∧
    (r ∈ peersOf m.toTables n me → r ∈ peersOf m'.toTables n me ∨
      m'.Logged n v (.peerRemove r.key.publicKey)) := by
  constructor
  · intro hr
    rcases mem_peersOf.1 hr with ⟨hnet, hne⟩
    rcases h.added r hnet with hold | hlog
    · exact .inl (mem_peersOf.2 ⟨hold, hne⟩)
    · exact .inr hlog
  · intro hr
    rcases mem_peersOf.1 hr with ⟨hnet, hne⟩
    rcases h.gone r hnet with hstill | hlog
    · exact .inl (mem_peersOf.2 ⟨hstill, hne⟩)
    · exact .inr hlog

theorem onward_effect (h : Live n me start m) (he : Effect c s m m')
    (hevent : ∀ n olderThan, s.event ≠ .pruneNetwork n olderThan) :
    Onward b n me start m m' := by
  have hlive := h.effect he hevent
  have hfloor : ∀ v, start ≤ v → m'.floor n ≤ v := fun v hv => Nat.le_trans hlive.floor hv
  have hmoved : ∀ v, start ≤ v → v ≤ m.version n → PeersMoved m m' n v := fun v hlo hhi =>
    Effect.peers he h.inv hhi (hfloor v hlo)
  refine ⟨hlive, he.version_le, he.nextId_le, ?_, ?_, ?_, ?_, ?_, ?_⟩
  · intro x hx hlt
    rcases he.member_of hx with ⟨y, hy, hyx, _⟩ | hnew
    · exact ⟨y, hy, by rw [← hyx], by rw [← hyx]⟩
    · exact absurd hlt (Nat.not_lt.2 hnew)
  · intro v hlo hhi m₁ hex
    exact peersExplained_step he h.inv hhi (hfloor v hlo) hex
  · intro v hlo hhi r hr
    rcases (peersMoved_peersOf me (hmoved v hlo hhi) r).2 hr with hstill | hlog
    · exact .inl hstill
    · exact .inr (.inl hlog)
  · intro v hlo hhi k
    by_cases htouched : Touched m' n me v k
    · exact .inr htouched
    · -- No row came or went under a key the log does not name.
      refine .inl (lookup_peerTable_congr h.inv hlive.inv fun r hk => ?_)
      rcases peersMoved_peersOf me (hmoved v hlo hhi) r with ⟨hadd, hgone⟩
      constructor
      · intro hr
        rcases hadd hr with hold | hlog
        · exact hold
        · exact absurd (.inr ⟨r, hr, hk, hlog⟩) htouched
      · intro hr
        rcases hgone hr with hstill | hlog
        · exact hstill
        · exact absurd (.inl (hk ▸ hlog)) htouched
  · rintro v hlo hhi k (hlog | ⟨r, hr, hk, hlog⟩)
    · exact .inl (he.logged h.inv hlog (hfloor v hlo) nofun)
    · -- An upserted peer is still there, or its key has been removed since.
      rcases (peersMoved_peersOf me (hmoved v hlo hhi) r).2 hr with hstill | hrem
      · refine .inr ⟨r, hstill, hk, he.logged h.inv hlog (hfloor v hlo) fun id hid => ?_⟩
        cases hid
        exact ⟨r.membership, (mem_liveRows.1 (mem_netRows.1 (mem_peersOf.1 hstill).1).1).1, rfl⟩
      · exact .inl (hk ▸ hrem)
  · rintro v v' hlo hlo' hhi' k (hlog | ⟨r, hr, hk, hlog⟩)
    · rcases he.logged_new hevent hlog with hold | hnew
      · exact .inl (.inl hold)
      · exact .inr (.inl (hnew.mono hhi'))
    · rcases he.logged_new hevent hlog with hold | hnew
      · rcases (peersMoved_peersOf me (hmoved v' hlo' hhi') r).1 hr with hbefore | hnew
        · exact .inl (.inr ⟨r, hbefore, hk, hold⟩)
        · exact .inr (.inr ⟨r, hr, hk, hnew⟩)
      · exact .inr (.inr ⟨r, hr, hk, hnew.mono hhi'⟩)

theorem onward_apply (h : Live n me start m) (hs : isPrune s = false) :
    Onward b n me start m (apply c m s) := by
  refine onward_effect h (apply_effect h.inv.routes) fun n' olderThan hevent => ?_
  unfold isPrune at hs
  rw [hevent] at hs
  cases hs

end Step

section Chain

variable {m m₁ m₂ m₃ : Mesh} {n me : Id} {start : Nat} {b : Builder}

theorem Onward.refl (h : Live n me start m) : Onward b n me start m m where
  live := h
  version := Nat.le_refl _
  nextId := Nat.le_refl _
  old := fun x hx _ => ⟨x, hx, rfl, rfl⟩
  explained := fun _ _ _ _ hex => hex
  stays := fun _ _ _ _ hr => .inl hr
  moved := fun _ _ _ _ => .inl rfl
  kept := fun _ _ _ _ ht => ht
  fresh := fun _ _ _ _ _ _ ht => .inl ht

theorem Onward.trans (h : Onward b n me start m₁ m₂) (h' : Onward b n me start m₂ m₃) :
    Onward b n me start m₁ m₃ where
  live := h'.live
  version := Nat.le_trans h.version h'.version
  nextId := Nat.le_trans h.nextId h'.nextId
  old := fun x hx hlt => by
    rcases h'.old x hx (Nat.lt_of_lt_of_le hlt h.nextId) with ⟨y, hy, hid, hn⟩
    rcases h.old y hy (by rw [hid]; exact hlt) with ⟨z, hz, hzid, hzn⟩
    exact ⟨z, hz, hzid.trans hid, hzn.trans hn⟩
  explained := fun v hlo hhi m₀ hex =>
    h'.explained v hlo (Nat.le_trans hhi h.version) m₀ (h.explained v hlo hhi m₀ hex)
  stays := fun v hlo hhi r hr => by
    have hhi' := Nat.le_trans hhi h.version
    rcases h.stays v hlo hhi r hr with hr | ht
    · exact h'.stays v hlo hhi' r hr
    · exact .inr (h'.kept v hlo hhi' _ ht)
  moved := fun v hlo hhi k => by
    have hhi' := Nat.le_trans hhi h.version
    rcases h.moved v hlo hhi k with hsame | ht
    · rcases h'.moved v hlo hhi' k with hsame' | ht
      · exact .inl (hsame'.trans hsame)
      · exact .inr ht
    · exact .inr (h'.kept v hlo hhi' k ht)
  kept := fun v hlo hhi k ht =>
    h'.kept v hlo (Nat.le_trans hhi h.version) k (h.kept v hlo hhi k ht)
  fresh := fun v v' hlo hlo' hhi' k ht => by
    have hhi'' := Nat.le_trans hhi' h.version
    rcases h'.fresh v v' hlo hlo' hhi'' k ht with ht | ht
    · rcases h.fresh v v' hlo hlo' hhi' k ht with ht | ht
      · exact .inl ht
      · exact .inr (h'.kept v' hlo' hhi'' k ht)
    · exact .inr ht

end Chain

end Meshp.Session
