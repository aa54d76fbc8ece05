import Meshp.Session.Channel
import Meshp.Session.Mended

/-!
# An Agent at the Head Has the Peers of the Head

The label an agent carries and the peers it holds may disagree for a while. A
build reads some of its state later than its label; a delta that could not be
applied stays folded in under the label it was folded over; the server computes
from an acknowledgement that is out of date. None of it is lost: at every moment
the table is right about every key the log does not name above the label, and
whatever can still be accepted mends just those. Above the head the log names
nothing, so a label that says the head is telling the truth.
-/

namespace Meshp.Session

open Base (Behind Statements run)
open Base.Statements (Ensures)
open Store
open Wire.StateDelta (toVersion)

section Invariant

variable (b : Builder) (n me : Id) (start : Nat)

def Labelled (m : Mesh) (peers : Finmap fun _ : String => Wire.Peer) (v : Nat) : Prop :=
  v = 0 ∨ (Stands n start m v ∧
    Behind peers (peerTable b m.toTables n me) (Touched m n me v))

/-- What is known of a connection whose agent is at version `held`. -/
structure LinkSound (m : Mesh) (held : Nat) (l : Link) : Prop where
  applied : l.applied = 0 ∨ Stands n start m l.applied
  up : ∀ a ∈ l.up, a.appliedVersion = 0 ∨ Stands n start m a.appliedVersion
  down : ∀ d ∈ l.down, Good b n me start m d
  /-- Labels do not go back, from the agent's to the last one sent. -/
  order : (held :: l.down.map toVersion).Pairwise (· ≤ ·)
  building : ∀ p, l.building = some p → ∃ L i, L ≤ m.version n ∧
    (∀ v ∈ held :: l.down.map toVersion, v ≤ L) ∧
    Ensures (rely b n me start) (Sent b n me start L) i p m

structure Sound (ch : Channel) : Prop where
  live : Live n me start ch.mesh
  agent : Labelled b n me start ch.mesh ch.agent.peers ch.agent.version
  applying : ∀ v, ch.applying = some v → v ≤ ch.agent.version ∧
    Labelled b n me start ch.mesh ch.agent.peers v
  link : ∀ l, ch.link = some l → LinkSound b n me start ch.mesh ch.agent.version l

variable {b n me start}

variable {m m' : Mesh} {peers : Finmap fun _ : String => Wire.Peer} {v held : Nat} {l : Link}
  {ch : Channel} {d : Wire.StateDelta}

theorem Labelled.onward (h : Labelled b n me start m peers v) (ho : Onward b n me start m m') :
    Labelled b n me start m' peers v := by
  rcases h with h | ⟨hstands, hbehind⟩
  · exact .inl h
  · have hlo := hstands.1
    have hhi := hstands.2.1
    exact .inr ⟨hstands.onward ho, hbehind.step (ho.moved v hlo hhi) (ho.kept v hlo hhi)⟩

theorem LinkSound.onward (h : LinkSound b n me start m held l) (ho : Onward b n me start m m') :
    LinkSound b n me start m' held l where
  applied := h.applied.imp_right fun hs => hs.onward ho
  up := fun a ha => (h.up a ha).imp_right fun hs => hs.onward ho
  down := fun d hd => (h.down d hd).onward ho
  order := h.order
  building := fun p hp => by
    rcases h.building p hp with ⟨L, i, hL, hle, hens⟩
    exact ⟨L, i, Nat.le_trans hL ho.version, hle, hens.later (rely_trans i) fun _ => ho⟩

theorem sound_commit (h : Sound b n me start ch) (ho : Onward b n me start ch.mesh m') :
    Sound b n me start { ch with mesh := m' } where
  live := ho.live
  agent := h.agent.onward ho
  applying := fun v hv => ⟨(h.applying v hv).1, (h.applying v hv).2.onward ho⟩
  link := fun l hl => (h.link l hl).onward ho

theorem Labelled.known (h : Labelled b n me start m peers v) : v = 0 ∨ Stands n start m v :=
  h.imp_right And.left

theorem Labelled.le (h : Labelled b n me start m peers v) : v ≤ m.version n := by
  rcases h.known with rfl | hs
  · exact Nat.zero_le _
  · exact hs.2.1

theorem linkSound_fresh (h : Labelled b n me start m peers v) :
    LinkSound b n me start m v { applied := v } where
  applied := h.known
  up := nofun
  down := nofun
  order := List.pairwise_singleton _ _
  building := nofun

theorem LinkSound.notify (h : LinkSound b n me start m held l) (hlive : Live n me start m)
    (hheld : held ≤ m.version n) (walk : Walk) :
    LinkSound b n me start m held (l.notify b walk me) := by
  unfold Link.notify
  split
  · refine { h with building := fun p hp => ?_ }
    cases hp
    -- Every label sent so far is one the network has stood at.
    refine ⟨m.version n, 0, Nat.le_refl _, fun v hv => ?_, ensures_forReads_onward hlive h.applied⟩
    rcases List.mem_cons.1 hv with rfl | hv
    · exact hheld
    · rcases List.mem_map.1 hv with ⟨d, hd, rfl⟩
      exact (h.down d hd).stands.2.1
  · exact h

theorem LinkSound.read (h : LinkSound b n me start m held l) :
    LinkSound b n me start m held (l.read m) := by
  unfold Link.read
  split
  · rename_i next hnext
    refine { h with building := fun p hp => ?_ }
    cases hp
    rcases h.building _ hnext with ⟨L, i, hL, hle, hens⟩
    exact ⟨L, i + 1, hL, hle, hens.next (rely_refl i m)⟩
  · exact h

theorem LinkSound.push (h : LinkSound b n me start m held l) :
    LinkSound b n me start m held l.push := by
  unfold Link.push
  split
  · rename_i d hdone
    rcases h.building _ hdone with ⟨L, i, _, hle, hens⟩
    rcases hens.result (rely_refl i m) d rfl with ⟨hLd, hgood⟩
    refine ⟨h.applied, h.up, fun d' hd' => ?_, ?_, nofun⟩
    · rcases Base.mem_concat.1 hd' with hd' | rfl
      · exact h.down d' hd'
      · exact hgood
    · -- The new label is no lower than any before it.
      rw [List.map_append, ← List.cons_append]
      refine List.pairwise_append.2 ⟨h.order, List.pairwise_singleton _ _, fun v hv w hw => ?_⟩
      rw [List.mem_singleton.1 hw]
      exact Nat.le_trans (hle v hv) hLd
  · exact { h with building := nofun }
  · exact h

theorem LinkSound.ack {a : Ack} {rest : List Ack} (h : LinkSound b n me start m held l)
    (hup : l.up = a :: rest) :
    LinkSound b n me start m held (handleAck { l with up := rest } a) := by
  have hup' : ∀ a' ∈ rest, a'.appliedVersion = 0 ∨ Stands n start m a'.appliedVersion :=
    fun a' ha' => h.up a' (by rw [hup]; exact .tail _ ha')
  unfold handleAck
  split
  · exact { h with up := hup' }
  · refine { h with applied := ?_, up := hup' }
    exact h.up a (by rw [hup]; exact (.head _))

theorem LinkSound.said {held' : Nat} {a : Ack} (h : LinkSound b n me start m held l)
    (hle : held' ≤ held) (ha : a.appliedVersion = 0 ∨ Stands n start m a.appliedVersion) :
    LinkSound b n me start m held' { l with up := l.up ++ [a] } where
  applied := h.applied
  up := fun a' ha' => by
    rcases Base.mem_concat.1 ha' with ha' | rfl
    · exact h.up a' ha'
    · exact ha
  down := h.down
  order := by
    rcases List.pairwise_cons.1 h.order with ⟨hhead, htail⟩
    exact List.pairwise_cons.2 ⟨fun v hv => Nat.le_trans hle (hhead v hv), htail⟩
  building := fun p hp => by
    rcases h.building p hp with ⟨L, i, hL, hbound, hens⟩
    refine ⟨L, i, hL, fun v hv => ?_, hens⟩
    rcases List.mem_cons.1 hv with rfl | hv
    · exact Nat.le_trans hle (hbound held (.head _))
    · exact hbound v (.tail _ hv)

theorem LinkSound.took {held' : Nat} {rest : List Wire.StateDelta}
    (h : LinkSound b n me start m held l) (hdown : l.down = d :: rest)
    (hheld : held' = held ∨ held' = d.toVersion) :
    LinkSound b n me start m held' { l with down := rest } := by
  have horder := h.order
  rw [hdown, List.map_cons] at horder
  have hsub : (held' :: rest.map toVersion).Sublist
      (held :: d.toVersion :: rest.map toVersion) := by
    rcases hheld with rfl | rfl
    · exact (List.sublist_cons_self _ _).cons_cons _
    · exact List.sublist_cons_self _ _
  refine ⟨h.applied, h.up, fun d' hd' => h.down d' ?_, horder.sublist hsub, fun p hp => ?_⟩
  · rw [hdown]
    exact .tail _ hd'
  · rcases h.building p hp with ⟨L, i, hL, hbound, hens⟩
    rw [hdown, List.map_cons] at hbound
    exact ⟨L, i, hL, fun v hv => hbound v (hsub.subset hv), hens⟩

theorem Good.folded {s : Peerset.Set} (h : Good b n me start m d)
    (hs : Labelled b n me start m s.peers s.version)
    (haccept : ¬(d.fromVersion ≠ 0 ∧ d.fromVersion ≠ s.version)) :
    Behind (s.apply d).peers (peerTable b m.toTables n me) (Touched m n me d.toVersion) := by
  by_cases hsnap : d.fromVersion = 0
  · -- A snapshot is folded into nothing, which is wrong about every peer there is.
    have hpeers : (s.apply d).peers = Base.insertAll Wire.Peer.publicKey
        (Base.eraseAll ∅ d.removePeerKeys) d.upsertPeers := by
      unfold Peerset.Set.apply
      simp only [hsnap, if_true, Peerset.Set.clear]
    rw [hpeers]
    refine h.mends.fold fun k => ?_
    unfold wrongBefore
    rw [if_pos hsnap, Finmap.lookup_empty]
    cases (peerTable b m.toTables n me).lookup k with
    | none => exact .inl rfl
    | some p => exact .inr (by simp)
  · have hversion : d.fromVersion = s.version := by
      by_contra hne
      exact haccept ⟨hsnap, hne⟩
    rw [Peerset.peers_apply hsnap]
    refine h.mends.fold ?_
    rcases hs with hzero | ⟨_, hbehind⟩
    · exact absurd (hversion.trans hzero) hsnap
    · refine hbehind.mono fun k hk => ?_
      unfold wrongBefore
      rwa [if_neg hsnap, hversion]

theorem sound_deliver {rest : List Wire.StateDelta} (h : Sound b n me start ch)
    (hlink : ch.link = some l) (hdown : l.down = d :: rest) :
    Sound b n me start (handleState ch { l with down := rest } d) := by
  have hl := h.link l hlink
  have hgood := hl.down d (by rw [hdown]; exact (.head _))
  unfold handleState
  split
  · refine { h with link := fun l' hl' => ?_ }
    cases hl'
    exact (hl.took hdown (.inl rfl)).said (Nat.le_refl _) h.agent.known
  · rename_i haccept
    have hfolded := hgood.folded h.agent haccept
    have hle : ch.agent.version ≤ d.toVersion := by
      have horder := hl.order
      rw [hdown, List.map_cons] at horder
      exact (List.pairwise_cons.1 horder).1 _ (.head _)
    refine ⟨h.live, .inr ⟨hgood.stands, hfolded⟩, fun v hv => ?_, fun l' hl' => ?_⟩
    · -- Under the old label the table is wrong about no more than it was allowed.
      cases hv
      refine ⟨hle, h.agent.known.imp_right fun hs => ⟨hs, hfolded.mono fun k hk => hk.mono hle⟩⟩
    · cases hl'
      exact hl.took hdown (.inr rfl)

theorem sound_applied {previous : Nat} (h : Sound b n me start ch)
    (happlying : ch.applying = some previous) (unapplied : List String) (err : Option String) :
    Sound b n me start (applierReturned ch previous unapplied err) := by
  rcases h.applying previous happlying with ⟨hle, hprevious⟩
  unfold applierReturned
  cases err with
  | none =>
    refine ⟨h.live, h.agent, nofun, fun l' hl' => ?_⟩
    rcases Option.map_eq_some_iff.1 hl' with ⟨l, hl, rfl⟩
    exact (h.link l hl).said (Nat.le_refl _) h.agent.known
  | some e =>
    refine ⟨h.live, hprevious, nofun, fun l' hl' => ?_⟩
    rcases Option.map_eq_some_iff.1 hl' with ⟨l, hl, rfl⟩
    exact (h.link l hl).said hle hprevious.known

theorem sound_unlinked (h : Sound b n me start ch) : Sound b n me start { ch with link := none } :=
  { h with link := nofun }

theorem sound_connect (h : Sound b n me start ch) : Sound b n me start (ch.connect me) := by
  unfold Channel.connect
  split
  · exact sound_unlinked h
  · split
    · refine { h with link := fun l hl => ?_ }
      cases hl
      exact linkSound_fresh h.agent
    · exact sound_unlinked h

theorem sound_link {f : Link → Link} (h : Sound b n me start ch)
    (hf : ∀ l, LinkSound b n me start ch.mesh ch.agent.version l → LinkSound b n me start ch.mesh ch.agent.version (f l)) :
    Sound b n me start { ch with link := ch.link.map f } := by
  refine { h with link := fun l' hl' => ?_ }
  rcases Option.map_eq_some_iff.1 hl' with ⟨l, hl, rfl⟩
  exact hf l (h.link l hl)

theorem sound_move {c : Enroll.Checks} {mv : Move} (h : Sound b n me start ch)
    (hmv : ∀ s, mv = .commit s → isPrune s = false) : Sound b n me start (move c b me ch mv) := by
  cases mv with
  | commit s => exact sound_commit h (onward_apply h.live (hmv s rfl))
  | connect =>
    simp only [move]
    split
    · exact sound_connect h
    · exact h
  | disconnect => exact sound_unlinked h
  | restart => exact ⟨h.live, .inl rfl, nofun, nofun⟩
  | notify walk => exact sound_link h fun l hl => hl.notify h.live h.agent.le walk
  | read => exact sound_link h fun l hl => hl.read
  | push => exact sound_link h fun l hl => hl.push
  | deliver =>
    simp only [move]
    split
    · rename_i l _ hlink
      split
      · exact h
      · rename_i d rest hdown
        exact sound_deliver h hlink hdown
    · exact h
  | applied unapplied err =>
    simp only [move]
    split
    · exact h
    · rename_i previous happlying
      exact sound_applied h happlying unapplied err
  | ack =>
    simp only [move]
    split
    · exact h
    · rename_i l hlink
      split
      · exact h
      · rename_i a rest hup
        refine { h with link := fun l' hl' => ?_ }
        cases hl'
        exact (h.link l hlink).ack hup

theorem sound_run {c : Enroll.Checks} (h : Sound b n me start ch) (moves : List Move)
    (hmoves : ∀ s, .commit s ∈ moves → isPrune s = false) :
    Sound b n me start (run (move c b me) ch moves) := by
  have htrue : Base.Along (move c b me) (fun _ _ => True) ch moves := Base.along_true ch moves
  have hall := Base.along_and_mem (P := fun mv => ∀ s, mv = .commit s → isPrune s = false) ch moves
    htrue fun mv hmv s hs => hmoves s (hs ▸ hmv)
  exact Base.run_inv_along (Sound b n me start) (fun ch mv hch hmv => sound_move hch hmv.2) ch moves
    h hall

end Invariant

theorem sound_start {c : Enroll.Checks} {b : Builder} {ss : List Stamped} {x : Membership}
    (hx : x ∈ (history c ss).memberships) :
    Sound b x.networkId x.id ((history c ss).version x.networkId) { mesh := history c ss } := by
  have hinv := inv_history (c := c) ss
  refine ⟨⟨hinv, floor_le_version ss, Nat.le_refl _, hinv.members.memberBelow x hx,
    fun y hy hid => ?_⟩, .inl rfl, nofun, nofun⟩
  rw [hinv.member_eq hy hx hid]

/-- Through every interleaving of mutations with the channel of a membership, an agent whose version
is the network's head holds the peers of a snapshot at that head; and an active membership has one.
-/
theorem peers_eq_snapshot_at_head (c : Enroll.Checks) (b : Builder) (ss : List Stamped)
    (x : Membership) (hx : x ∈ (history c ss).memberships) (moves : List Move)
    (hmoves : ∀ s, .commit s ∈ moves → isPrune s = false) :
    let ch := run (move c b x.id) { mesh := history c ss } moves
    (∀ σ, b.snapshot ch.mesh x.id = .ok σ → ch.agent.version = ch.mesh.version x.networkId →
      ch.agent.peers = (({} : Peerset.Set).apply σ).peers) ∧
    ∀ y ∈ ch.mesh.memberships, y.id = x.id → y.state = .active →
      ∃ σ, b.snapshot ch.mesh x.id = .ok σ := by
  intro ch
  have hsound : Sound b x.networkId x.id ((history c ss).version x.networkId) ch :=
    sound_run (sound_start hx) moves hmoves
  have hinv := hsound.live.inv
  refine ⟨fun σ hσ hhead => ?_, fun y hy hid hact => ?_⟩
  · rcases snapshot_ok hσ with ⟨y, hy, hid, hof⟩
    have hn := hsound.live.own y hy hid
    rw [hof.peers, hn, hid]
    rcases hsound.agent with hzero | ⟨_, hbehind⟩
    · -- The network exists, so its head is not the version of an empty agent.
      have hpos := version_pos ss ((inv_history (c := c) ss).networks x hx)
      have := hsound.live.start
      omega
    · rw [hhead] at hbehind
      exact hbehind.eq fun k => not_touched_version hinv.logBounded
  · rw [← hid]
    exact snapshot_isOk hinv hy hact b

theorem peers_eq_snapshot_after_failure :
    let pushing (err : Option String) : List Move :=
      [.push, .deliver, .applied [] err, .ack]
    let moves : List Move := [.connect, .notify .inOrder] ++ List.replicate 7 .read ++
      pushing none ++ [.commit (joining 2 8), .notify .inOrder] ++ List.replicate 3 .read ++
      [.commit (joining 3 9)] ++ List.replicate 6 .read ++ pushing (some "busy") ++
      [.notify .inOrder] ++ List.replicate 9 .read ++ pushing none
    let ch := run (move trusting {} (founder []).id)
      { mesh := history trusting (founding [] ++ [joining 1 7]) } moves
    ∃ σ, Builder.snapshot {} ch.mesh (founder []).id = .ok σ ∧ ch.agent.version = ch.mesh.version (founder []).networkId ∧
      σ.upsertPeers.length = 2 ∧ ch.agent.peers = (({} : Peerset.Set).apply σ).peers := by
  intro pushing moves ch
  have hrun : founder [] ∈ (history trusting (founding [] ++ [joining 1 7])).memberships ∧
      ch.agent.version = ch.mesh.version (founder []).networkId ∧
      ∃ σ, Builder.snapshot {} ch.mesh (founder []).id = .ok σ ∧ σ.upsertPeers.length = 2 := by
    decide +kernel
  have hmoves : ∀ s, Move.commit s ∈ moves → isPrune s = false := by
    intro s hs
    simp [moves, pushing] at hs
    rcases hs with rfl | rfl
    · rfl
    · rfl
  rcases hrun with ⟨hx, hhead, σ, hσ, hlen⟩
  have hpeers := peers_eq_snapshot_at_head trusting {} (founding [] ++ [joining 1 7]) (founder [])
    hx moves hmoves
  with_reducible exact ⟨σ, hσ, hhead, hlen, hpeers.1 σ hσ hhead⟩

section CatchUp

variable {c : Enroll.Checks} {b : Builder} {x : Membership}

theorem run_reads (ch : Channel) (l : Link) (me : Id)
    (p : Statements Mesh (Except Failure Wire.StateDelta)) :
    ∃ k, run (move c b me) { ch with link := some { l with building := some p } }
        (List.replicate k .read) =
      { ch with link := some { l with building := some (.done (p.atOnce ch.mesh)) } } := by
  induction p with
  | done r => exact ⟨0, rfl⟩
  | read next ih =>
    rcases ih ch.mesh with ⟨k, hk⟩
    exact ⟨k + 1, hk⟩

theorem for_versions {m : Mesh} {F : Nat} {d : Wire.StateDelta} (hinv : m.Inv)
    (hx : x ∈ m.memberships) (h : b.for m x.id F = .ok d) :
    d.toVersion = m.version x.networkId ∧ ¬(d.fromVersion ≠ 0 ∧ d.fromVersion ≠ F) := by
  rcases sessionRow_isOk hinv hx with ⟨row, hrow, rfl⟩
  unfold Builder.for at h
  rw [hrow] at h
  rcases answer_ok hinv.logBounded hrow h with ⟨hto, hanswer⟩
  refine ⟨hto.trans (sessionRow_ok hrow).2.2.1, fun hne => ?_⟩
  rcases hanswer with hsnap | ⟨_, _, hsilent | hdelta⟩
  · rcases snapshot_ok hsnap.1 with ⟨_, _, _, hof⟩
    exact hne.1 hof.fromVersion
  · exact hne.2 hsilent.1.fromVersion
  · exact hne.2 hdelta.1.fromVersion

/-- The agent connects, is sent a state that took `k` reads, and applies it. -/
def exchange (k : Nat) : List Move :=
  [.applied [] none, .connect, .notify .inOrder] ++ List.replicate k .read ++
    [.push, .deliver, .applied [] none]

theorem run_exchange {ch : Channel} (hinv : ch.mesh.Inv) (hx : x ∈ ch.mesh.memberships)
    (hact : x.state = .active) :
    ∃ k, let ch' := run (move c b x.id) ch (exchange k)
      ch'.mesh = ch.mesh ∧ ch'.agent.version = ch.mesh.version x.networkId := by
  rcases for_isOk hinv hx hact b ch.agent.version with ⟨d, hd⟩
  rcases for_versions hinv hx hd with ⟨hto, hfrom⟩
  rcases sessionRow_isOk hinv hx with ⟨row, hrow, rfl⟩
  -- Whatever the applier was at, it returns, and the connection starts over.
  let fresh : Link := { applied := ch.agent.version }
  let p := b.forReads .inOrder row.membership.id ch.agent.version
  have hopened : run (move c b row.membership.id) ch [.applied [] none, .connect, .notify .inOrder] =
      ⟨ch.mesh, ch.agent, none, some { fresh with building := some p }⟩ := by
    rcases ch with ⟨m, agent, applying, link⟩
    cases applying with
    | none | some v => simp [run, move, applierReturned, Channel.connect, hrow, hact, Link.notify, p, fresh]
  rcases run_reads (c := c) (b := b) ⟨ch.mesh, ch.agent, none, none⟩ fresh row.membership.id p with
    ⟨k, hread⟩
  rw [atOnce_forReads, hd] at hread
  refine ⟨k, ?_⟩
  rw [exchange, Base.run_append, Base.run_append, hopened, hread]
  simp [run, move, Link.push, handleState, hfrom, applierReturned, hto, Peerset.Set.apply, fresh]

end CatchUp

/-- However far mutations and the channel of a membership have got, while it is active there is an
exchange, with nothing committed in it, after which its agent is at the head and holds the peers the
tables name and no others. -/
theorem catches_up (c : Enroll.Checks) (b : Builder) (ss : List Stamped) (x : Membership)
    (hx : x ∈ (history c ss).memberships) (moves : List Move)
    (hmoves : ∀ s, .commit s ∈ moves → isPrune s = false) :
    let ch := run (move c b x.id) { mesh := history c ss } moves
    ∀ y ∈ ch.mesh.memberships, y.id = x.id → y.state = .active →
      ∃ k, let agent := (run (move c b x.id) ch (exchange k)).agent
        agent.version = ch.mesh.version x.networkId ∧
        ∀ key p, agent.peers.lookup key = some p ↔
          ∃ r ∈ peersOf ch.mesh.toTables x.networkId x.id,
            r.key.publicKey = key ∧ peerFrom b.relayConfig r = p := by
  intro ch y hy hid hact
  have hsound : Sound b x.networkId x.id ((history c ss).version x.networkId) ch :=
    sound_run (sound_start hx) moves hmoves
  have hinv := hsound.live.inv
  rcases run_exchange (c := c) (b := b) hinv hy hact with ⟨k, hmesh, hversion⟩
  rw [hid] at hmesh hversion
  rw [hsound.live.own y hy hid] at hversion
  refine ⟨k, hversion, fun key p => ?_⟩
  rcases (sound_run (c := c) hsound (exchange k) (by simp [exchange])).agent with
    hzero | ⟨_, hbehind⟩
  · have hpos := version_pos ss ((inv_history (c := c) ss).networks x hx)
    have := hsound.live.start
    omega
  · rw [hversion, hmesh] at hbehind
    rw [hbehind.eq fun k => not_touched_version hinv.logBounded]
    exact lookup_peerTable hinv

theorem catches_up_after_join :
    let ch := run (move trusting {} (founder []).id)
      { mesh := history trusting (founding [] ++ [joining 1 7]) } [.connect, .commit (joining 2 8)]
    ∃ k, (run (move trusting {} (founder []).id) ch (exchange k)).agent.version =
      ch.mesh.version (founder []).networkId := by
  intro ch
  have hrun : founder [] ∈ (history trusting (founding [] ++ [joining 1 7])).memberships ∧
      founder [] ∈ ch.mesh.memberships ∧ (founder []).state = .active := by
    decide +kernel
  rcases catches_up trusting {} (founding [] ++ [joining 1 7]) (founder []) hrun.1
    [.connect, .commit (joining 2 8)] (by simp [joining, isPrune]) _ hrun.2.1 rfl hrun.2.2 with ⟨k, hk, _⟩
  exact ⟨k, hk⟩

end Meshp.Session
