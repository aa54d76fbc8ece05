import Meshp.Base.Mends
import Meshp.Relay.Link
import Meshp.Session.Answers

/-!
# Relays Named by Peers

A peer names the relay it is reached through, and the list of relays travels
beside the peers. The list is read from a registry on every build. It changes when
an operator drains a relay, which moves no version and touches no peer: an agent
at the head is told the new list and nothing else, and a delta tells it the new
list and the peers that changed.
-/

namespace Meshp.Session.Relaying

open Base (bind_eq_ok run Along insertAll eraseAll)
open Store

/-- The relays of a deployment, what its configuration names, and what an agent holds. -/
structure Deployment where
  relays : List Relay := []
  configured : Option Wire.RelayConfig := none
  held : Peerset.Set := {}
  /-- The relays that peers were given in what was sent since the last snapshot. -/
  handed : List String := []

/-- `UpsertRelayFromConfig`: where a relay is comes from configuration, and its state does not. -/
def upsertRelay (relays : List Relay) (slug : String) (endpoints : List String) : List Relay :=
  if relays.any (·.slug = slug) then
    relays.map fun r => if r.slug = slug then { r with endpoints } else r
  else relays ++ [⟨slug, endpoints, .active⟩]

def setRelayState (relays : List Relay) (slug : String) (state : RelayState) : List Relay :=
  relays.map fun r => if r.slug = slug then { r with state } else r

def listRelays (relays : List Relay) : List Relay :=
  relays.insertionSort (·.slug ≤ ·.slug)

def Deployment.builder (w : Deployment) (b : Builder) (readable : Bool) : Builder :=
  { b with
    registry := if readable then some (listRelays w.relays) else none
    relays := w.configured }

def names (d : Wire.StateDelta) : List String :=
  (d.upsertPeers.map (·.relayId)).filter (· ≠ "")

def Deployment.deliver (w : Deployment) (d : Wire.StateDelta) : Deployment :=
  { w with
    held := w.held.apply d
    handed := names d ++ if d.fromVersion = 0 then [] else w.handed }

inductive Move
  | upsertRelay (slug : String) (endpoints : List String)
  /-- `DeleteRelaysNotIn`. -/
  | deleteRelaysNotIn (slugs : List String)
  /-- A control plane is started with what configuration names. -/
  | configure (relays : Option Wire.RelayConfig)
  | setRelayState (slug : String) (state : RelayState)
  /-- The agent is sent what a mesh answers to the version it has applied. -/
  | push (b : Builder) (readable : Bool) (m : Mesh) (id : Id) (fromVersion : Nat)

def syncRelaysFromConfig (relays : List Wire.Relay) : List Move :=
  relays.map (fun r => .upsertRelay r.id r.endpoints) ++ [.deleteRelaysNotIn (relays.map (·.id))]

def step (w : Deployment) : Move → Deployment
  | .upsertRelay slug endpoints => { w with relays := upsertRelay w.relays slug endpoints }
  | .deleteRelaysNotIn slugs => { w with relays := w.relays.filter (·.slug ∈ slugs) }
  | .configure relays => { w with configured := relays }
  | .setRelayState slug state => { w with relays := setRelayState w.relays slug state }
  | .push b readable m id fromVersion =>
    match (w.builder b readable).for m id fromVersion with
    | .ok d => w.deliver d
    | .error _ => w

def listed (cfg : Option Wire.RelayConfig) : List String :=
  ((cfg.map (·.relays)).getD []).map (·.id)

/-- Whether `For` answers with the whole world, by the rules it chooses by. -/
def whole (m : Mesh) (row : SessionRow) (fromVersion : Nat) : Bool :=
  let head := row.network.stateVersion
  let changes := (changesSince m row.membership.networkId fromVersion head).length
  let peers := (peersOf m.toTables row.membership.networkId row.membership.id).length
  decide (fromVersion = 0 ∨ head < fromVersion ∨ fromVersion < row.network.oldestDeltaVersion ∨
    (fromVersion ≠ head ∧ changes ≠ 0 ∧ peers < changes))

/-- Every peer of a message names the relay its list prefers, and a message without a list either
comes of a deployment without relays or has no peers. -/
structure Says (b : Builder) (d : Wire.StateDelta) : Prop where
  peers : ∀ p ∈ d.upsertPeers, p.relayId ≠ "" → p.relayId ∈ listed b.relayConfig
  relays : d.relays = b.relayConfig ∨ (d.relays = none ∧ d.upsertPeers = [])

theorem peerFrom_listed (relays : Option Wire.RelayConfig) (r : LiveRow)
    (h : (peerFrom relays r).relayId ≠ "") : (peerFrom relays r).relayId ∈ listed relays := by
  unfold peerFrom preferredRelay at h ⊢
  cases relays with
  | none => exact absurd rfl h
  | some cfg =>
    cases hr : cfg.relays with
    | nil => simp [hr] at h
    | cons first rest => simp [listed, hr]

variable {b : Builder} {d : Wire.StateDelta}

theorem says_snapshot {t : Tables} {row : SessionRow} {peers : List LiveRow}
    (h : snapshotFromPeers b t row peers = .ok d) :
    d.fromVersion = 0 ∧ d.relays = b.relayConfig ∧ Says b d := by
  unfold snapshotFromPeers at h
  rcases bind_eq_ok.1 h with ⟨filter, -, h⟩
  cases h
  refine ⟨rfl, rfl, ⟨fun p hp => ?_, .inl rfl⟩⟩
  rcases List.mem_map.1 hp with ⟨r, -, rfl⟩
  exact peerFrom_listed _ r

theorem says_delta {m : Mesh} {row : SessionRow} {F : Nat} (h : delta b m row F = .ok d) :
    d.fromVersion = F ∧ Says b d := by
  unfold delta at h
  rcases bind_eq_ok.1 h with ⟨filter, -, h⟩
  cases h
  refine ⟨rfl, ⟨fun p hp => ?_, .inl rfl⟩⟩
  rw [List.mem_insertionSort] at hp
  rcases List.mem_map.1 hp with ⟨r, -, rfl⟩
  exact peerFrom_listed _ r

theorem relays_for {m : Mesh} {id : Id} {F : Nat} (h : b.for m id F = .ok d) :
    ∃ row, sessionRow m id = .ok row ∧ Says b d ∧
      ((d.fromVersion = 0 ∧ d.relays = b.relayConfig) ∨
        (d.fromVersion ≠ 0 ∧ whole m row F = false)) := by
  rcases bind_eq_ok.1 h with ⟨row, hrow, hd⟩
  refine ⟨row, hrow, ?_⟩
  unfold answer at hd
  split at hd
  · obtain ⟨hzero, hrelays, htold⟩ := says_snapshot hd
    exact ⟨htold, .inl ⟨hzero, hrelays⟩⟩
  rename_i hwindow
  push Not at hwindow
  obtain ⟨hF, hhead, hfloor⟩ := hwindow
  -- Within the window, what remains is whether there is more to say than in a snapshot.
  unfold whole
  simp only [decide_eq_false_iff_not]
  split at hd
  · rename_i heq
    cases hd
    refine ⟨⟨fun p hp => (List.not_mem_nil hp).elim, .inl rfl⟩, .inr ⟨hF, ?_⟩⟩
    omega
  · rename_i hne
    unfold changeFrom at hd
    simp only at hd
    split at hd
    · cases hd
      refine ⟨⟨fun p hp => (List.not_mem_nil hp).elim, .inr ⟨rfl, rfl⟩⟩, .inr ⟨hF, ?_⟩⟩
      omega
    · split at hd
      · obtain ⟨hzero, hrelays, htold⟩ := says_snapshot hd
        exact ⟨htold, .inl ⟨hzero, hrelays⟩⟩
      · obtain ⟨hfrom, htold⟩ := says_delta hd
        refine ⟨htold, .inr ⟨hfrom ▸ hF, ?_⟩⟩
        omega

def Named (s : Peerset.Set) : Prop :=
  ∀ key, ∀ p ∈ s.peers.lookup key, p.relayId ≠ "" → p.relayId ∈ listed s.relays

def Kept (w : Deployment) : Move → Prop
  | .push b readable m id fromVersion =>
    ∀ row ∈ (sessionRow m id).toOption, whole m row fromVersion = false →
      ∀ cfg ∈ (w.builder b readable).relayConfig, ∀ r ∈ w.handed, r ∈ listed (some cfg)
  | .upsertRelay _ _ | .deleteRelaysNotIn _ | .configure _ | .setRelayState _ _ => True

instance (w : Deployment) : ∀ mv, Decidable (Kept w mv)
  | .push b readable m id fromVersion =>
    inferInstanceAs (Decidable (∀ row ∈ (sessionRow m id).toOption,
      whole m row fromVersion = false → ∀ cfg ∈ (w.builder b readable).relayConfig,
        ∀ r ∈ w.handed, r ∈ listed (some cfg)))
  | .upsertRelay _ _ | .deleteRelaysNotIn _ | .configure _ | .setRelayState _ _ =>
    inferInstanceAs (Decidable True)

structure Sound (w : Deployment) : Prop where
  peers : ∀ key, ∀ p ∈ w.held.peers.lookup key, p.relayId ≠ "" → p.relayId ∈ w.handed
  handed : ∀ r ∈ w.handed, r ∈ listed w.held.relays

theorem Sound.named {w : Deployment} (hw : Sound w) : Named w.held :=
  fun key p hp hne => hw.handed _ (hw.peers key p hp hne)

theorem mem_lookup_apply {s : Peerset.Set} {key : String} {p : Wire.Peer}
    (h : p ∈ (s.apply d).peers.lookup key) :
    p ∈ d.upsertPeers ∨ (d.fromVersion ≠ 0 ∧ p ∈ s.peers.lookup key) := by
  have hpeers : (s.apply d).peers = insertAll Wire.Peer.publicKey
      (eraseAll (if d.fromVersion = 0 then s.clear else s).peers d.removePeerKeys)
      d.upsertPeers := rfl
  rw [hpeers] at h
  by_cases hin : ∃ v ∈ d.upsertPeers, v.publicKey = key
  · obtain ⟨v, hv, -, hlook⟩ := Base.lookup_insertAll_written hin
    rw [hlook] at h
    exact .inl (Option.some.inj h ▸ hv)
  · push Not at hin
    rw [Base.lookup_insertAll_of_notMem _ hin, Base.lookup_eraseAll] at h
    refine .inr ?_
    by_cases hzero : d.fromVersion = 0
    · simp [hzero, Peerset.Set.clear] at h
    · rw [if_neg hzero] at h
      split at h
      · simp at h
      · exact ⟨hzero, h⟩

theorem mem_names {p : Wire.Peer} (hp : p ∈ d.upsertPeers) (hne : p.relayId ≠ "") :
    p.relayId ∈ names d :=
  List.mem_filter.2 ⟨List.mem_map_of_mem hp, by simpa using hne⟩

theorem names_listed (htold : Says b d) (s : Peerset.Set) {r : String} (hr : r ∈ names d) :
    r ∈ listed (s.apply d).relays := by
  obtain ⟨hr, hne⟩ := List.mem_filter.1 hr
  obtain ⟨p, hp, rfl⟩ := List.mem_map.1 hr
  have hlisted : p.relayId ∈ listed b.relayConfig := htold.peers p hp (by simpa using hne)
  rcases htold.relays with hrelays | ⟨-, hnone⟩
  · cases hcfg : b.relayConfig with
    | none => simp [hcfg, listed] at hlisted
    | some cfg =>
      rw [hcfg] at hlisted hrelays
      change _ ∈ listed (d.relays <|> _)
      rw [hrelays]
      exact hlisted
  · simp [hnone] at hp

theorem sound_deliver {w : Deployment} (hw : Sound w) (htold : Says b d)
    (hkept : d.fromVersion ≠ 0 → ∀ cfg, b.relayConfig = some cfg → ∀ r ∈ w.handed, r ∈ listed (some cfg)) :
    Sound (w.deliver d) := by
  refine ⟨fun key p hp hne => ?_, fun r hr => ?_⟩
  · rcases mem_lookup_apply hp with hp | ⟨hzero, hp⟩
    · exact List.mem_append_left _ (mem_names hp hne)
    · refine List.mem_append_right _ ?_
      rw [if_neg hzero]
      exact hw.peers key p hp hne
  · rcases List.mem_append.1 hr with hr | hr
    · exact names_listed htold w.held hr
    · by_cases hzero : d.fromVersion = 0
      · simp [hzero] at hr
      · rw [if_neg hzero] at hr
        -- The list is replaced by one that keeps what was handed out, or stays.
        have hheld : (w.deliver d).held.relays = (d.relays <|> w.held.relays) := by
          simp only [Deployment.deliver, Peerset.Set.apply, if_neg hzero]
        rw [hheld]
        cases hrelays : d.relays with
        | none => exact hw.handed r hr
        | some cfg =>
          rcases htold.relays with h | h
          · exact hkept hzero cfg (h.symm.trans hrelays) r hr
          · simp [hrelays] at h

theorem sound_step (w : Deployment) (mv : Move) (hw : Sound w) (hkept : Kept w mv) :
    Sound (step w mv) := by
  cases mv with
  | push b readable m id F =>
    cases hd : (w.builder b readable).for m id F with
    | error e =>
      simp only [step, hd]
      exact hw
    | ok d =>
      simp only [step, hd]
      obtain ⟨row, hrow, htold, hfrom⟩ := relays_for hd
      refine sound_deliver hw htold fun hzero => ?_
      rcases hfrom with h | h
      · exact absurd h.1 hzero
      · exact hkept row (by simp [hrow, Except.toOption]) h.2
  | upsertRelay | deleteRelaysNotIn | configure | setRelayState => exact ⟨hw.peers, hw.handed⟩

/-- In a run in which no relay is taken off the list under the peers that have been given it, every
relay a peer names is in the list the agent holds. -/
theorem named_run (w : Deployment) (hfresh : w.held = {}) (hhanded : w.handed = [])
    (moves : List Move) (hkept : Along step Kept w moves) : Named (run step w moves).held := by
  have hstart : Sound w := by
    refine ⟨fun key p hp => ?_, fun r hr => ?_⟩
    · simp [hfresh] at hp
    · simp [hhanded] at hr
  exact (Base.run_inv_along Sound sound_step w moves hstart hkept).named

def pair : Mesh := history trusting (founding [] ++ [joining 1 7, joining 2 8])

def pushing (fromVersion : Nat) : Move :=
  .push {} true pair (founder []).id fromVersion

def connected : List Move :=
  syncRelaysFromConfig [⟨"ams", ["ams:3478"]⟩, ⟨"fra", ["fra:3478"]⟩] ++ [pushing 0]

theorem named_reconnected :
    let moves := connected ++ [.setRelayState "fra" .draining, pushing (pair.version 2),
      .setRelayState "fra" .active, .setRelayState "ams" .draining, pushing 0]
    Along step Kept {} moves ∧ Named (run step {} moves).held ∧
      (run step {} moves).held.peers.lookup (Keys.keyText (List.replicate 32 8)) ≠ none :=
  ⟨by decide +kernel, named_run {} rfl rfl _ (by decide +kernel), by decide +kernel⟩

/-- A relay is drained while another is active and the device at the head. Its peer goes on naming
the relay that is no longer in the list, and the link that serves the list has no address for it. -/
theorem named_by_nobody :
    let w := run step {} (connected ++ [.setRelayState "ams" .draining, pushing (pair.version 2)])
    let link := (({} : Relaylink.Link).setRelays (w.held.relays.map fun c => { c with })).1
    let peer := w.held.peers.lookup (Keys.keyText (List.replicate 32 8))
    ¬ Named w.held ∧ peer.map (·.relayId) = some "ams" ∧ listed w.held.relays = ["fra"] ∧
      link.endpoint "ams" = .error (.notAttached "ams") ∧
      (w.relays.any fun r => r.slug = "fra" ∧ r.state = .active) = true := by
  intro w link peer
  refine (and_iff_right_of_imp fun hrun h => ?_).2 (by decide +kernel)
  obtain ⟨p, hp, hid⟩ := Option.map_eq_some_iff.1 hrun.1
  have hlisted := h _ p hp (by rw [hid]; decide)
  rw [hid, hrun.2.1] at hlisted
  exact absurd hlisted (by decide)

end Meshp.Session.Relaying
