import Meshp.Base.Rows
import Meshp.Netip.Range
import Meshp.Wgplan.Plan

/-!
# What a Valid Interface Is

`validate` walks the peers once, with the keys it has seen and the prefixes that
were claimed, and then the pairs of claims. `Interface.Valid` says the same about
the interface as a whole, without an order: keys and prefixes are listed once, and
no two peers contest an address.
-/

namespace Meshp.Wgplan

open Base (refuseIf_eq_ok refuseIf_bind_eq_ok bind_eq_ok forM_eq_ok)
open Netip (Prefix)

def claims (peers : List Peer) : List (Prefix × Key) :=
  peers.flatMap fun peer => peer.allowedIPs.map (·, peer.publicKey)

structure Peer.Sound (i : Interface) (peer : Peer) : Prop where
  keyed : peer.publicKey ≠ ""
  /-- A relayed peer points at a socket of this host, and no other peer does. -/
  relayed : peer.relayed = isLoopback peer.endpoint
  allowed : peer.allowedIPs ≠ []
  foreign : ∀ p ∈ peer.allowedIPs,
    ¬((∃ own ∈ i.addresses, own.addr = p.addr) ∧ p.bits = p.addr.bitLen)

structure Interface.Valid (i : Interface) : Prop where
  named : i.name ≠ ""
  keyed : i.privateKey ≠ ""
  mtu : 0 < i.mtu
  addressed : i.addresses ≠ []
  hosts : ∀ a ∈ i.addresses, a.bits = a.addr.bitLen
  sound : ∀ peer ∈ i.peers, peer.Sound i
  /-- No key is listed twice. -/
  keys : (i.peers.map Peer.publicKey).Nodup
  /-- No prefix is listed twice, for one peer or for two. -/
  once : ((claims i.peers).map Prod.fst).Nodup
  apart : (claims i.peers).Pairwise fun a b => ¬Contested a b

theorem contested_comm {a b : Prefix × Key} (h : Contested a b) : Contested b a :=
  ⟨h.1.symm, h.2.1.symm, (Netip.Prefix.overlaps_comm b.1 a.1).trans h.2.2⟩

theorem lookup_eq_none_iff {claimed : List (Prefix × Key)} {p : Prefix} :
    claimed.lookup p = none ↔ p ∉ claimed.map Prod.fst := by
  induction claimed with
  | nil => simp
  | cons c rest ih =>
    rcases c with ⟨q, key⟩
    by_cases hp : p = q
    · simp [hp]
    · have hbeq : (p == q) = false := beq_false_of_ne hp
      simp only [List.lookup_cons, hbeq, ih, List.map_cons, List.mem_cons, hp, false_or]

theorem relayed_iff (peer : Peer) :
    peer.relayed = isLoopback peer.endpoint ↔
      ¬(peer.relayed = true ∧ peer.endpoint = "") ∧
      ¬(peer.relayed = true ∧ isLoopback peer.endpoint = false) ∧
      ¬(peer.relayed = false ∧ isLoopback peer.endpoint = true) := by
  have hempty : peer.endpoint = "" → isLoopback peer.endpoint = false := by
    intro h
    rw [h]
    rfl
  cases hr : peer.relayed <;> cases hl : isLoopback peer.endpoint
  · simp
  · simp
  · simp
  · have hsome : peer.endpoint ≠ "" := fun h => by
      rw [hempty h] at hl
      cases hl
    simp [hsome]

theorem claim_eq_ok_iff (i : Interface) (peer : Peer) (claimed out : List (Prefix × Key))
    (ps : List Prefix) (hclaimed : (claimed.map Prod.fst).Nodup) :
    claim i peer claimed ps = .ok out ↔
      (∀ p ∈ ps, ¬((∃ own ∈ i.addresses, own.addr = p.addr) ∧ p.bits = p.addr.bitLen)) ∧
      (claimed.map Prod.fst ++ ps).Nodup ∧ out = claimed ++ ps.map (·, peer.publicKey) := by
  induction ps generalizing claimed with
  | nil =>
    simp only [claim, Except.ok.injEq, List.append_nil, List.map_nil]
    constructor
    · rintro rfl
      exact ⟨nofun, hclaimed, rfl⟩
    · rintro ⟨_, _, h⟩
      exact h.symm
  | cons p ps ih =>
    have hsplit : claimed.map Prod.fst ++ p :: ps =
        (claimed ++ [(p, peer.publicKey)]).map Prod.fst ++ ps := by simp
    rw [claim, refuseIf_bind_eq_ok, List.forall_mem_cons, and_assoc]
    refine and_congr_right fun _ => ?_
    cases hlook : claimed.lookup p with
    | some other =>
      -- It was claimed, so it would be listed twice.
      have hmem : p ∈ claimed.map Prod.fst := by
        by_contra hp
        rw [lookup_eq_none_iff.2 hp] at hlook
        cases hlook
      refine ⟨nofun, fun h => ?_⟩
      exact absurd rfl ((List.nodup_append.1 h.2.1).2.2 p hmem p (.head _))
    | none =>
      have hnew : p ∉ claimed.map Prod.fst := lookup_eq_none_iff.1 hlook
      have hnodup : ((claimed ++ [(p, peer.publicKey)]).map Prod.fst).Nodup :=
        Base.nodup_map_concat hclaimed fun c hc hcp =>
          hnew (List.mem_map.2 ⟨c, hc, hcp⟩)
      simp only
      rw [ih _ hnodup, ← hsplit, List.map_cons, List.append_assoc, List.singleton_append]

theorem checkPeers_eq_ok_iff (i : Interface) (seen : List Key) (claimed out : List (Prefix × Key))
    (peers : List Peer) (hseen : seen.Nodup) (hclaimed : (claimed.map Prod.fst).Nodup) :
    checkPeers i seen claimed peers = .ok out ↔
      (∀ peer ∈ peers, peer.Sound i) ∧ (seen ++ peers.map Peer.publicKey).Nodup ∧
      ((claimed ++ claims peers).map Prod.fst).Nodup ∧ out = claimed ++ claims peers := by
  induction peers generalizing seen claimed with
  | nil =>
    simp only [checkPeers, Except.ok.injEq, claims, List.flatMap_nil, List.append_nil,
      List.map_nil]
    constructor
    · rintro rfl
      exact ⟨nofun, hseen, hclaimed, rfl⟩
    · rintro ⟨_, _, _, h⟩
      exact h.symm
  | cons peer rest ih =>
    have hkeys : seen ++ (peer :: rest).map Peer.publicKey =
        (seen ++ [peer.publicKey]) ++ rest.map Peer.publicKey := by simp
    have hclaims : claimed ++ claims (peer :: rest) =
        (claimed ++ peer.allowedIPs.map (·, peer.publicKey)) ++ claims rest := by
      simp [claims]
    have hfst : (claimed ++ peer.allowedIPs.map (·, peer.publicKey)).map Prod.fst =
        claimed.map Prod.fst ++ peer.allowedIPs := by
      simp [Function.comp_def]
    simp only [checkPeers]
    rw [hkeys, hclaims, List.forall_mem_cons]
    simp only [refuseIf_bind_eq_ok]
    rw [bind_eq_ok]
    simp only [claim_eq_ok_iff i peer claimed _ _ hclaimed]
    constructor
    · rintro ⟨hkey, hunseen, hpoint, hserved, hdirect, hallowed, _, ⟨hforeign, honce, rfl⟩, hrest⟩
      have hseen' : (seen ++ [peer.publicKey]).Nodup := by
        simpa using List.Nodup.concat hunseen hseen
      rw [← hfst] at honce
      rcases (ih _ _ hseen' honce).1 hrest with ⟨hsound, hnodup, honce', hout⟩
      have hrelayed := (relayed_iff peer).2 ⟨hpoint, hserved, hdirect⟩
      exact ⟨⟨⟨hkey, hrelayed, hallowed, hforeign⟩, hsound⟩, hnodup, honce', hout⟩
    · rintro ⟨⟨hpeer, hsound⟩, hnodup, honce, hout⟩
      rcases (relayed_iff peer).1 hpeer.relayed with ⟨hpoint, hserved, hdirect⟩
      have hseen' : (seen ++ [peer.publicKey]).Nodup := (List.nodup_append.1 hnodup).1
      have hunseen : peer.publicKey ∉ seen := fun hmem =>
        (List.nodup_append.1 hseen').2.2 _ hmem _ (.head _) rfl
      have honce' := honce
      rw [List.map_append] at honce'
      have honce' := (List.nodup_append.1 honce').1
      refine ⟨hpeer.keyed, hunseen, hpoint, hserved, hdirect, hpeer.allowed, _,
        ⟨hpeer.foreign, hfst ▸ honce', rfl⟩, ?_⟩
      exact (ih _ _ hseen' honce').2 ⟨hsound, hnodup, honce, hout⟩

theorem checkOverlaps_eq_ok_iff (i : Interface) (l : List (Prefix × Key)) :
    checkOverlaps i l = .ok () ↔ l.Pairwise fun a b => ¬Contested a b := by
  induction l with
  | nil => simp [checkOverlaps]
  | cons a rest ih =>
    rw [checkOverlaps, bind_eq_ok, List.pairwise_cons]
    simp only [forM_eq_ok, refuseIf_eq_ok, ih]
    exact ⟨fun ⟨_, h⟩ => h, fun h => ⟨(), h⟩⟩

theorem validate_eq_ok_iff (i : Interface) : i.validate = .ok () ↔ i.Valid := by
  have hpairs : ∀ l : List (Prefix × Key),
      checkOverlaps i (l.insertionSort fun a b => a.1.text ≤ b.1.text) = .ok () ↔
        l.Pairwise fun a b => ¬Contested a b := by
    intro l
    rw [checkOverlaps_eq_ok_iff]
    exact (List.perm_insertionSort _ l).pairwise_iff fun h hba => h (contested_comm hba)
  unfold Interface.validate
  simp only [refuseIf_bind_eq_ok]
  rw [bind_eq_ok]
  simp only [bind_eq_ok, forM_eq_ok, refuseIf_eq_ok, hpairs,
    checkPeers_eq_ok_iff i [] [] _ _ List.nodup_nil List.nodup_nil, List.nil_append]
  constructor
  · rintro ⟨hname, hkey, hmtu, haddr, _, hhosts, _, ⟨hsound, hkeys, honce, rfl⟩, hapart⟩
    exact ⟨hname, hkey, by omega, haddr, fun a ha => not_not.1 (hhosts a ha), hsound, hkeys, honce,
      hapart⟩
  · intro h
    have hmtu := h.mtu
    exact ⟨h.named, h.keyed, by omega, h.addressed, (), fun a ha => not_not.2 (h.hosts a ha), _,
      ⟨h.sound, h.keys, h.once, rfl⟩, h.apart⟩

theorem valid_of_planFor {want : Interface} {observed : Observed} {ops : List Op}
    (h : planFor want observed = .ok ops) : want.Valid := by
  obtain ⟨_, hvalid, _⟩ := bind_eq_ok.1 h
  exact (validate_eq_ok_iff want).1 hvalid

theorem destroyDevice_not_mem {want : Interface} {observed : Observed} {ops : List Op}
    (h : planFor want observed = .ok ops) : Op.destroyDevice ∉ ops := by
  obtain ⟨_, _, hops⟩ := bind_eq_ok.1 h
  cases hops
  have hpeer : ∀ have' want, Op.destroyDevice ∉ peerOps have' want := by
    intro have' want
    unfold peerOps
    split
    · simp
    · split
      · simp
      · split <;> simp
  simp only [operations, deviceOps, peersOps, prefixOps, List.mem_append, not_or]
  refine ⟨⟨⟨⟨⟨?_, ?_⟩, ?_, ?_⟩, ?_⟩, ?_⟩, ?_⟩ <;> try (simp; done)
  -- What is left is what is done about the wanted peers.
  simp only [List.mem_flatMap, not_exists, not_and]
  intro key _
  cases indexPeers want.peers key with
  | none => simp
  | some peer => exact hpeer _ peer

end Meshp.Wgplan
