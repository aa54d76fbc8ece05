import Meshp.Netip.RoundTrip
import Meshp.Wgplan.Kernel
import Meshp.Wgplan.Valid

/-!
# A Plan Arrives, and Is Then Empty

Executing a plan on the kernel leaves the interface that was wanted, and planning
against what is then reported leaves nothing to do.
-/

namespace Meshp

open Wgplan.KernelPeer (configured without without_eq_self without_nil)

namespace Netip

theorem Prefix.text_injective {p q : Prefix} (h : p.text = q.text) : p = q := by
  have hp := parsePrefix_text p
  rw [h, parsePrefix_text q] at hp
  exact (Option.some.inj hp).symm

end Netip

namespace Wgplan

open Base (run)
open Netip (Prefix)

theorem mem_sortPrefixes {ps : List Prefix} {p : Prefix} : p ∈ sortPrefixes ps ↔ p ∈ ps := by
  unfold sortPrefixes
  rw [List.mem_insertionSort, List.mem_dedup]

theorem sortPrefixes_eq_iff {a b : List Prefix} :
    sortPrefixes a = sortPrefixes b ↔ ∀ p, p ∈ a ↔ p ∈ b := by
  constructor
  · intro h p
    rw [← mem_sortPrefixes, h, mem_sortPrefixes]
  · intro h
    have hperm : a.dedup.Perm b.dedup :=
      (List.perm_ext_iff_of_nodup a.nodup_dedup b.nodup_dedup).2 fun p => by
        rw [List.mem_dedup, List.mem_dedup, h]
    have hle : ∀ p q : Prefix, p.text ≤ q.text ↔ p.text ≤ q.text := fun _ _ => Iff.rfl
    exact Base.sort_eq_of_perm hle hperm fun p _ q _ hpq => Prefix.text_injective hpq

theorem sameApartFromEndpoint_iff {have' want : Peer} :
    sameApartFromEndpoint have' want = true ↔
      have'.presharedKey = want.presharedKey ∧ have'.keepaliveSeconds = want.keepaliveSeconds ∧
        ∀ p, p ∈ have'.allowedIPs ↔ p ∈ want.allowedIPs := by
  unfold sameApartFromEndpoint
  rw [Bool.and_eq_true, Bool.and_eq_true, decide_eq_true_eq, decide_eq_true_eq, decide_eq_true_eq,
    sortPrefixes_eq_iff, and_assoc]

theorem peerOps_eq_nil_iff {current want : Peer} :
    peerOps (some current) want = [] ↔
      ¬(isLoopback current.endpoint = true ∧ want.relayed = false ∧ want.endpoint = "") ∧
      sameApartFromEndpoint current want = true ∧
      (keepObservedEndpoint current want = true ∨ current.endpoint = want.endpoint) := by
  have hloop : (isLoopback current.endpoint && !want.relayed && decide (want.endpoint = "")) =
      true ↔ isLoopback current.endpoint = true ∧ want.relayed = false ∧ want.endpoint = "" := by
    simp [and_assoc]
  have hwrite : (resolvePeer current want).1 = true ↔ ¬(sameApartFromEndpoint current want = true ∧
      (keepObservedEndpoint current want = true ∨ current.endpoint = want.endpoint)) := by
    simp only [resolvePeer]
    cases sameApartFromEndpoint current want <;> cases keepObservedEndpoint current want <;> simp
  simp only [peerOps]
  by_cases h : isLoopback current.endpoint = true ∧ want.relayed = false ∧ want.endpoint = ""
  · rw [if_pos (hloop.2 h)]
    exact ⟨nofun, fun hnot => absurd h hnot.1⟩
  · rw [if_neg (hloop.not.2 h)]
    by_cases hw : (resolvePeer current want).1 = true
    · rw [if_pos hw]
      exact ⟨nofun, fun hnot => absurd hnot.2 (hwrite.1 hw)⟩
    · rw [if_neg hw]
      exact ⟨fun _ => ⟨h, not_not.1 (hwrite.not.1 hw)⟩, fun _ => rfl⟩

def Settled (want : Peer) (p : KernelPeer) : Prop :=
  peerOps (some p.reported) want = []

theorem keepObservedEndpoint_congr {a b want : Peer} (hend : a.endpoint = b.endpoint)
    (hhas : a.hasHandshake = b.hasHandshake) (hage : a.handshakeAge = b.handshakeAge) :
    keepObservedEndpoint a want = keepObservedEndpoint b want := by
  unfold keepObservedEndpoint
  rw [hend, hhas, hage]

theorem not_loopback_of_keep {current want : Peer} (h : keepObservedEndpoint current want = true) :
    isLoopback current.endpoint = false := by
  unfold keepObservedEndpoint at h
  split at h
  · cases h
  · split at h
    · cases h
    · rename_i hloop
      simpa using hloop

theorem same_configured {want : Peer} (hmasked : ∀ x ∈ want.allowedIPs, x.masked = x)
    (old : Option KernelPeer) (endpoint : String) :
    sameApartFromEndpoint (configured old { want with endpoint }).reported want = true := by
  rw [sameApartFromEndpoint_iff]
  refine ⟨rfl, rfl, fun x => ?_⟩
  have hmap : want.allowedIPs.map Prefix.masked = want.allowedIPs := by
    rw [List.map_congr_left hmasked, List.map_id']
  simp only [KernelPeer.reported, configured, hmap]

section Written

variable {i : Interface} {want : Peer} (hsound : want.Sound i)
  (hmasked : ∀ x ∈ want.allowedIPs, x.masked = x)

include hsound hmasked

theorem settled_written {old : Option KernelPeer}
    (hend : want.endpoint ≠ "" ∨ (old.map KernelPeer.endpoint).getD "" = "") :
    Settled want (configured old want) := by
  have hpoint : (configured old want).endpoint = want.endpoint := by
    unfold configured
    by_cases h : want.endpoint = ""
    · simp only [h, if_true]
      exact hend.resolve_left (not_not.2 h)
    · simp only [if_neg h]
  refine peerOps_eq_nil_iff.2 ⟨?_, same_configured hmasked old want.endpoint, .inr hpoint⟩
  rintro ⟨hloop, hdirect, _⟩
  change isLoopback (configured old want).endpoint = true at hloop
  rw [hpoint, ← hsound.relayed, hdirect] at hloop
  cases hloop

omit hsound in
theorem settled_kept {old : KernelPeer} (hkeep : keepObservedEndpoint old.reported want = true) :
    Settled want (configured (some old) { want with endpoint := "" }) := by
  have hkeep' : keepObservedEndpoint
      (configured (some old) { want with endpoint := "" }).reported want = true := by
    rw [← hkeep]
    exact keepObservedEndpoint_congr rfl rfl rfl
  refine peerOps_eq_nil_iff.2 ⟨?_, same_configured hmasked (some old) "", .inl hkeep'⟩
  intro h
  rw [not_loopback_of_keep hkeep'] at h
  cases h.1

theorem peerOps_settles (chosen : Int) (l : Link) {current : Option KernelPeer}
    {taken : List Prefix} (htaken : ∀ x ∈ want.allowedIPs, x ∉ taken)
    (hcurrent : l.peer? want.publicKey = current.map (without taken)) :
    ∃ p, (run (Link.step chosen) l
        (peerOps (current.map KernelPeer.reported) want)).peer? want.publicKey = some p ∧
      Settled want p := by
  cases current with
  | none =>
    refine ⟨_, l.peer?_setPeer_self want, ?_⟩
    rw [hcurrent]
    exact settled_written hsound hmasked (.inr rfl)
  | some q =>
    simp only [Option.map_some, peerOps]
    by_cases hloop : (isLoopback q.reported.endpoint && !want.relayed &&
        decide (want.endpoint = "")) = true
    · -- Removed first, it is a new peer.
      rw [if_pos hloop]
      refine ⟨_, (l.removePeer want.publicKey).peer?_setPeer_self want, ?_⟩
      rw [Link.peer?_removePeer, if_pos rfl]
      exact settled_written hsound hmasked (.inr rfl)
    · rw [if_neg hloop]
      by_cases hwrite : (resolvePeer q.reported want).1 = true
      · rw [if_pos hwrite]
        by_cases hkeep : keepObservedEndpoint q.reported want = true
        · have hout : (resolvePeer q.reported want).2 = { want with endpoint := "" } := by
            simp only [resolvePeer, hkeep, if_true]
          rw [hout]
          refine ⟨_, l.peer?_setPeer_self { want with endpoint := "" }, ?_⟩
          simp only [hcurrent, Option.map_some]
          exact settled_kept hmasked
            ((keepObservedEndpoint_congr rfl rfl rfl).trans hkeep)
        · have hout : (resolvePeer q.reported want).2 = want := by
            simp only [resolvePeer, if_neg hkeep]
          rw [hout]
          refine ⟨_, l.peer?_setPeer_self want, settled_written hsound hmasked (.inl ?_)⟩
          -- With nothing to offer, what is there is kept unless it is a socket of this host.
          intro hnone
          have hdirect : want.relayed = false := by
            rw [hsound.relayed, hnone]
            rfl
          cases hq : isLoopback q.reported.endpoint with
          | true => simp [hq, hdirect, hnone] at hloop
          | false => simp [keepObservedEndpoint, hq, hdirect, hnone] at hkeep
      · rw [if_neg hwrite]
        have hsettled : Settled want q := by
          simp only [Settled, peerOps, if_neg hloop, if_neg hwrite]
        -- It has exactly its own prefixes, so none of them was taken.
        have hsame := (sameApartFromEndpoint_iff.1 (peerOps_eq_nil_iff.1 hsettled).2.1).2.2
        refine ⟨q, ?_, hsettled⟩
        rw [Base.run_nil, hcurrent, Option.map_some, without_eq_self]
        exact fun x hx => htaken x ((hsame x).1 hx)

end Written

theorem peerOps_others (chosen : Int) (l : Link) {want : Peer} (current : Option Peer)
    (hmasked : ∀ x ∈ want.allowedIPs, x.masked = x) {j : Key} (hj : j ≠ want.publicKey) :
    ∃ taken, (∀ x ∈ taken, x ∈ want.allowedIPs) ∧
      (run (Link.step chosen) l (peerOps current want)).peer? j =
        (l.peer? j).map (without taken) := by
  have hmap : want.allowedIPs.map Prefix.masked = want.allowedIPs := by
    rw [List.map_congr_left hmasked, List.map_id']
  have hset : ∀ (l : Link) (endpoint : String),
      (l.setPeer { want with endpoint }).peer? j =
        (l.peer? j).map (without want.allowedIPs) := by
    intro l endpoint
    rw [l.peer?_setPeer_ne { want with endpoint } hj, hmap]
  cases current with
  | none => exact ⟨want.allowedIPs, fun _ hx => hx, hset l want.endpoint⟩
  | some current =>
    simp only [peerOps]
    split
    · refine ⟨want.allowedIPs, fun _ hx => hx, ?_⟩
      have hremove : (l.removePeer want.publicKey).peer? j = l.peer? j := by
        rw [Link.peer?_removePeer, if_neg hj]
      rw [← hremove]
      exact hset (l.removePeer want.publicKey) want.endpoint
    · split
      · refine ⟨want.allowedIPs, fun _ hx => hx, ?_⟩
        simp only [resolvePeer]
        split
        · exact hset l ""
        · exact hset l want.endpoint
      · refine ⟨[], nofun, ?_⟩
        rw [without_nil, Option.map_id]
        rfl

theorem mem_of_indexPeers {peers : List Peer} {key : Key} {w : Peer}
    (h : indexPeers peers key = some w) : w ∈ peers ∧ w.publicKey = key := by
  obtain ⟨hmem, hkey⟩ := Base.of_find? h
  exact ⟨List.mem_reverse.1 hmem, hkey⟩

theorem mem_sortedKeys {peers : List Peer} {key : Key} :
    key ∈ sortedKeys peers ↔ (indexPeers peers key).isSome := by
  unfold sortedKeys indexPeers
  rw [List.mem_insertionSort, List.mem_dedup, List.find?_isSome, List.mem_map]
  simp only [List.mem_reverse, decide_eq_true_eq]

theorem nodup_sortedKeys (peers : List Peer) : (sortedKeys peers).Nodup :=
  (List.perm_insertionSort _ _).nodup_iff.2 (List.nodup_dedup _)

theorem indexPeers_reported (l : Link) (key : Key) :
    indexPeers (l.peers.map KernelPeer.reported) key = (l.peer? key).map KernelPeer.reported := by
  unfold indexPeers Link.peer?
  rw [← List.map_reverse, List.find?_map]
  exact congrArg _ (Base.find?_reverse_of_nodup l.keys key)

variable {x : Prefix} {l observed : Link} {want : Interface} {op : Op}

theorem Interface.Valid.disjoint {i : Interface} (hv : i.Valid) {v w : Peer} (hvm : v ∈ i.peers)
    (hwm : w ∈ i.peers) (hne : v.publicKey ≠ w.publicKey) (hx : x ∈ v.allowedIPs) :
    x ∉ w.allowedIPs := by
  intro hx'
  have hclaim : ∀ u ∈ i.peers, x ∈ u.allowedIPs → (x, u.publicKey) ∈ claims i.peers :=
    fun u hu hxu => List.mem_flatMap.2 ⟨u, hu, List.mem_map.2 ⟨x, hxu, rfl⟩⟩
  have heq := List.inj_on_of_nodup_map hv.once (hclaim v hvm hx) (hclaim w hwm hx') rfl
  exact hne (congrArg Prod.snd heq)

def Interface.Masked (i : Interface) : Prop :=
  ∀ peer ∈ i.peers, ∀ p ∈ peer.allowedIPs, p.masked = p ∧ ∀ m ∈ i.mapped p, m.masked = m

instance decidableMasked (i : Interface) : Decidable i.Masked :=
  inferInstanceAs (Decidable (∀ peer ∈ i.peers, ∀ p ∈ peer.allowedIPs, _ ∧ _))

/-- Part of the way through the wanted peers: those still to come are as they were observed, short
of prefixes that are not theirs; those passed are settled; and there is nobody else. -/
structure Underway (want : Interface) (observed l : Link) (todo : List Key) : Prop where
  come : ∀ key ∈ todo, ∀ w, indexPeers want.peers key = some w →
    ∃ taken, (∀ x ∈ w.allowedIPs, x ∉ taken) ∧
      l.peer? key = (observed.peer? key).map (without taken)
  past : ∀ key ∉ todo, ∀ w, indexPeers want.peers key = some w →
    ∃ p, l.peer? key = some p ∧ Settled w p
  nobody : ∀ key, indexPeers want.peers key = none → l.peer? key = none

section Loop

variable {want : Interface} (hv : want.Valid) (hm : want.Masked) (chosen : Int) {observed : Link}

include hv hm

theorem underway_step {l : Link} {key : Key} {todo : List Key} (hkey : key ∉ todo)
    (h : Underway want observed l (key :: todo)) {w : Peer}
    (hw : indexPeers want.peers key = some w) :
    Underway want observed
      (run (Link.step chosen) l (peerOps ((observed.peer? key).map KernelPeer.reported) w)) todo := by
  rcases mem_of_indexPeers hw with ⟨hmem, rfl⟩
  have hmasked : ∀ x ∈ w.allowedIPs, x.masked = x := fun x hx => (hm w hmem x hx).1
  have hothers : ∀ j, j ≠ w.publicKey → _ := fun j hj =>
    peerOps_others chosen l ((observed.peer? w.publicKey).map KernelPeer.reported) hmasked hj
  refine ⟨fun j hj v hjv => ?_, fun j hj v hjv => ?_, fun j hj => ?_⟩
  · -- Still to come: the prefixes just taken are not its own either.
    have hne : j ≠ w.publicKey := fun hjw => hkey (hjw ▸ hj)
    rcases mem_of_indexPeers hjv with ⟨hvmem, hvkey⟩
    rcases h.come j (.tail _ hj) v hjv with ⟨taken, htaken, hlook⟩
    rcases hothers j hne with ⟨more, hmore, hlook'⟩
    refine ⟨taken ++ more, fun x hx => ?_, ?_⟩
    · rw [List.mem_append, not_or]
      refine ⟨htaken x hx, fun hxm => ?_⟩
      exact hv.disjoint hvmem hmem (hvkey.trans_ne hne) hx (hmore x hxm)
    · rw [hlook', hlook, Option.map_map]
      exact congrArg (Option.map · _) (funext fun p => KernelPeer.without_without taken more p)
  · by_cases hjw : j = w.publicKey
    · subst hjw
      rcases h.come _ (.head _) w hw with ⟨taken, htaken, hlook⟩
      cases hjv.symm.trans hw
      exact peerOps_settles (hv.sound w hmem) hmasked chosen l htaken hlook
    · -- Passed: it has exactly its own prefixes, and loses none of them.
      rcases mem_of_indexPeers hjv with ⟨hvmem, hvkey⟩
      have hpast : j ∉ w.publicKey :: todo := by
        rw [List.mem_cons, not_or]
        exact ⟨hjw, hj⟩
      rcases h.past j hpast v hjv with ⟨p, hlook, hsettled⟩
      rcases hothers j hjw with ⟨more, hmore, hlook'⟩
      have hsame := (sameApartFromEndpoint_iff.1 (peerOps_eq_nil_iff.1 hsettled).2.1).2.2
      refine ⟨p, ?_, hsettled⟩
      rw [hlook', hlook, Option.map_some, without_eq_self]
      intro x hx hxm
      exact hv.disjoint hvmem hmem (hvkey.trans_ne hjw) ((hsame x).1 hx) (hmore x hxm)
  · have hne : j ≠ w.publicKey := by
      rintro rfl
      rw [hw] at hj
      cases hj
    rcases hothers j hne with ⟨more, _, hlook'⟩
    rw [hlook', h.nobody j hj, Option.map_none]

theorem peers_settle {l : Link} {todo : List Key} (htodo : todo.Nodup)
    (h : Underway want observed l todo) :
    Underway want observed
      (run (Link.step chosen) l (todo.flatMap fun key =>
        ((indexPeers want.peers key).map
          (peerOps ((observed.peer? key).map KernelPeer.reported))).getD [])) [] := by
  induction todo generalizing l with
  | nil => exact h
  | cons key todo ih =>
    rw [List.nodup_cons] at htodo
    rw [List.flatMap_cons, Base.run_append]
    refine ih htodo.2 ?_
    cases hw : indexPeers want.peers key with
    | some w => exact underway_step hv hm chosen htodo.1 h hw
    | none =>
      refine ⟨fun j hj => h.come j (.tail _ hj), fun j hj v hjv => ?_, h.nobody⟩
      refine h.past j ?_ v hjv
      rw [List.mem_cons, not_or]
      refine ⟨?_, hj⟩
      rintro rfl
      rw [hw] at hjv
      cases hjv

end Loop

theorem peer?_run_removePeer (chosen : Int) (l : Link) (keys : List Key) (j : Key) :
    (run (Link.step chosen) l (keys.map Op.removePeer)).peer? j =
      if j ∈ keys then none else l.peer? j := by
  induction keys generalizing l with
  | nil => rfl
  | cons key keys ih =>
    rw [List.map_cons, Base.run_cons, ih]
    by_cases hj : j ∈ keys
    · rw [if_pos hj, if_pos (.tail _ hj)]
    · rw [if_neg hj]
      change (l.removePeer key).peer? j = _
      rw [Link.peer?_removePeer]
      simp only [List.mem_cons, hj, or_false]

theorem peersOps_settle (hv : want.Valid) (hm : want.Masked) (chosen : Int)
    (hl : l.peers = observed.peers) :
    Underway want observed
      (run (Link.step chosen) l
        (peersOps want.peers (observed.peers.map KernelPeer.reported))) [] := by
  have hlook : ∀ key, l.peer? key = observed.peer? key := fun key => by
    unfold Link.peer?
    rw [hl]
  unfold peersOps
  rw [Base.run_append]
  simp only [indexPeers_reported]
  refine peers_settle hv hm chosen (nodup_sortedKeys want.peers) ⟨?_, ?_, ?_⟩
  · intro key _ w hw
    refine ⟨[], fun _ _ => List.not_mem_nil, ?_⟩
    have hkept : key ∉ (sortedKeys (observed.peers.map KernelPeer.reported)).filter
        fun key => (indexPeers want.peers key).isNone := by
      intro hmem
      have hnone := (List.mem_filter.1 hmem).2
      rw [hw] at hnone
      cases hnone
    rw [peer?_run_removePeer, if_neg hkept, hlook, without_nil, Option.map_id]
    rfl
  · intro key hkey w hw
    exact absurd (mem_sortedKeys.2 (Option.isSome_of_eq_some hw)) hkey
  · intro key hnone
    rw [peer?_run_removePeer]
    split
    · rfl
    · -- Not removed and not wanted, it was not there.
      rename_i hkept
      rw [hlook]
      by_contra hsome
      refine hkept (List.mem_filter.2 ⟨mem_sortedKeys.2 ?_, by rw [hnone]; rfl⟩)
      rw [indexPeers_reported, Option.isSome_map]
      exact Option.isSome_iff_ne_none.2 hsome

section Prefixes

variable {chosen : Int} {column : Link → List Prefix} {remove add : Prefix → Op}
  {stored : Prefix → Prefix}

theorem mem_run_remove (hremove : ∀ l p x, x ∈ column (l.step chosen (remove p)) ↔
      x ∈ column l ∧ x ≠ stored p) (l : Link) (ps : List Prefix) (x : Prefix) :
    x ∈ column (run (Link.step chosen) l (ps.map remove)) ↔
      x ∈ column l ∧ ∀ p ∈ ps, x ≠ stored p := by
  induction ps generalizing l with
  | nil => simp
  | cons p ps ih =>
    rw [List.map_cons, Base.run_cons, ih, hremove, List.forall_mem_cons, and_assoc]

theorem mem_run_add (hadd : ∀ l p x, x ∈ column (l.step chosen (add p)) ↔
      x ∈ column l ∨ x = stored p) (l : Link) (ps : List Prefix) (x : Prefix) :
    x ∈ column (run (Link.step chosen) l (ps.map add)) ↔
      x ∈ column l ∨ ∃ p ∈ ps, x = stored p := by
  induction ps generalizing l with
  | nil => simp
  | cons p ps ih =>
    rw [List.map_cons, Base.run_cons, ih, hadd, or_assoc]
    simp only [List.mem_cons, exists_eq_or_imp]

theorem mem_run_prefixOps
    (hremove : ∀ l p x, x ∈ column (l.step chosen (remove p)) ↔ x ∈ column l ∧ x ≠ stored p)
    (hadd : ∀ l p x, x ∈ column (l.step chosen (add p)) ↔ x ∈ column l ∨ x = stored p)
    (l : Link) {have' want : List Prefix} (hl : column l = have')
    (hhave : ∀ p ∈ have', stored p = p) (hwant : ∀ p ∈ want, stored p = p) (x : Prefix) :
    x ∈ column (run (Link.step chosen) l (prefixOps have' want remove add)) ↔ x ∈ want := by
  unfold prefixOps
  rw [Base.run_append, mem_run_add hadd, mem_run_remove hremove, hl]
  simp only [List.mem_filter, mem_sortPrefixes, decide_eq_true_eq]
  constructor
  · rintro (⟨hx, hkept⟩ | ⟨p, ⟨hp, _⟩, rfl⟩)
    · by_contra hxw
      exact hkept x ⟨hx, hxw⟩ (hhave x hx).symm
    · rwa [hwant p hp]
  · intro hx
    by_cases hxh : x ∈ have'
    · refine .inl ⟨hxh, ?_⟩
      rintro p ⟨hp, hpw⟩ rfl
      rw [hhave p hp] at hx
      exact hpw hx
    · exact .inr ⟨x, ⟨hx, hxh⟩, (hwant x hx).symm⟩

end Prefixes

theorem prefixOps_eq_nil {have' want : List Prefix} (h : ∀ x, x ∈ have' ↔ x ∈ want)
    (remove add : Prefix → Op) : prefixOps have' want remove add = [] := by
  have hnone : ∀ a b : List Prefix, (∀ x, x ∈ a → x ∈ b) → (sortPrefixes a).filter (· ∉ b) = [] := by
    intro a b hab
    rw [List.filter_eq_nil_iff]
    intro x hx
    simpa using hab x (mem_sortPrefixes.1 hx)
  unfold prefixOps
  rw [hnone _ _ fun x => (h x).1, hnone _ _ fun x => (h x).2]
  rfl

theorem mem_peerOps {current : Option Peer} {want : Peer} (h : op ∈ peerOps current want) :
    (∃ key, op = .removePeer key) ∨ ∃ p, op = .setPeer p := by
  cases current with
  | none => exact .inr ⟨want, List.mem_singleton.1 h⟩
  | some current =>
    simp only [peerOps] at h
    split at h
    · rcases List.mem_cons.1 h with h | h
      · exact .inl ⟨_, h⟩
      · exact .inr ⟨_, List.mem_singleton.1 h⟩
    · split at h
      · exact .inr ⟨_, List.mem_singleton.1 h⟩
      · cases h

theorem mem_peersOps {want have' : List Peer} (h : op ∈ peersOps want have') :
    (∃ key, op = .removePeer key) ∨ ∃ p, op = .setPeer p := by
  rcases List.mem_append.1 h with h | h
  · rcases List.mem_map.1 h with ⟨key, _, rfl⟩
    exact .inl ⟨key, rfl⟩
  · rcases List.mem_flatMap.1 h with ⟨key, _, h⟩
    cases hw : indexPeers want key with
    | none =>
      rw [hw] at h
      cases h
    | some w =>
      rw [hw] at h
      exact mem_peerOps h

theorem mem_prefixOps {have' want : List Prefix} {remove add : Prefix → Op}
    (h : op ∈ prefixOps have' want remove add) : ∃ p, op = remove p ∨ op = add p := by
  rcases List.mem_append.1 h with h | h
  · rcases List.mem_map.1 h with ⟨p, _, rfl⟩
    exact ⟨p, .inl rfl⟩
  · rcases List.mem_map.1 h with ⟨p, _, rfl⟩
    exact ⟨p, .inr rfl⟩

theorem mem_deviceOps {observed : Observed} (h : op ∈ deviceOps want observed) :
    op = .setDevice ⟨want.privateKey, want.listenPort, want.mtu⟩ := by
  unfold deviceOps at h
  split at h
  · exact List.mem_singleton.1 h
  · cases h

def Link.settings (l : Link) : Bool × Key × Int × Int :=
  (l.up, l.privateKey, l.listenPort, l.mtu)

theorem run_peersOps_keeps (chosen : Int) (l : Link) (want have' : List Peer) :
    let l' := run (Link.step chosen) l (peersOps want have')
    (l'.settings, l'.addresses, l'.routes) = (l.settings, l.addresses, l.routes) := by
  refine Base.run_keeps (fun l : Link => (l.settings, l.addresses, l.routes)) _ l
    fun l op hop => ?_
  rcases mem_peersOps hop with ⟨key, rfl⟩ | ⟨p, rfl⟩
  · rfl
  · rfl

theorem run_addressOps_keeps (chosen : Int) (l : Link) (have' want : List Prefix) :
    let l' := run (Link.step chosen) l (prefixOps have' want .removeAddress .addAddress)
    (l'.settings, l'.peers, l'.routes) = (l.settings, l.peers, l.routes) := by
  refine Base.run_keeps (fun l : Link => (l.settings, l.peers, l.routes)) _ l fun l op hop => ?_
  rcases mem_prefixOps hop with ⟨p, rfl | rfl⟩
  · rfl
  · rfl

theorem run_routeOps_keeps (chosen : Int) (l : Link) (have' want : List Prefix) :
    let l' := run (Link.step chosen) l (prefixOps have' want .removeRoute .addRoute)
    (l'.settings, l'.peers, l'.addresses) = (l.settings, l.peers, l.addresses) := by
  refine Base.run_keeps (fun l : Link => (l.settings, l.peers, l.addresses)) _ l fun l op hop => ?_
  rcases mem_prefixOps hop with ⟨p, rfl | rfl⟩
  · rfl
  · rfl

def Interface.Configured (want : Interface) (l : Link) : Prop :=
  l.privateKey = want.privateKey ∧ (want.listenPort ≠ 0 → l.listenPort = want.listenPort) ∧
    l.mtu = want.mtu

theorem configured_run (chosen : Int) (hmtu : 0 < want.mtu) (k : Option Link) :
    want.Configured (run (Link.step chosen) (k.getD {}) (deviceOps want (observe k))) := by
  unfold deviceOps
  split
  · refine ⟨rfl, fun hport => ?_, ?_⟩
    · exact if_neg hport
    · exact if_pos hmtu
  · -- Nothing is written where everything is as it should be.
    rename_i h
    rw [not_or, not_or, not_or] at h
    rcases h with ⟨hexists, hkey, hport, hmtu'⟩
    cases k with
    | none => exact absurd rfl hexists
    | some l =>
      refine ⟨not_not.1 hkey, fun hne => ?_, not_not.1 hmtu'⟩
      by_contra hwrong
      exact hport ⟨hne, hwrong⟩

theorem configured_congr {l' : Link} (h : l'.settings = l.settings) (hl : want.Configured l) :
    want.Configured l' := by
  simp only [Link.settings, Prod.mk.injEq] at h
  exact ⟨h.2.1.trans hl.1, fun hport => h.2.2.1.trans (hl.2.1 hport), h.2.2.2.trans hl.2.2⟩

/-- A device that is what was wanted: its settings, its peers with what each may send and how it is
kept alive, its addresses, and a route for every prefix of a peer but a default route, where it is
reached. -/
structure Interface.Met (want : Interface) (l : Link) : Prop where
  up : l.up = true
  settings : want.Configured l
  keys : ∀ key, (∃ p ∈ l.peers, p.publicKey = key) ↔ ∃ w ∈ want.peers, w.publicKey = key
  peers : ∀ p ∈ l.peers, ∀ w ∈ want.peers, p.publicKey = w.publicKey →
    (∀ x, x ∈ p.allowedIPs ↔ x ∈ w.allowedIPs) ∧ p.keepaliveSeconds = w.keepaliveSeconds ∧
      p.presharedKey = w.presharedKey
  addresses : ∀ x, x ∈ l.addresses ↔ x ∈ want.addresses
  routes : ∀ x, x ∈ l.routes ↔
    ∃ w ∈ want.peers, ∃ p ∈ w.allowedIPs, p.bits ≠ 0 ∧ x = (want.mapped p).getD p

theorem mem_wantRoutes :
    x ∈ wantRoutes want ↔
      ∃ w ∈ want.peers, ∃ p ∈ w.allowedIPs, p.bits ≠ 0 ∧ x = (want.mapped p).getD p := by
  unfold wantRoutes
  rw [List.mem_filterMap]
  simp only [List.mem_flatMap]
  constructor
  · rintro ⟨p, ⟨w, hw, hp⟩, hx⟩
    by_cases hbits : p.bits = 0
    · simp [hbits] at hx
    · rw [if_neg hbits] at hx
      exact ⟨w, hw, p, hp, hbits, (Option.some.inj hx).symm⟩
  · rintro ⟨w, hw, p, hp, hbits, rfl⟩
    exact ⟨p, ⟨w, hw, hp⟩, by rw [if_neg hbits]⟩

theorem masked_of_mem_wantRoutes (hm : want.Masked) (hx : x ∈ wantRoutes want) : x.masked = x := by
  rcases mem_wantRoutes.1 hx with ⟨w, hw, p, hp, _, rfl⟩
  cases hmapped : want.mapped p with
  | none => exact (hm w hw p hp).1
  | some m => exact (hm w hw p hp).2 m hmapped

theorem operations_eq_nil (hup : l.up = true) (hset : want.Configured l)
    (hpeers : Underway want observed l []) (haddr : ∀ x, x ∈ l.addresses ↔ x ∈ want.addresses)
    (hroutes : ∀ x, x ∈ l.routes ↔ x ∈ wantRoutes want) :
    operations want (observe (some l)) = [] := by
  have hdevice : deviceOps want (observe (some l)) = [] := by
    refine if_neg ?_
    rintro (h | h | ⟨hport, h⟩ | h)
    · cases h
    · exact h hset.1
    · exact h (hset.2.1 hport)
    · exact h hset.2.2
  have hstale : (sortedKeys (l.peers.map KernelPeer.reported)).filter
      (fun key => (indexPeers want.peers key).isNone) = [] := by
    rw [List.filter_eq_nil_iff]
    intro key hkey hnone
    rw [mem_sortedKeys, indexPeers_reported, hpeers.nobody key (Option.isNone_iff_eq_none.1 hnone)]
      at hkey
    cases hkey
  have hwanted : ((sortedKeys want.peers).flatMap fun key => ((indexPeers want.peers key).map
      (peerOps (indexPeers (l.peers.map KernelPeer.reported) key))).getD []) = [] := by
    rw [List.flatMap_eq_nil_iff]
    intro key _
    cases hw : indexPeers want.peers key with
    | none => rfl
    | some w =>
      rcases hpeers.past key List.not_mem_nil w hw with ⟨p, hlook, hsettled⟩
      rw [indexPeers_reported, hlook]
      exact hsettled
  have hpeersOps : peersOps want.peers (observe (some l)).peers = [] := by
    simp only [peersOps, observe, hstale, hwanted, List.map_nil, List.append_nil]
  have haddrOps : prefixOps (observe (some l)).addresses want.addresses .removeAddress .addAddress =
      [] := prefixOps_eq_nil haddr _ _
  have hrouteOps : prefixOps (observe (some l)).routes (wantRoutes want) .removeRoute .addRoute =
      [] := prefixOps_eq_nil hroutes _ _
  unfold operations
  rw [hdevice, hpeersOps, haddrOps, hrouteOps]
  simp [observe, hup]

theorem peers_met (hpeers : Underway want observed l []) (hv : want.Valid) :
    (∀ key, (∃ p ∈ l.peers, p.publicKey = key) ↔ ∃ w ∈ want.peers, w.publicKey = key) ∧
    ∀ p ∈ l.peers, ∀ w ∈ want.peers, p.publicKey = w.publicKey →
      (∀ x, x ∈ p.allowedIPs ↔ x ∈ w.allowedIPs) ∧ p.keepaliveSeconds = w.keepaliveSeconds ∧
        p.presharedKey = w.presharedKey := by
  have hindex : ∀ w ∈ want.peers, indexPeers want.peers w.publicKey = some w := by
    intro w hw
    unfold indexPeers
    rw [Base.find?_reverse_of_nodup hv.keys]
    exact Base.find?_of_nodup hv.keys hw
  have hlook : ∀ p ∈ l.peers, l.peer? p.publicKey = some p := fun p hp =>
    Base.find?_of_nodup l.keys hp
  refine ⟨fun key => ⟨?_, ?_⟩, ?_⟩
  · rintro ⟨p, hp, rfl⟩
    cases hw : indexPeers want.peers p.publicKey with
    | none =>
      have hnone := hpeers.nobody _ hw
      rw [hlook p hp] at hnone
      cases hnone
    | some w => exact ⟨w, mem_of_indexPeers hw⟩
  · rintro ⟨w, hw, rfl⟩
    rcases hpeers.past _ List.not_mem_nil w (hindex w hw) with ⟨p, hp, _⟩
    exact ⟨p, Base.of_find? hp⟩
  · intro p hp w hw hkey
    rcases hpeers.past _ List.not_mem_nil w (hindex w hw) with ⟨p', hp', hsettled⟩
    rw [← hkey, hlook p hp] at hp'
    cases hp'
    rcases sameApartFromEndpoint_iff.1 (peerOps_eq_nil_iff.1 hsettled).2.1 with ⟨hpsk, hkeep, hips⟩
    exact ⟨hips, hkeep, hpsk⟩

def laterOps (want : Interface) (observed : Observed) : List Op :=
  deviceOps want observed ++ (peersOps want.peers observed.peers ++
    (prefixOps observed.addresses want.addresses .removeAddress .addAddress ++
      ((if observed.exists' && observed.up then [] else [.bringUp]) ++
        prefixOps observed.routes (wantRoutes want) .removeRoute .addRoute)))

theorem operations_eq (want : Interface) (observed : Observed) :
    operations want observed =
      (if observed.exists' then [] else [.createDevice]) ++ laterOps want observed := by
  simp only [operations, laterOps, List.append_assoc]

theorem destroy_not_mem (want : Interface) (observed : Observed) :
    .destroyDevice ∉ laterOps want observed := by
  unfold laterOps
  simp only [List.mem_append, not_or]
  refine ⟨fun h => ?_, fun h => ?_, fun h => ?_, fun h => ?_, fun h => ?_⟩
  · cases mem_deviceOps h
  · rcases mem_peersOps h with ⟨key, h⟩ | ⟨p, h⟩
    · cases h
    · cases h
  · rcases mem_prefixOps h with ⟨p, h | h⟩
    · cases h
    · cases h
  · split at h
    · cases h
    · cases List.mem_singleton.1 h
  · rcases mem_prefixOps h with ⟨p, h | h⟩
    · cases h
    · cases h

theorem run_operations (chosen : Int) (want : Interface) (k : Option Link) :
    run (execute chosen) k (operations want (observe k)) =
      some (run (Link.step chosen) (k.getD {}) (laterOps want (observe k))) := by
  rw [operations_eq, Base.run_append, ← run_execute chosen _ (destroy_not_mem want (observe k))]
  cases k with
  | none => rfl
  | some l => rfl

theorem run_deviceOps_keeps (chosen : Int) (l : Link) (want : Interface) (observed : Observed) :
    let l' := run (Link.step chosen) l (deviceOps want observed)
    (l'.up, l'.peers, l'.addresses, l'.routes) = (l.up, l.peers, l.addresses, l.routes) := by
  refine Base.run_keeps (fun l : Link => (l.up, l.peers, l.addresses, l.routes)) _ l
    fun l op hop => ?_
  rw [mem_deviceOps hop]
  rfl

theorem underway_congr {l' : Link} (h : l'.peers = l.peers) (hl : Underway want observed l []) :
    Underway want observed l' [] := by
  have hlook : ∀ key, l'.peer? key = l.peer? key := fun key => by
    unfold Link.peer?
    rw [h]
  refine ⟨nofun, fun key hkey w hw => ?_, fun key hw => ?_⟩
  · rw [hlook]
    exact hl.past key hkey w hw
  · rw [hlook]
    exact hl.nobody key hw

theorem addresses_met (chosen : Int) (l : Link) (want : List Prefix) (x : Prefix) :
    x ∈ (run (Link.step chosen) l
        (prefixOps l.addresses want .removeAddress .addAddress)).addresses ↔ x ∈ want := by
  refine mem_run_prefixOps (fun l p x => ?_) (fun l p x => ?_) l rfl (fun _ _ => rfl)
    (fun _ _ => rfl) x
  · simp [Link.step]
  · simp only [Link.step, List.mem_append, List.mem_filter, List.mem_singleton, decide_eq_true_eq]
    by_cases hx : x = p
    · simp [hx]
    · simp [hx]

theorem routes_met (chosen : Int) (l : Link) {want : List Prefix}
    (hwant : ∀ p ∈ want, p.masked = p) (x : Prefix) :
    x ∈ (run (Link.step chosen) l
        (prefixOps l.routes want .removeRoute .addRoute)).routes ↔ x ∈ want := by
  refine mem_run_prefixOps (fun l p x => ?_) (fun l p x => ?_) l rfl l.networks hwant x
  · simp [Link.step, Link.removeRoute]
  · simp only [Link.step, Link.addRoute, List.mem_append, List.mem_filter, List.mem_singleton,
      decide_eq_true_eq]
    by_cases hx : x = p.masked
    · simp [hx]
    · simp [hx]

theorem bringUp_met (chosen : Int) (hl : want.Configured l) {up : Bool} (hup : l.up = up) :
    let l' := run (Link.step chosen) l (if up then [] else [.bringUp])
    l'.up = true ∧ want.Configured l' ∧
      (l'.peers, l'.addresses, l'.routes) = (l.peers, l.addresses, l.routes) := by
  cases up with
  | true => exact ⟨hup, hl, rfl⟩
  | false =>
    refine ⟨rfl, ⟨hl.1, fun hport => ?_, hl.2.2⟩, rfl⟩
    have hl' := hl.2.1 hport
    have hzero : ¬l.listenPort = 0 := by rwa [hl']
    exact (if_neg hzero).trans hl'

theorem later_arrives (chosen : Int) (hv : want.Valid) (hm : want.Masked) (k : Option Link) :
    let l := run (Link.step chosen) (k.getD {}) (laterOps want (observe k))
    want.Met l ∧ operations want (observe (some l)) = [] := by
  have hpeers : (observe k).peers = (k.getD {}).peers.map KernelPeer.reported := by
    cases k <;> rfl
  have haddrs : (observe k).addresses = (k.getD {}).addresses := by
    cases k <;> rfl
  have hroutes : (observe k).routes = (k.getD {}).routes := by
    cases k <;> rfl
  have hup : ((observe k).exists' && (observe k).up) = (k.getD {}).up := by
    cases k <;> rfl
  simp only [laterOps, Base.run_append, hpeers, haddrs, hroutes, hup]
  -- One stage after another, each with what it sets and what it leaves alone.
  have hset := configured_run chosen hv.mtu k
  have hkeep := run_deviceOps_keeps chosen (k.getD {}) want (observe k)
  generalize k.getD {} = found at hset hkeep ⊢
  generalize run (Link.step chosen) found (deviceOps want (observe k)) = l at hset hkeep ⊢
  simp only [Prod.mk.injEq] at hkeep
  rcases hkeep with ⟨hupl, hpeersl, haddrl, hroutel⟩
  have hsettle := peersOps_settle hv hm chosen hpeersl
  have hkeep := run_peersOps_keeps chosen l want.peers (found.peers.map KernelPeer.reported)
  generalize run (Link.step chosen) l (peersOps want.peers (found.peers.map KernelPeer.reported)) =
    l₁ at hsettle hkeep ⊢
  simp only [Prod.mk.injEq] at hkeep
  rcases hkeep with ⟨hset₁, haddr₁, hroute₁⟩
  rw [← haddrl, ← haddr₁, ← hroutel, ← hroute₁]
  have haddrs₂ := addresses_met chosen l₁ want.addresses
  have hkeep := run_addressOps_keeps chosen l₁ l₁.addresses want.addresses
  generalize run (Link.step chosen) l₁
    (prefixOps l₁.addresses want.addresses .removeAddress .addAddress) = l₂ at haddrs₂ hkeep ⊢
  simp only [Prod.mk.injEq] at hkeep
  rcases hkeep with ⟨hset₂, hpeers₂, hroute₂⟩
  have hup₂ : l₂.up = found.up :=
    (congrArg Prod.fst (hset₂.trans hset₁)).trans hupl
  have hup₃ := bringUp_met chosen (configured_congr (hset₂.trans hset₁) hset) hup₂
  generalize run (Link.step chosen) l₂ (if found.up = true then [] else [Op.bringUp]) = l₃
    at hup₃ ⊢
  simp only [Prod.mk.injEq] at hup₃
  rcases hup₃ with ⟨hup₃, hset₃, hpeers₃, haddr₃, hroute₃⟩
  rw [← hroute₂, ← hroute₃]
  have hroutes₄ := routes_met chosen l₃ fun p hp => masked_of_mem_wantRoutes hm hp
  have hkeep := run_routeOps_keeps chosen l₃ l₃.routes (wantRoutes want)
  generalize run (Link.step chosen) l₃
    (prefixOps l₃.routes (wantRoutes want) .removeRoute .addRoute) = l₄ at hroutes₄ hkeep ⊢
  simp only [Prod.mk.injEq] at hkeep
  rcases hkeep with ⟨hset₄, hpeers₄, haddr₄⟩
  have hup₄ : l₄.up = true := (congrArg Prod.fst hset₄).trans hup₃
  have hsettle₄ := underway_congr (hpeers₄.trans (hpeers₃.trans hpeers₂)) hsettle
  have hset₄ := configured_congr hset₄ hset₃
  rw [← haddr₃, ← haddr₄] at haddrs₂
  rcases peers_met hsettle₄ hv with ⟨hkeys, hsame⟩
  exact ⟨⟨hup₄, hset₄, hkeys, hsame, haddrs₂, fun x => (hroutes₄ x).trans mem_wantRoutes⟩,
    operations_eq_nil hup₄ hset₄ hsettle₄ haddrs₂ hroutes₄⟩

/-- For every interface that passes validation and has no host bits, and whatever is there, there is
a plan, executing it leaves the interface that was wanted, and planning again against what is then
reported leaves nothing to do. -/
theorem plan_converges (want : Interface) (k : Option Link) (chosen : Int)
    (hvalid : want.validate = .ok ()) (hmasked : want.Masked) :
    ∃ ops l, planFor want (observe k) = .ok ops ∧ run (execute chosen) k ops = some l ∧
      want.Met l ∧ planFor want (observe (some l)) = .ok [] := by
  have hplan : ∀ observed, planFor want observed = .ok (operations want observed) := fun observed =>
    Base.bind_eq_ok.2 ⟨(), hvalid, rfl⟩
  have harrives := later_arrives chosen ((validate_eq_ok_iff want).1 hvalid) hmasked k
  refine ⟨_, _, hplan _, run_operations chosen want k, harrives.1, ?_⟩
  rw [hplan, harrives.2]

def crossed : Link where
  up := true
  privateKey := "own"
  mtu := 1280
  addresses := [.single (.v4 0x645A0001)]
  peers :=
    [{ publicKey := "a", allowedIPs := [⟨.v4 0x0A010000, 16, by decide⟩]
       endpoint := "192.0.2.9:7000", handshakeAge := some (30 * 10 ^ 9) },
     { publicKey := "b", allowedIPs := [⟨.v4 0x0A020000, 16, by decide⟩]
       endpoint := "127.0.0.1:4000", keepaliveSeconds := 25 },
     { publicKey := "c", allowedIPs := [⟨.v4 0x0A030000, 16, by decide⟩] }]
  routes := [⟨.v4 0x0A030000, 16, by decide⟩]
  keys := by decide
  networks := by decide

def uncrossed : Interface where
  name := "meshp0"
  privateKey := "own"
  listenPort := 51820
  mtu := 1420
  addresses := [.single (.v4 0x645A0001)]
  peers :=
    [{ publicKey := "a", allowedIPs := [⟨.v4 0x0A020000, 16, by decide⟩]
       endpoint := "192.0.2.1:51820" },
     { publicKey := "b"
       allowedIPs := [⟨.v4 0x0A010000, 16, by decide⟩, .upTo (.v4 0) 0] }]

theorem plan_converges_crossed :
    ∃ ops l, planFor uncrossed (observe (some crossed)) = .ok ops ∧ ops.length = 8 ∧
      run (execute 0) (some crossed) ops = some l ∧ uncrossed.Met l ∧
      planFor uncrossed (observe (some l)) = .ok [] := by
  rcases plan_converges uncrossed (some crossed) 0 (by decide +kernel) (by decide +kernel) with
    ⟨ops, l, hplan, hrun⟩
  have hlength : (planFor uncrossed (observe (some crossed))).map List.length = .ok 8 := by
    decide +kernel
  rw [hplan] at hlength
  exact ⟨ops, l, hplan, Except.ok.inj hlength, hrun⟩

end Wgplan

end Meshp
