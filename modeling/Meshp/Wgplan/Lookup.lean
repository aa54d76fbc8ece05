import Meshp.Wgplan.Converge

/-!
# Where a Packet Goes

The kernel sends a packet to the peer with the longest prefix that holds its
destination, and writing a peer takes its prefixes from whoever had them. So two
peers that claim one prefix leave it to the order they are written in.
-/

namespace Meshp.Wgplan

open KernelPeer (configured)
open Netip (Addr Prefix)

def Link.matching (l : Link) (a : Addr) : List (Prefix × Key) :=
  l.peers.flatMap fun p => (p.allowedIPs.filter (·.contains a)).map (·, p.publicKey)

def Link.lookup (l : Link) (a : Addr) : Option Key :=
  ((l.matching a).argmax (·.1.bits)).map Prod.snd

def Peer.Holds (w : Peer) (a : Addr) : Prop :=
  ∃ x ∈ w.allowedIPs, x.bits ≠ 0 ∧ x.contains a = true

def Peer.HoldsDefault (w : Peer) (a : Addr) : Prop :=
  ∃ x ∈ w.allowedIPs, x.bits = 0 ∧ x.contains a = true

section Lookup

variable {i : Interface} {l : Link} {a : Addr} {v w : Peer} {x y : Prefix}

theorem Interface.Valid.eq_of_contains (hi : i.Valid) (hv : v ∈ i.peers) (hw : w ∈ i.peers)
    (hx : x ∈ v.allowedIPs) (hy : y ∈ w.allowedIPs) (hdefault : x.bits = 0 ↔ y.bits = 0)
    (hxa : x.contains a = true) (hya : y.contains a = true) : v = w := by
  by_cases hkey : v.publicKey = w.publicKey
  · exact List.inj_on_of_nodup_map hi.keys hv hw hkey
  have hclaim : ∀ u ∈ i.peers, ∀ z ∈ u.allowedIPs, (z, u.publicKey) ∈ claims i.peers :=
    fun u hu z hz => List.mem_flatMap.2 ⟨u, hu, List.mem_map_of_mem hz⟩
  have hcontested : Contested (x, v.publicKey) (y, w.publicKey) :=
    ⟨hkey, hdefault, Prefix.overlaps_of_contains hxa hya⟩
  have hsymm : Std.Symm fun a b => ¬Contested a b := ⟨fun _ _ h h' => h (contested_comm h')⟩
  have hapart := hi.apart.forall (hclaim v hv x hx) (hclaim w hw y hy) fun heq =>
    hkey (congrArg Prod.snd heq)
  exact absurd hcontested hapart

theorem Interface.Valid.masked_ne (hi : i.Valid) (hv : v ∈ i.peers) (hw : w ∈ i.peers)
    (hne : v ≠ w) (hx : x ∈ v.allowedIPs) (hy : y ∈ w.allowedIPs) : x.masked ≠ y.masked := by
  intro heq
  have hbits : x.bits = y.bits := by simpa using congrArg Prefix.bits heq
  refine hne (hi.eq_of_contains hv hw hx hy (by rw [hbits]) x.contains_self ?_)
  rw [← y.contains_masked, ← heq, x.contains_masked]
  exact x.contains_self

theorem foldl_setPeer {ps : List Peer} (hkeys : (ps.map Peer.publicKey).Nodup)
    (hne : ∀ v ∈ ps, ∀ w ∈ ps, v ≠ w → ∀ x ∈ v.allowedIPs, ∀ y ∈ w.allowedIPs,
      x.masked ≠ y.masked) :
    (ps.foldl Link.setPeer {}).peers = ps.map (configured none) := by
  induction ps using List.reverseRecOn with
  | nil => rfl
  | append_singleton ps p ih =>
    rw [List.map_append, List.nodup_append] at hkeys
    have hpeers := ih hkeys.1 fun v hv w hw =>
      hne v (List.mem_append_left _ hv) w (List.mem_append_left _ hw)
    rw [List.foldl_append]
    generalize ps.foldl Link.setPeer {} = l at hpeers
    have hother : ∀ q ∈ l.peers, ∃ v ∈ ps, q = configured none v ∧
        v.publicKey ≠ p.publicKey := by
      intro q hq
      rw [hpeers] at hq
      obtain ⟨v, hv, rfl⟩ := List.mem_map.1 hq
      exact ⟨v, hv, rfl, hkeys.2.2 _ (List.mem_map_of_mem hv) _ (by simp)⟩
    have hnone : l.peer? p.publicKey = none := by
      refine List.find?_eq_none.2 fun q hq => ?_
      obtain ⟨v, -, rfl, hv⟩ := hother q hq
      simpa [configured] using hv
    -- Nobody has anything that the new peer takes.
    have hothers : l.others p.publicKey (p.allowedIPs.map Prefix.masked) = l.peers := by
      have hall : l.peers.filter (·.publicKey ≠ p.publicKey) = l.peers := by
        refine List.filter_eq_self.2 fun q hq => ?_
        obtain ⟨v, -, rfl, hv⟩ := hother q hq
        simpa [configured] using hv
      rw [Link.others, hall]
      refine (List.map_congr_left fun q hq => ?_).trans (List.map_id _)
      obtain ⟨v, hv, rfl, hkey⟩ := hother q hq
      refine KernelPeer.without_eq_self fun x hx htaken => ?_
      obtain ⟨x, hx', rfl⟩ := List.mem_map.1 hx
      obtain ⟨y, hy, heq⟩ := List.mem_map.1 htaken
      exact hne v (List.mem_append_left _ hv) p (by simp) (fun h => hkey (h ▸ rfl)) x hx' y hy
        heq.symm
    simp only [List.foldl_cons, List.foldl_nil, Link.setPeer, hothers, hnone, hpeers,
      List.map_append, List.map_cons, List.map_nil]

theorem mem_matching {ps : List Peer} (hl : l.peers = ps.map (configured none))
    {k : Key} : (x, k) ∈ l.matching a ↔
      ∃ w ∈ ps, w.publicKey = k ∧ ∃ y ∈ w.allowedIPs, y.masked = x ∧ y.contains a = true := by
  simp only [Link.matching, hl, configured, List.mem_flatMap, List.mem_map,
    List.mem_filter, Prod.mk.injEq]
  constructor
  · rintro ⟨_, ⟨w, hw, rfl⟩, _, ⟨hx, hya⟩, rfl, rfl⟩
    obtain ⟨y, hy, rfl⟩ := List.mem_map.1 hx
    exact ⟨w, hw, rfl, y, hy, rfl, (y.contains_masked a).symm.trans hya⟩
  · rintro ⟨w, hw, rfl, y, hy, rfl, hya⟩
    exact ⟨_, ⟨w, hw, rfl⟩, _, ⟨List.mem_map_of_mem hy, (y.contains_masked a).trans hya⟩, rfl, rfl⟩

theorem lookup_of_longest {k : Key} (hx : (x, k) ∈ l.matching a)
    (hlonger : ∀ y k', (y, k') ∈ l.matching a → x.bits ≤ y.bits → k' = k) :
    l.lookup a = some k := by
  unfold Link.lookup
  cases hmax : (l.matching a).argmax (·.1.bits) with
  | none =>
    rw [List.argmax_eq_none.1 hmax] at hx
    cases hx
  | some m =>
    have hle := List.le_of_mem_argmax (f := fun c : Prefix × Key => c.1.bits) hx hmax
    exact congrArg some (hlonger m.1 m.2 (List.argmax_mem hmax) hle)

end Lookup

/-- The peers of an interface that passes `Validate`, written in any order, have exactly their own
prefixes, masked. An address goes to the one peer that holds it by a prefix that is no default
route; if there is none, to the one with the default route of its family; and else to nobody. Which
order it was makes no difference. -/
theorem lookup_validated (i : Interface) (h : i.validate = .ok ()) (order : List Peer)
    (horder : order.Perm i.peers) :
    let l := order.foldl Link.setPeer {}
    l.peers.map (fun p => (p.publicKey, p.allowedIPs)) =
        order.map (fun w => (w.publicKey, w.allowedIPs.map Prefix.masked)) ∧
      ∀ a, (∀ w ∈ i.peers, w.Holds a →
          l.lookup a = some w.publicKey ∧ ∀ v ∈ i.peers, v.Holds a → v = w) ∧
        ((∀ v ∈ i.peers, ¬v.Holds a) → ∀ w ∈ i.peers, w.HoldsDefault a →
          l.lookup a = some w.publicKey ∧ ∀ v ∈ i.peers, v.HoldsDefault a → v = w) ∧
        ((∀ v ∈ i.peers, ¬v.Holds a ∧ ¬v.HoldsDefault a) → l.lookup a = none) := by
  intro l
  have hi : i.Valid := (validate_eq_ok_iff i).1 h
  have hl : l.peers = order.map (configured none) := by
    refine foldl_setPeer ((horder.map _).nodup_iff.2 hi.keys) fun v hv w hw hne x hx y hy => ?_
    exact hi.masked_ne (horder.mem_iff.1 hv) (horder.mem_iff.1 hw) hne hx hy
  have hmatching : ∀ {a x k}, (x, k) ∈ l.matching a ↔ ∃ w ∈ i.peers, w.publicKey = k ∧
      ∃ y ∈ w.allowedIPs, y.masked = x ∧ y.contains a = true := by
    intro a x k
    simp only [mem_matching hl, horder.mem_iff]
  refine ⟨by simp [hl, configured], fun a => ⟨?_, ?_, ?_⟩⟩
  · rintro w hw ⟨x, hx, hbits, hxa⟩
    have honly : ∀ v ∈ i.peers, v.Holds a → v = w := by
      rintro v hv ⟨y, hy, hybits, hya⟩
      exact hi.eq_of_contains hv hw hy hx (iff_of_false hybits hbits) hya hxa
    refine ⟨lookup_of_longest (hmatching.2 ⟨w, hw, rfl, x, hx, rfl, hxa⟩) ?_, honly⟩
    intro _ k hk hle
    obtain ⟨v, hv, rfl, y, hy, rfl, hya⟩ := hmatching.1 hk
    simp only [Prefix.masked_bits] at hle
    rw [honly v hv ⟨y, hy, by omega, hya⟩]
  · rintro hnone w hw ⟨x, hx, hbits, hxa⟩
    have honly : ∀ v ∈ i.peers, v.HoldsDefault a → v = w := by
      rintro v hv ⟨y, hy, hybits, hya⟩
      exact hi.eq_of_contains hv hw hy hx (iff_of_true hybits hbits) hya hxa
    refine ⟨lookup_of_longest (hmatching.2 ⟨w, hw, rfl, x, hx, rfl, hxa⟩) ?_, honly⟩
    intro _ k hk _
    obtain ⟨v, hv, rfl, y, hy, rfl, hya⟩ := hmatching.1 hk
    have hdefault : y.bits = 0 := by
      by_contra hybits
      exact hnone v hv ⟨y, hy, hybits, hya⟩
    rw [honly v hv ⟨y, hy, hdefault, hya⟩]
  · intro hnone
    have hempty : l.matching a = [] := by
      refine List.eq_nil_iff_forall_not_mem.2 fun x hx => ?_
      obtain ⟨v, hv, -, y, hy, -, hya⟩ := hmatching.1 hx
      by_cases hybits : y.bits = 0
      · exact (hnone v hv).2 ⟨y, hy, hybits, hya⟩
      · exact (hnone v hv).1 ⟨y, hy, hybits, hya⟩
    rw [Link.lookup, hempty]
    rfl

theorem lookup_validated_uncrossed :
    uncrossed.validate = .ok () ∧
      ∀ order : List Peer, order.Perm uncrossed.peers →
        (order.foldl Link.setPeer {}).lookup (.v4 0x0A020304) = some "a" ∧
        (order.foldl Link.setPeer {}).lookup (.v4 0x08080808) = some "b" := by
  have hvalid : uncrossed.validate = .ok () := by decide +kernel
  refine ⟨hvalid, fun order horder => ?_⟩
  have hall := (lookup_validated uncrossed hvalid order horder).2
  refine ⟨((hall _).1 (uncrossed.peers[0]) (by simp) ⟨⟨.v4 0x0A020000, 16, by decide⟩, ?_⟩).1,
    ((hall _).2.1 ?_ (uncrossed.peers[1]) (by simp) ⟨⟨.v4 0, 0, by decide⟩, ?_⟩).1⟩
  · decide
  · change ∀ v ∈ uncrossed.peers, ¬∃ x ∈ v.allowedIPs, x.bits ≠ 0 ∧ x.contains _ = true
    decide
  · decide

end Meshp.Wgplan
