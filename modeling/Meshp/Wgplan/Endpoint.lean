import Meshp.Wgplan.Converge

/-!
# Where a Peer Is Left Pointing

What a plan does to the endpoint of one peer. An endpoint cannot be cleared: a
write that names none leaves the one that is there, so a peer that stops being
relayed either gets another endpoint or is removed and added again.
-/

namespace Meshp.Wgplan

open Base (run bind_eq_ok)

def Link.endpoint? (l : Link) (key : Key) : Option String :=
  (l.peer? key).map KernelPeer.endpoint

def follow (key : Key) (endpoint : Option String) : Op → Option String
  | .removePeer k => if key = k then none else endpoint
  | .setPeer p =>
    if key = p.publicKey then some (if p.endpoint = "" then endpoint.getD "" else p.endpoint)
    else endpoint
  | _ => endpoint

theorem endpoint?_step (chosen : Int) (l : Link) (op : Op) (key : Key) :
    (l.step chosen op).endpoint? key = follow key (l.endpoint? key) op := by
  cases op with
  | removePeer k =>
    simp only [Link.endpoint?, Link.step, follow, Link.peer?_removePeer]
    by_cases hk : key = k
    · rw [if_pos hk, if_pos hk, Option.map_none]
    · rw [if_neg hk, if_neg hk]
  | setPeer p =>
    simp only [Link.endpoint?, Link.step, follow]
    by_cases hk : key = p.publicKey
    · rw [if_pos hk, hk, Link.peer?_setPeer_self]
      rfl
    · rw [if_neg hk, Link.peer?_setPeer_ne _ _ hk, Option.map_map]
      rfl
  | _ => rfl

theorem endpoint?_run (chosen : Int) (l : Link) (ops : List Op) (key : Key) :
    (run (Link.step chosen) l ops).endpoint? key = ops.foldl (follow key) (l.endpoint? key) := by
  induction ops generalizing l with
  | nil => rfl
  | cons op ops ih => rw [Base.run_cons, ih, endpoint?_step, List.foldl_cons]

def arrives (current : Option Peer) (want : Peer) : String :=
  match current with
  | none => want.endpoint
  | some current =>
    if keepObservedEndpoint current want then current.endpoint else want.endpoint

section Follow

variable {key : Key}

theorem foldl_follow_of_other {ops : List Op}
    (h : ∀ op ∈ ops, ∀ endpoint, follow key endpoint op = endpoint) (endpoint : Option String) :
    ops.foldl (follow key) endpoint = endpoint := by
  induction ops generalizing endpoint with
  | nil => rfl
  | cons op ops ih =>
    rw [List.foldl_cons, h op (.head _)]
    exact ih (fun op' hop => h op' (.tail _ hop)) endpoint

theorem foldl_follow_peerOps_ne (current : Option Peer) {want : Peer} (h : key ≠ want.publicKey)
    (endpoint : Option String) : (peerOps current want).foldl (follow key) endpoint = endpoint := by
  have hset : ∀ (e : String) (endpoint : Option String),
      follow key endpoint (.setPeer { want with endpoint := e }) = endpoint :=
    fun e endpoint => if_neg h
  have hremove : ∀ endpoint, follow key endpoint (.removePeer want.publicKey) = endpoint :=
    fun endpoint => if_neg h
  refine foldl_follow_of_other (fun op hop endpoint => ?_) endpoint
  cases current with
  | none =>
    rw [List.mem_singleton.1 hop]
    exact hset want.endpoint endpoint
  | some current =>
    simp only [peerOps] at hop
    split at hop
    · rcases List.mem_pair.1 hop with rfl | rfl
      · exact hremove endpoint
      · exact hset want.endpoint endpoint
    · split at hop
      · rw [List.mem_singleton.1 hop, resolvePeer]
        simp only
        split
        · exact hset "" endpoint
        · exact hset want.endpoint endpoint
      · cases hop

theorem foldl_follow_peerOps_self {want : Peer} (current : Option Peer)
    (hrelayed : want.relayed = isLoopback want.endpoint) :
    (peerOps current want).foldl (follow want.publicKey) (current.map Peer.endpoint) =
      some (arrives current want) := by
  have hset : ∀ (e : String) (endpoint : Option String),
      follow want.publicKey endpoint (.setPeer { want with endpoint := e }) =
        some (if e = "" then endpoint.getD "" else e) :=
    fun e endpoint => if_pos rfl
  have hremove : ∀ endpoint, follow want.publicKey endpoint (.removePeer want.publicKey) = none :=
    fun endpoint => if_pos rfl
  cases current with
  | none =>
    refine (hset want.endpoint none).trans ?_
    split
    · rename_i hempty
      exact congrArg some hempty.symm
    · rfl
  | some current =>
    simp only [peerOps, Option.map_some, arrives]
    split
    · -- A loopback endpoint and nothing to replace it: the peer starts afresh.
      rename_i hclear
      simp only [Bool.and_eq_true, Bool.not_eq_true', decide_eq_true_eq] at hclear
      have hkeep : keepObservedEndpoint current want = false := by
        simp [keepObservedEndpoint, hclear.1.1]
      rw [List.foldl_cons, List.foldl_cons, List.foldl_nil, hremove, hkeep]
      refine (hset want.endpoint none).trans ?_
      simp [hclear.2]
    · rename_i hclear
      cases hkeep : keepObservedEndpoint current want with
      | true =>
        simp only [resolvePeer, hkeep, if_true]
        split
        · exact hset "" (some current.endpoint)
        · rfl
      | false =>
        -- With nothing to offer, an endpoint that is not loopback is kept.
        have hoffer : want.endpoint ≠ "" := by
          intro hempty
          have hdirect : want.relayed = false := by
            rw [hrelayed, hempty]
            rfl
          cases hloop : isLoopback current.endpoint <;>
            simp [keepObservedEndpoint, hdirect, hempty, hloop] at hkeep hclear
        simp only [resolvePeer, hkeep, Bool.false_eq_true, if_false, Bool.not_false,
          Bool.true_and]
        split
        · refine (hset want.endpoint (some current.endpoint)).trans ?_
          rw [if_neg hoffer]
        · rename_i hsame
          simp only [Bool.or_eq_true, decide_eq_true_eq, not_or, not_not] at hsame
          exact congrArg some hsame.2

theorem foldl_follow_removePeer (keys : List Key) (endpoint : Option String) :
    (keys.map Op.removePeer).foldl (follow key) endpoint =
      if key ∈ keys then none else endpoint := by
  induction keys generalizing endpoint with
  | nil => rfl
  | cons k keys ih =>
    rw [List.map_cons, List.foldl_cons, ih, follow]
    by_cases hk : key = k
    · simp [hk]
    · simp [hk]

theorem foldl_follow_plans {plans : Key → List Op}
    (hother : ∀ k, k ≠ key → ∀ endpoint, (plans k).foldl (follow key) endpoint = endpoint)
    {keys : List Key} (hkeys : keys.Nodup) (endpoint : Option String) :
    (keys.flatMap plans).foldl (follow key) endpoint =
      if key ∈ keys then (plans key).foldl (follow key) endpoint else endpoint := by
  induction keys generalizing endpoint with
  | nil => rfl
  | cons k keys ih =>
    rw [List.nodup_cons] at hkeys
    rw [List.flatMap_cons, List.foldl_append, ih hkeys.2]
    by_cases hk : k = key
    · subst hk
      rw [if_neg hkeys.1, if_pos (.head _)]
    · rw [hother k hk]
      simp [Ne.symm hk]

end Follow

theorem foldl_follow_peersOps {want have' : List Peer} (key : Key)
    (hrelayed : ∀ w ∈ want, w.relayed = isLoopback w.endpoint) :
    (peersOps want have').foldl (follow key) ((indexPeers have' key).map Peer.endpoint) =
      (indexPeers want key).map (arrives (indexPeers have' key)) := by
  have hother : ∀ k, k ≠ key → ∀ endpoint,
      (((indexPeers want k).map (peerOps (indexPeers have' k))).getD []).foldl (follow key)
        endpoint = endpoint := by
    intro k hk endpoint
    cases hw : indexPeers want k with
    | none => rfl
    | some w =>
      refine foldl_follow_peerOps_ne _ ?_ endpoint
      rw [(mem_of_indexPeers hw).2]
      exact Ne.symm hk
  rw [peersOps, List.foldl_append, foldl_follow_removePeer,
    foldl_follow_plans hother (nodup_sortedKeys want)]
  simp only [mem_sortedKeys]
  cases hw : indexPeers want key with
  | some w =>
    rcases mem_of_indexPeers hw with ⟨hmem, rfl⟩
    simp only [Option.isSome_some, if_true, Option.map_some, Option.getD_some, List.mem_filter, hw,
      Option.isNone_some, Bool.false_eq_true, and_false, if_false]
    exact foldl_follow_peerOps_self _ (hrelayed w hmem)
  | none =>
    -- Whoever is not wanted was removed, or was not there.
    simp only [Option.isSome_none, Bool.false_eq_true, if_false, Option.map_none, List.mem_filter,
      mem_sortedKeys, hw, Option.isNone_none, and_true]
    cases indexPeers have' key <;> rfl

theorem endpoint?_plan (chosen : Int) {want : Interface} (hv : want.Valid) (k : Option Link)
    (key : Key) :
    (run (Link.step chosen) (k.getD {}) (laterOps want (observe k))).endpoint? key =
      (indexPeers want.peers key).map (arrives (indexPeers (observe k).peers key)) := by
  have hprefix : ∀ {have' want' : List Netip.Prefix} {remove add : Netip.Prefix → Op},
      (∀ p endpoint, follow key endpoint (remove p) = endpoint) →
      (∀ p endpoint, follow key endpoint (add p) = endpoint) → ∀ endpoint,
      (prefixOps have' want' remove add).foldl (follow key) endpoint = endpoint := by
    intro have' want' remove add hremove hadd
    refine foldl_follow_of_other fun op hop endpoint => ?_
    rcases mem_prefixOps hop with ⟨p, rfl | rfl⟩
    · exact hremove p endpoint
    · exact hadd p endpoint
  have hdevice : ∀ endpoint,
      (deviceOps want (observe k)).foldl (follow key) endpoint = endpoint := by
    refine foldl_follow_of_other fun op hop endpoint => ?_
    rw [mem_deviceOps hop]
    rfl
  have hup : ∀ endpoint, (if (observe k).exists' && (observe k).up then [] else [Op.bringUp]).foldl
      (follow key) endpoint = endpoint := by
    intro endpoint
    split <;> rfl
  have hstart : (k.getD {}).endpoint? key =
      (indexPeers (observe k).peers key).map Peer.endpoint := by
    cases k with
    | none => rfl
    | some l =>
      simp only [observe, indexPeers_reported, Option.map_map, Option.getD_some]
      rfl
  rw [endpoint?_run, hstart]
  simp only [laterOps, List.foldl_append]
  rw [hdevice, foldl_follow_peersOps key fun w hw => (hv.sound w hw).relayed,
    hprefix (fun _ _ => rfl) (fun _ _ => rfl), hup, hprefix (fun _ _ => rfl) (fun _ _ => rfl)]

def KernelPeer.Fresh (p : KernelPeer) : Prop :=
  ∃ age, p.handshakeAge = some age ∧ age ≤ endpointGrace

theorem arrives_loopback {current : Option Peer} {want : Peer}
    (h : isLoopback (arrives current want) = true) : arrives current want = want.endpoint := by
  cases current with
  | none => rfl
  | some current =>
    unfold arrives at h ⊢
    cases hkeep : keepObservedEndpoint current want with
    | false => simp only [hkeep, Bool.false_eq_true, if_false]
    | true =>
      simp only [hkeep, if_true] at h
      rw [not_loopback_of_keep hkeep] at h
      cases h

theorem arrives_fresh {p : KernelPeer} {want : Peer} (hdirect : want.relayed = false)
    (hsome : p.endpoint ≠ "") (hloop : isLoopback p.endpoint = false) (hfresh : p.Fresh) :
    arrives (some p.reported) want = p.endpoint := by
  rcases hfresh with ⟨age, hage, hrecent⟩
  by_cases hoffer : want.endpoint = ""
  · simp [arrives, keepObservedEndpoint, KernelPeer.reported, hdirect, hloop, hoffer]
  · by_cases hsame : p.endpoint = want.endpoint
    · simp [arrives, KernelPeer.reported, hsame]
    · simp [arrives, keepObservedEndpoint, KernelPeer.reported, hdirect, hloop, hoffer, hsome,
        hsame, hage, hrecent]

/-- After a plan for a valid interface, a peer points at a loopback socket only if it is wanted
relayed through that very socket; and a peer that is not relayed keeps an endpoint that was carrying
traffic. -/
theorem plan_endpoints (want : Interface) (k : Option Link) (chosen : Int)
    (hv : want.validate = .ok ()) :
    ∃ plan l, planFor want (observe k) = .ok plan ∧ run (execute chosen) k plan = some l ∧
      (∀ p ∈ l.peers, isLoopback p.endpoint = true →
        ∃ w ∈ want.peers, w.publicKey = p.publicKey ∧ w.relayed = true ∧
          p.endpoint = w.endpoint) ∧
      (∀ l₀, k = some l₀ → ∀ o ∈ l₀.peers, ∀ w ∈ want.peers, w.publicKey = o.publicKey →
        w.relayed = false → o.endpoint ≠ "" → isLoopback o.endpoint = false → o.Fresh →
        ∃ p ∈ l.peers, p.publicKey = o.publicKey ∧ p.endpoint = o.endpoint) := by
  have hvalid := (validate_eq_ok_iff want).1 hv
  refine ⟨_, _, bind_eq_ok.2 ⟨(), hv, rfl⟩, run_operations chosen want k, ?_, ?_⟩
  · intro p hp hloop
    have hplan := endpoint?_plan chosen hvalid k p.publicKey
    rw [Link.endpoint?, Link.peer?, Base.find?_of_nodup (Link.keys _) hp, Option.map_some] at hplan
    rcases Option.map_eq_some_iff.1 hplan.symm with ⟨w, hw, harrives⟩
    rcases mem_of_indexPeers hw with ⟨hmem, hkey⟩
    rw [← harrives] at hloop ⊢
    have hwanted := arrives_loopback hloop
    rw [hwanted] at hloop ⊢
    exact ⟨w, hmem, hkey, (hvalid.sound w hmem).relayed.trans hloop, rfl⟩
  · intro l₀ hk o ho w hw hkey hdirect hsome hloop hfresh
    subst hk
    have hcurrent : indexPeers (observe (some l₀)).peers o.publicKey = some o.reported := by
      rw [observe, indexPeers_reported, Link.peer?, Base.find?_of_nodup l₀.keys ho]
      rfl
    have hwant : indexPeers want.peers o.publicKey = some w := by
      rw [indexPeers, Base.find?_reverse_of_nodup hvalid.keys, ← hkey,
        Base.find?_of_nodup hvalid.keys hw]
    have hplan := endpoint?_plan chosen hvalid (some l₀) o.publicKey
    rw [hwant, hcurrent, Option.map_some, arrives_fresh hdirect hsome hloop hfresh] at hplan
    rcases Option.map_eq_some_iff.1 hplan with ⟨p, hp, hend⟩
    obtain ⟨hmem, hkey⟩ := Base.of_find? hp
    exact ⟨p, hmem, hkey, hend⟩

theorem plan_endpoints_crossed :
    uncrossed.validate = .ok () ∧
      ∃ plan l, planFor uncrossed (observe (some crossed)) = .ok plan ∧
        run (execute 0) (some crossed) plan = some l ∧
        (∀ p ∈ l.peers, isLoopback p.endpoint = true →
          ∃ w ∈ uncrossed.peers, w.publicKey = p.publicKey ∧ w.relayed = true ∧
            p.endpoint = w.endpoint) ∧
        ∃ p ∈ l.peers, p.publicKey = "a" ∧ p.endpoint = "192.0.2.9:7000" := by
  have hv : uncrossed.validate = .ok () := by decide +kernel
  rcases plan_endpoints uncrossed (some crossed) 0 hv with ⟨plan, l, hplan, hrun, hloop, hfresh⟩
  refine ⟨hv, plan, l, hplan, hrun, hloop, ?_⟩
  exact hfresh crossed rfl _ (.head _) _ (.head _) rfl rfl (by decide)
    (by decide +kernel) ⟨_, rfl, by decide⟩

end Meshp.Wgplan
