import Meshp.Tunnel.Egress

/-!
# The Lock Before the Route

A device that claims the default route under a policy of failing closed is to have
a lock on for as long as the claim stands. A pass therefore puts the lock on
before it claims. It gives them back the other way round, the route before the
lock, and the lock comes off even when the route did not: a device that refuses
everything is thought worse than one that leaks.
-/

namespace Meshp.Tunnel.FullTunnel

open Base (Calls run)
open Base.Calls (ensures_mono ensures_of_only only_all only_bind only_make)
open Netfilter (Ruleset)
open Netip (Prefix)
open Nftables (lockKey)

structure Watched where
  host : Host
  /-- The pass that last claimed the route had to fail closed. -/
  closed : Bool := false
  /-- A release took the lock off although the route was still claimed, and nothing has been locked
  or claimed since. -/
  lifted : Bool := false
  /-- The pass now running has put a lock on. -/
  secured : Bool := false

/-- What is written after a call that left the host as `h`. -/
def Watched.note (failClosed : Bool) (w : Watched) (h : Host) : Call → Watched
  | .add (.mark _) => { w with host := h, closed := failClosed, lifted := false }
  | .applyLock iface _ _ =>
    if iface = "" then { w with host := h, lifted := h.claimed, secured := false }
    else { w with host := h, lifted := false, secured := true }
  | _ => { w with host := h }

def watch (failClosed : Bool) (c : Call) (w : Watched) : Option Watched :=
  (act c w.host).map (w.note failClosed · c)

def Watched.begin (w : Watched) : Watched :=
  { w with secured := false }

structure Scene where
  watched : Watched
  claimed : Bool := false

namespace Scene

def points (r : Setup) (x : Scene) : Pass → List Watched
  | .apply p ok => (apply r x.claimed p).points (watch p.failClosed) ok x.watched.begin
  | .teardown observed ok => (teardown r observed).points (watch false) ok x.watched.begin

def next (r : Setup) (x : Scene) : Pass → Scene
  | .apply p ok =>
    let (result, watched) := (apply r x.claimed p).exec (watch p.failClosed) ok x.watched.begin
    ⟨watched, result.claimed⟩
  | .teardown observed ok =>
    { x with watched := ((teardown r observed).exec (watch false) ok x.watched.begin).2 }

end Scene

/-- A claim made to fail closed has a lock on it, unless a release took it off, and what this pass
has put on is on. -/
structure Guarded (w : Watched) : Prop where
  kept : w.host.claimed = true → w.closed = true → w.lifted = false → w.host.locked = true
  fresh : w.secured = true → w.host.locked = true

section Watch

variable {failClosed : Bool} {w w' : Watched}

theorem watch_passive {c : Call} (hc : Passive c) (w : Watched) :
    watch failClosed c w = some w := by
  have hact := act_passive hc w.host
  cases c with
  | applyLock iface carve dns | add p | delete p => exact hc.elim
  | _ => simp only [watch, hact]; rfl

theorem guarded_of_routing {h : Host} (hw : Guarded w) (hrules : h.rules = w.host.rules)
    (hclaimed : h.claimed = true → w.host.claimed = true) :
    Guarded { w with host := h } := by
  have hlocked : h.locked = w.host.locked := congrArg (Ruleset.has · lockKey) hrules
  refine ⟨fun hc hclosed hlifted => ?_, fun hsecured => ?_⟩
  · exact hlocked.trans (hw.kept (hclaimed hc) hclosed hlifted)
  · exact hlocked.trans (hw.fresh hsecured)

theorem claimed_of_delete {h : Host} {p : Part}
    (hc : (⟨h.rules, Function.update h.routing p false⟩ : Host).claimed = true) :
    h.claimed = true := by
  have hle : ∀ q, Function.update h.routing p false q = true → h.routing q = true := by
    intro q hq
    by_cases hqp : q = p
    · rw [hqp, Function.update_self] at hq
      cases hq
    · rwa [Function.update_of_ne hqp] at hq
  rcases Bool.or_eq_true_iff.1 hc with hc | hc
  · exact Bool.or_eq_true_iff.2 (.inl (hle _ hc))
  · exact Bool.or_eq_true_iff.2 (.inr (hle _ hc))

theorem guarded_watch {c : Call} (hw : Guarded w)
    (hmark : ∀ family, c = .add (.mark family) → failClosed = true → w.secured = true)
    (h : watch failClosed c w = some w') : Guarded w' := by
  obtain ⟨host, hact, rfl⟩ := Option.map_eq_some_iff.1 h
  cases c with
  | applyLock iface carve dns =>
    by_cases hiface : iface = ""
    · subst hiface
      cases (act_unlock carve dns).symm.trans hact
      -- A lock that comes off a claim is written down as lifted.
      refine ⟨fun hclaimed _ hlifted => ?_, fun hsecured => nomatch hsecured⟩
      exact absurd (hclaimed.symm.trans hlifted) (by decide)
    · have hlocked := (act_lock hiface hact).1
      have hnote : w.note failClosed host (.applyLock iface carve dns) =
          { w with host, lifted := false, secured := true } := if_neg hiface
      rw [hnote]
      exact ⟨fun _ _ _ => hlocked, fun _ => hlocked⟩
  | add p =>
    cases hact
    cases p with
    | mark family =>
      refine ⟨fun _ hclosed _ => hw.fresh (hmark family rfl hclosed), fun hsecured => ?_⟩
      exact hw.fresh hsecured
    | table family | suppress family => exact guarded_of_routing hw rfl id
  | delete p =>
    cases hact
    exact guarded_of_routing hw rfl claimed_of_delete
  | operate n op =>
    cases op with
    | destroyDevice => cases hact; exact guarded_of_routing hw rfl id
    | _ => cases hact; exact hw
  | _ => cases hact; exact hw

def Unclaiming (c : Call) : Prop :=
  ∀ family, c ≠ .add (.mark family)

theorem guarded_unclaiming {c : Call} (hc : Unclaiming c) (w w' : Watched) (hw : Guarded w)
    (h : watch failClosed c w = some w') : Guarded w' :=
  guarded_watch hw (fun family heq => absurd heq (hc family)) h

theorem secured_watch {iface : String} {c : Call} (hc : c ∈ claimCalls iface)
    (h : watch failClosed c w = some w') : w'.secured = w.secured := by
  obtain ⟨host, _, rfl⟩ := Option.map_eq_some_iff.1 h
  simp only [claimCalls, List.mem_cons, List.not_mem_nil, or_false] at hc
  rcases hc with rfl | rfl | rfl | rfl | rfl | rfl | rfl | rfl | rfl <;> rfl

end Watch

section Passes

variable {ok : Call → Bool} {w : Watched}

theorem only_release : Calls.Only Unclaiming release := by
  have hdelete : ∀ ps : List Part, Calls.Only Unclaiming (Calls.each (ps.map .delete)) := by
    intro ps
    refine Calls.only_each fun c hc family => ?_
    obtain ⟨p, _, rfl⟩ := List.mem_map.1 hc
    exact nofun
  refine only_bind (only_make fun _ => nofun) fun dialled => ?_
  cases dialled with
  | false => trivial
  | true =>
    refine only_bind (hdelete [.mark .ip, .suppress .ip, .mark .ip6, .suppress .ip6])
      fun rules => ?_
    refine only_bind (only_make fun _ => nofun) fun listed => ?_
    cases listed with
    | false => trivial
    | true => exact only_bind (hdelete [.table .ip, .table .ip6]) fun _ => trivial

theorem only_releaseEgress (r : Setup) (claimed : Bool) :
    Calls.Only Unclaiming (releaseEgress r claimed) := by
  cases claimed with
  | false => trivial
  | true =>
    simp only [releaseEgress, if_true]
    cases r.hasEgress with
    | true =>
      refine only_bind only_release fun routed => ?_
      cases r.hasLock with
      | true => exact only_bind (only_make fun _ h => by cases h) fun _ => trivial
      | false => trivial
    | false =>
      refine only_bind trivial fun routed => ?_
      cases r.hasLock with
      | true => exact only_bind (only_make fun _ h => by cases h) fun _ => trivial
      | false => trivial

theorem ensures_claim_guarded {failClosed : Bool} (iface : String) (hw : Guarded w)
    (hmet : failClosed = true → w.secured = true) :
    Calls.Ensures (watch failClosed) ok Guarded (fun _ t => Guarded t) (claim iface) w := by
  have honly : Calls.Only (· ∈ claimCalls iface) (claim iface) := only_all fun _ hc => hc
  refine ensures_mono (fun _ h => h.1) (fun _ _ h => h.1) (ensures_of_only
    (I := fun t => Guarded t ∧ (failClosed = true → t.secured = true)) honly ?_ ⟨hw, hmet⟩)
  intro c hc t t' ht h
  refine ⟨guarded_watch ht.1 (fun _ _ hclosed => ht.2 hclosed) h, fun hclosed => ?_⟩
  rw [secured_watch hc h]
  exact ht.2 hclosed

theorem ensures_egress_guarded {r : Setup} {claimed : Bool} {iface : String} (hiface : iface ≠ "")
    (own : List Prefix) (p : Input) (hw : Guarded w) :
    Calls.Ensures (watch p.failClosed) ok Guarded (fun _ t => Guarded t)
      (applyEgress r claimed iface own p) w := by
  unfold applyEgress
  split
  · split
    · exact hw
    · refine Calls.ensures_idle (watch_passive (c := .tunnelAddresses) trivial w) hw fun listed _ => ?_
      split
      · exact hw
      · rename_i carve _
        -- The claim, once the policy is met.
        have hclaim : ∀ t, Guarded t → (p.failClosed = true → t.secured = true) →
            Calls.Ensures (watch p.failClosed) ok Guarded (fun _ t => Guarded t)
              (claim iface >>= fun done =>
                if done = true then pure (true, []) else pure (claimed, ["egress"])) t := by
          intro t ht hmet
          refine Calls.ensures_seq (ensures_claim_guarded iface ht hmet) fun done t' ht' => ?_
          cases done <;> exact ht'
        by_cases hclosed : p.failClosed = true
        · simp only [lockFor, if_pos hclosed]
          refine Calls.ensures_make (fun t hok hact => ?_) (fun _ => ⟨hw, hw⟩)
          have ht : Guarded t := 
            guarded_unclaiming (c := .applyLock iface carve p.preventLeaks) (fun _ h => by cases h) w t hw hact
          refine ⟨ht, hclaim t ht fun _ => ?_⟩
          obtain ⟨host, _, rfl⟩ := Option.map_eq_some_iff.1 hact
          simp only [Watched.note, if_neg hiface]
        · simp only [lockFor, if_neg hclosed]
          exact hclaim w hw fun hclosed' => absurd hclosed' hclosed
  · exact Calls.ensures_seq (ensures_of_only (only_releaseEgress r claimed)
      (fun c hc => guarded_unclaiming hc) hw) fun _ _ h => h

theorem ensures_apply_guarded (r : Setup) (claimed : Bool) (p : Input) (hw : Guarded w) :
    Calls.Ensures (watch p.failClosed) ok Guarded (fun _ t => Guarded t) (apply r claimed p) w := by
  refine ensures_mono (fun _ => id) (fun result t ht => ?_)
    (ensures_apply (Q := fun _ t => Guarded t) (fun _ hc => watch_passive hc) hw (fun _ _ h => h)
      fun hname i _ _ => ensures_egress_guarded hname i.addresses p hw)
  cases hreached : result.reached with
  | true => exact ht.1 hreached
  | false =>
    rw [(ht.2 hreached).2]
    exact hw

theorem ensures_teardown_guarded (r : Setup) (observed : Wgplan.Observed) (hw : Guarded w) :
    Calls.Ensures (watch false) ok Guarded (fun _ t => Guarded t) (teardown r observed) w := by
  have honly : Calls.Only Unclaiming (teardown r observed) := by
    refine only_bind (only_make fun _ => nofun) fun _ => ?_
    refine only_bind (Calls.only_mono ?_ (only_withdraw r)) fun _ => ?_
    · rintro c hc family rfl
      exact hc
    · refine only_bind (only_make fun _ => nofun) fun found => ?_
      cases found with
      | false => trivial
      | true =>
        refine only_all fun c hc family => ?_
        obtain ⟨n, _, rfl⟩ := List.mem_mapIdx.1 hc
        exact nofun
  exact ensures_of_only honly (fun c hc => guarded_unclaiming hc) hw

end Passes

theorem guarded_begin {w : Watched} (hw : Guarded w) : Guarded w.begin :=
  ⟨hw.kept, fun hsecured => nomatch hsecured⟩

theorem guarded_next {r : Setup} {x : Scene} {a : Pass} (hx : Guarded x.watched) :
    Guarded (x.next r a).watched := by
  cases a with
  | apply p ok =>
    exact Calls.exec_of_ensures (ensures_apply_guarded r x.claimed p (guarded_begin hx))
  | teardown observed ok =>
    exact Calls.exec_of_ensures (ensures_teardown_guarded r observed (guarded_begin hx))

/-- At every moment between two calls of any run: while the default route is claimed, a lock is on
if the pass that last claimed it had to fail closed and no release has taken the lock off since, or
if the pass now running has put one on. -/
theorem claimed_route_locked (r : Setup) (host : Host) (passes : List Pass) (last : Pass)
    (w : Watched) (moment : w ∈ (run (Scene.next r) ⟨⟨host, false, false, false⟩, false⟩
      passes).points r last) :
    w.host.claimed = true → (w.closed = true ∧ w.lifted = false) ∨ w.secured = true →
      w.host.locked = true := by
  have hstart : Guarded ⟨host, false, false, false⟩ :=
    ⟨fun _ hclosed => absurd hclosed Bool.false_ne_true,
      fun hsecured => absurd hsecured Bool.false_ne_true⟩
  have hrun : Guarded (run (Scene.next r) ⟨⟨host, false, false, false⟩, false⟩ passes).watched :=
    Base.run_inv (fun x : Scene => Guarded x.watched) (fun x a hx => guarded_next hx) _ passes hstart
  have hw : Guarded w := by
    cases last with
    | apply p ok =>
      exact Calls.points_of_ensures (ensures_apply_guarded r _ p (guarded_begin hrun)) w moment
    | teardown observed ok =>
      exact Calls.points_of_ensures (ensures_teardown_guarded r observed (guarded_begin hrun)) w
        moment
  rintro hclaimed (⟨hclosed, hlifted⟩ | hsecured)
  · exact hw.kept hclaimed hclosed hlifted
  · exact hw.fresh hsecured

def secondPass (policy : Wire.FailClosed) (last : Pass) : List Watched :=
  (run (Scene.next portable) ⟨⟨bare, false, false, false⟩, false⟩
    [.apply (throughExit policy) fun _ => true]).points portable last

theorem claimed_route_locked_laptop :
    ∃ w ∈ secondPass .enforced (.apply (throughExit .enforced) fun _ => true),
      w.host.claimed = true ∧ w.closed = true ∧ w.host.locked = true := by
  have hmoment : ∃ w ∈ secondPass .enforced (.apply (throughExit .enforced) fun _ => true),
      (w.host.claimed && w.closed && !w.lifted) = true :=
    List.any_eq_true.1 (by decide +kernel)
  obtain ⟨w, hw, h⟩ := hmoment
  simp only [Bool.and_eq_true, Bool.not_eq_true'] at h
  obtain ⟨⟨hclaimed, hclosed⟩, hlifted⟩ := h
  exact ⟨w, hw, hclaimed, hclosed,
    claimed_route_locked portable bare _ _ w hw hclaimed (.inl ⟨hclosed, hlifted⟩)⟩

/-- Two moments without a lock. A release that cannot delete a rule takes the lock off all the same;
and a policy that begins to ask for a lock finds the route claimed without one. -/
theorem unlocked_while_claimed :
    (secondPass .enforced (.apply direct fun c => c ≠ .delete (.mark .ip))).any
        (fun w => w.host.claimed && w.closed && !w.host.locked) = true ∧
      (throughExit .enforced).failClosed = true ∧
      (secondPass .disabled (.apply (throughExit .enforced) fun _ => true)).any
        (fun w => w.host.claimed && !w.host.locked) = true := by
  decide +kernel

end Meshp.Tunnel.FullTunnel
