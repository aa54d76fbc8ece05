import Meshp.Tunnel.Egress

/-!
# Several Memberships and One Default Route

The lock, the rules that lead to the egress table and the routes in that table
belong to the host, and every membership that sends everything through its tunnel
claims the same ones. A lock replaces the one before. A route that is there
already is not replaced: adding it again counts as done. And a release takes all
of it away, whoever put it there.
-/

namespace Meshp.Tunnel.Sharing

open Base (Calls run Along)
open Base.Calls (ensures_bind ensures_idle ensures_make_total make outcome)
open FullTunnel (Call Input Part Setup carveout claim claimCalls lockFor release)
open Function (update update_of_ne update_self)
open Netfilter (IpFamily Packet Ruleset loadLines)
open Netip (Prefix)
open Nftables (lockKey lockTable renderLock)

/-- The host, as far as egress goes: the interface each default route of the egress table leads to,
and the rules that lead there. -/
structure Shared where
  rules : Ruleset
  table : IpFamily → Option String
  suppress : IpFamily → Bool
  mark : IpFamily → Bool

namespace Shared

/-- Where a packet goes that is not WireGuard's own and has no more specific route, on a host whose
own default route is `direct`. -/
def leavesBy (h : Shared) (f : IpFamily) (direct : Option String) : Option String :=
  if h.mark f then h.table f <|> direct else direct

def locked (h : Shared) : Bool :=
  h.rules.named lockKey ≠ []

def Permits (h : Shared) (iface : String) : Prop :=
  ∀ p : Packet, p.oif = iface → Ruleset.passes (h.rules.named lockKey) .output p = true

end Shared

def via (iface : String) : Call → Shared → Option Shared
  | .applyLock i carve preventDNSLeaks, h => do
    let lines ← (renderLock ⟨i, carve.endpoints, carve.prefixes.reduceOption,
      preventDNSLeaks⟩).toOption
    let rules ← loadLines h.rules lines
    pure { h with rules }
  | .add (.table f), h =>
    some { h with table := update h.table f (h.table f <|> some iface) }
  | .add (.suppress f), h => some { h with suppress := update h.suppress f true }
  | .add (.mark f), h => some { h with mark := update h.mark f true }
  | .delete (.table f), h => some { h with table := update h.table f none }
  | .delete (.suppress f), h => some { h with suppress := update h.suppress f false }
  | .delete (.mark f), h => some { h with mark := update h.mark f false }
  | _, h => some h

/-- What a pass does as far as egress goes: a call to the kernel, reading the flag, which succeeds
if it is set, and writing it. -/
inductive Act
  | kernel (c : Call)
  | ask
  | set (claimed : Bool)

/-- `releaseEgress`. -/
def yieldEgress (r : Setup) : Calls Act Bool := do
  if ← make .ask then
    let routed ← if r.hasEgress then release.rename .kernel else pure true
    let unlocked ← if r.hasLock then make (.kernel (.applyLock "" ⟨[], []⟩ false))
      else pure true
    if routed && unlocked then make (.set false) else pure true
  else pure true

/-- `applyEgress`, and whether egress applied. -/
def egressStep (r : Setup) (p : Input) (own : List Prefix) : Calls Act Bool := do
  if p.wantsEgress then
    if r.hasEgress = false ∨ (p.failClosed = true ∧ r.hasLock = false) then pure false
    else
      let listed ← make (.kernel .tunnelAddresses)
      match carveout r p (if listed then p.tunnels ++ own else own) with
      | none => pure false
      | some carve =>
        if ← (lockFor p r.membership.interfaceName carve).rename .kernel then
          if ← (claim r.membership.interfaceName).rename .kernel then make (.set true)
          else pure false
        else pure false
  else yieldEgress r

/-- The host, and for each membership the flag of its reconciler and whether the claim it stands for
was made to fail closed. -/
structure Scene (ι : Type) where
  host : Shared
  claimed : ι → Bool := fun _ => false
  closed : ι → Bool := fun _ => false

variable {τ ι : Type} [DecidableEq ι]

def act (r : ι → Setup) (i : ι) (failClosed : Bool) : Act → Scene ι → Option (Scene ι)
  | .kernel c, s =>
    (via (r i).membership.interfaceName c s.host).map fun host => { s with host }
  | .ask, s => if s.claimed i then some s else none
  | .set claimed, s => some
      { s with
        claimed := update s.claimed i claimed
        closed := update s.closed i (claimed && failClosed) }

structure Process (ι : Type) where
  member : ι
  wanted : Bool
  failClosed : Bool
  /-- When it began, it wanted egress or its membership held a claim. -/
  engaged : Bool
  program : Calls Act Bool

structure Ended (ι : Type) where
  member : ι
  wanted : Bool
  failClosed : Bool
  applied : Bool
  deriving DecidableEq

/-- The memberships, and the passes under way on the threads `τ`. -/
structure World (τ ι : Type) where
  scene : Scene ι
  running : τ → Option (Process ι) := fun _ => none
  /-- The pass that ended with the last move, if one did. -/
  ended : Option (Ended ι) := none

inductive Move (τ ι : Type)
  /-- A thread comes to the egress step of a pass. -/
  | begin (thread : τ) (member : ι) (p : Input) (own : List Prefix)
  /-- A thread makes its next call, or its pass ends. -/
  | next (thread : τ)

def Scene.pass (r : ι → Setup) (s : Scene ι) (i : ι) (p : Input) (own : List Prefix) :
    Process ι where
  member := i
  wanted := p.wantsEgress
  failClosed := p.failClosed
  engaged := p.wantsEgress || s.claimed i
  program := egressStep (r i) p own

def step [DecidableEq τ] (r : ι → Setup) (w : World τ ι) : Move τ ι → World τ ι
  | .begin thread i p own =>
    if w.running thread = none ∧ (r i).membership.interfaceName ≠ "" then
      { w with
        running := update w.running thread (some (w.scene.pass r i p own))
        ended := none }
    else { w with ended := none }
  | .next thread =>
    match w.running thread with
    | none => { w with ended := none }
    | some q =>
      match q.program with
      | .done applied =>
        { w with
          running := update w.running thread none
          ended := some ⟨q.member, q.wanted, q.failClosed, applied⟩ }
      | .call c next =>
        let (success, scene) :=
          outcome (act r q.member q.failClosed) (fun _ => true) c w.scene
        { scene
          running := update w.running thread
            (some { q with program := next success })
          ended := none }

def Carried (r : ι → Setup) (w : World τ ι) : Prop :=
  ∀ e ∈ w.ended, e.wanted = true → e.applied = true →
    (∀ f direct, w.scene.host.leavesBy f direct = some (r e.member).membership.interfaceName) ∧
      w.scene.host.Permits (r e.member).membership.interfaceName ∧
      (e.failClosed = true → w.scene.host.locked = true)

def Closed (r : ι → Setup) (w : World τ ι) : Prop :=
  ∀ i, w.scene.claimed i = true → w.scene.closed i = true →
    (∀ thread, ∀ q ∈ w.running thread, q.member ≠ i) →
      w.scene.host.locked = true ∧ w.scene.host.Permits (r i).membership.interfaceName

def Alone (w : World τ ι) : Move τ ι → Prop
  | .begin _ i p _ =>
    (∀ thread, ∀ q ∈ w.running thread, q.member ≠ i) ∧
      (p.wantsEgress = true ∨ w.scene.claimed i = true →
        (∀ j, j ≠ i → w.scene.claimed j = false) ∧
          ∀ thread, ∀ q ∈ w.running thread, q.engaged = false)
  | .next _ => True

section Calls

variable {h h' : Shared} {iface : String}

theorem ensures_claim (iface : String) (h : Shared) :
    Calls.Ensures (via iface) (fun _ => true) (fun _ => True)
      (fun done t => done = true ∧ t =
        { rules := h.rules, table := fun f => h.table f <|> some iface
          suppress := fun _ => true, mark := fun _ => true })
      (claim iface) h := by
  refine Calls.ensures_all_total (g := fun c t => (via iface c t).getD t) (fun _ _ => rfl)
    (fun c hc t => ?_) (fun _ _ _ _ => trivial) trivial ⟨rfl, ?_⟩
  · simp only [claimCalls, List.mem_cons, List.not_mem_nil, or_false] at hc
    rcases hc with rfl | rfl | rfl | rfl | rfl | rfl | rfl | rfl | rfl <;> rfl
  · simp only [claimCalls, List.foldl_cons, List.foldl_nil, via, Option.getD_some]
    refine Shared.mk.injEq .. ▸ ⟨rfl, funext fun f => ?_, funext fun f => ?_, funext fun f => ?_⟩
    · cases f <;> simp [update]
    · cases f <;> simp [update]
    · cases f <;> simp [update]

theorem ensures_release (iface : String) (h : Shared) :
    Calls.Ensures (via iface) (fun _ => true) (fun _ => True)
      (fun done t => done = true ∧ t =
        { rules := h.rules, table := fun _ => none, suppress := fun _ => false
          mark := fun _ => false })
      release h := by
  have hdelete : ∀ ps : List Part, ∀ c ∈ ps.map Call.delete, ∀ t : Shared,
      via iface c t = some ((via iface c t).getD t) := by
    intro ps c hc t
    obtain ⟨p, _, rfl⟩ := List.mem_map.1 hc
    cases p <;> rfl
  refine ensures_idle rfl trivial fun dialled hdialled => ?_
  rw [hdialled rfl, if_pos rfl]
  refine ensures_bind (Calls.ensures_each_total
    (g := fun c t => (via iface c t).getD t) (fun _ _ => rfl)
    (hdelete [.mark .ip, .suppress .ip, .mark .ip6, .suppress .ip6]) (fun _ _ _ _ => trivial)
    trivial ?_)
  refine ensures_idle rfl trivial fun listed hlisted => ?_
  rw [hlisted rfl, if_pos rfl]
  refine ensures_bind (Calls.ensures_each_total
    (g := fun c t => (via iface c t).getD t) (fun _ _ => rfl) (hdelete [.table .ip, .table .ip6])
    (fun _ _ _ _ => trivial) trivial ⟨rfl, ?_⟩)
  simp only [List.foldl_cons, List.foldl_nil, via, Option.getD_some]
  refine Shared.mk.injEq .. ▸ ⟨rfl, funext fun f => ?_, funext fun f => ?_, funext fun f => ?_⟩
  · cases f <;> simp [update]
  · cases f <;> simp [update]
  · cases f <;> simp [update]

theorem via_lock {carve : Egress.Carveout} {dns : Bool} {i : String} (hi : i ≠ "")
    (hvia : via iface (.applyLock i carve dns) h = some h') :
    h'.table = h.table ∧
      ∃ spec, spec.interface = i ∧ h'.rules.named lockKey = [lockTable spec] := by
  simp only [via] at hvia
  obtain ⟨lines, hlines, hvia⟩ := Option.bind_eq_some_iff.1 hvia
  obtain ⟨rules, hrules, hvia⟩ := Option.bind_eq_some_iff.1 hvia
  cases hvia
  have hrender := Base.toOption_eq_some.1 hlines
  exact ⟨rfl, _, rfl, Nftables.named_of_loadLines hrender hi hrules⟩

theorem via_unlock (h : Shared) :
    via iface (.applyLock "" ⟨[], []⟩ false) h = some { h with rules := h.rules.without lockKey } := by
  have hlines : renderLock ⟨"", [], [], false⟩ = .ok ((Netfilter.remove lockKey).map some) := rfl
  change (loadLines h.rules ((Netfilter.remove lockKey).map some) >>=
    fun rules => some { h with rules }) = _
  rw [Nftables.loadLines_removed hlines rfl]
  rfl

theorem ensures_lockFor (p : Input) (carve : Egress.Carveout) {i : String} (hi : i ≠ "")
    (h : Shared) :
    Calls.Ensures (via iface) (fun _ => true) (fun _ => True)
      (fun done t => (done = false → t = h) ∧ t.table = h.table ∧
        (p.failClosed = false → t = h) ∧ (done = true → p.failClosed = true →
          ∃ spec, spec.interface = i ∧ t.rules.named lockKey = [lockTable spec]))
      (lockFor p i carve) h := by
  unfold lockFor
  by_cases hclosed : p.failClosed = true
  · rw [if_pos hclosed]
    have hno : p.failClosed = false → False := by
      rw [hclosed]
      exact fun hfalse => nomatch hfalse
    refine ⟨fun t _ hvia => ⟨trivial, ?_⟩, fun _ => ⟨trivial, ?_⟩⟩
    · have ⟨htable, hspec⟩ := via_lock hi hvia
      exact ⟨nofun, htable, fun hopen => (hno hopen).elim, fun _ _ => hspec⟩
    · exact ⟨fun _ => rfl, rfl, fun _ => rfl, nofun⟩
  · rw [if_neg hclosed]
    exact ⟨fun _ => rfl, rfl, fun _ => rfl, fun _ hc => absurd hc hclosed⟩

end Calls

def LockOf (r : Setup) (h : Shared) : Prop :=
  h.rules.named lockKey = [] ∨ r.hasLock = true ∧
    ∃ spec, spec.interface = r.membership.interfaceName ∧
      h.rules.named lockKey = [lockTable spec]

structure Owner (r : Setup) (h : Shared) : Prop where
  table : ∀ f, h.table f = some r.membership.interfaceName
  mark : ∀ f, h.mark f = true
  lock : LockOf r h
  egress : r.hasEgress = true

/-- At most one membership has claimed the host, and it is as that one left it; with no claim there
is neither lock nor route. -/
structure Held (r : ι → Setup) (s : Scene ι) : Prop where
  one : ∀ i j, s.claimed i = true → s.claimed j = true → i = j
  clean : (∀ i, s.claimed i = false) → s.host.rules.named lockKey = [] ∧ ∀ f, s.host.table f = none
  owner : ∀ i, s.claimed i = true →
    Owner (r i) s.host ∧ (s.closed i = true → s.host.locked = true)

def Others (i : ι) (s : Scene ι) : Prop :=
  ∀ j, j ≠ i → s.claimed j = false

def Ends (r : ι → Setup) (i : ι) (wanted failClosed applied : Bool) (s : Scene ι) : Prop :=
  Held r s ∧ (wanted = true → applied = true →
    Owner (r i) s.host ∧ (failClosed = true → s.host.locked = true))

section Owning

variable {r : ι → Setup} {s : Scene ι} {i : ι} {failClosed : Bool}

theorem LockOf.permits {r : Setup} {h : Shared} (hl : LockOf r h) :
    h.Permits r.membership.interfaceName := by
  intro p hp
  rcases hl with hnone | ⟨_, spec, hspec, hnamed⟩
  · rw [hnone]
    rfl
  · rw [hnamed, Ruleset.passes, List.all_cons, List.all_nil, Bool.and_true,
      Nftables.passes_lockTable, Bool.or_eq_true]
    left
    exact Nftables.hits_openRules.2 (.inr (.inl (hp.trans hspec.symm)))

theorem Owner.leavesBy {r : Setup} {h : Shared} (ho : Owner r h) (f : IpFamily)
    (direct : Option String) : h.leavesBy f direct = some r.membership.interfaceName := by
  unfold Shared.leavesBy
  rw [ho.mark f, ho.table f]
  rfl

theorem Held.available (h : Held r s) (ho : Others i s) :
    (∀ f, s.host.table f = none ∨ s.host.table f = some (r i).membership.interfaceName) ∧
      LockOf (r i) s.host := by
  cases hi : s.claimed i with
  | true =>
    have hown := (h.owner i hi).1
    exact ⟨fun f => .inr (hown.table f), hown.lock⟩
  | false =>
    have hall : ∀ j, s.claimed j = false := by
      intro j
      by_cases hj : j = i
      · rw [hj]
        exact hi
      · exact ho j hj
    have hclean := h.clean hall
    exact ⟨fun f => .inl (hclean.2 f), .inl hclean.1⟩

theorem ensures_kernel {α : Type} {p : Calls Call α} {Q : α → Shared → Prop}
    {R : α → Scene ι → Prop} (ho : Others i s)
    (h : Calls.Ensures (via (r i).membership.interfaceName) (fun _ => true) (fun _ => True) Q p
      s.host)
    (hR : ∀ a host, Q a host → R a { s with host }) :
    Calls.Ensures (act r i failClosed) (fun _ => true) (Others i) R (p.rename .kernel) s := by
  refine Calls.ensures_rename ?_
  induction p generalizing s with
  | done a => exact hR a s.host h
  | call c next ih =>
    constructor
    · intro s' hok hact
      obtain ⟨host, hvia, rfl⟩ := Option.map_eq_some_iff.1 hact
      exact ⟨ho, ih (s := { s with host }) true ho (h.1 host rfl hvia).2 hR⟩
    · intro hfails
      rcases hfails with hno | hno
      · cases hno
      · exact ⟨ho, ih false ho (h.2 (.inr (Option.map_eq_none_iff.1 hno))).2 hR⟩

theorem held_set (ho : Others i s) (hown : Owner (r i) s.host)
    (hlocked : failClosed = true → s.host.locked = true) :
    Ends r i true failClosed true
      { s with
        claimed := update s.claimed i true
        closed := update s.closed i (true && failClosed) } := by
  have honly : ∀ j, update s.claimed i true j = true → j = i := by
    intro j hj
    by_contra hne
    rw [update_of_ne hne, ho j hne] at hj
    cases hj
  refine ⟨⟨fun j k hj hk => (honly j hj).trans (honly k hk).symm, fun hall => ?_, fun j hj => ?_⟩,
    fun _ _ => ⟨hown, hlocked⟩⟩
  · have hi := hall i
    simp only [update_self] at hi
    cases hi
  · rw [honly j hj]
    refine ⟨hown, fun hclosed => hlocked ?_⟩
    simpa using hclosed

theorem ensures_wanting {p : Input} (own : List Prefix) (hs : Held r s) (ho : Others i s)
    (hname : (r i).membership.interfaceName ≠ "") (hwants : p.wantsEgress = true) :
    Calls.Ensures (act r i p.failClosed) (fun _ => true) (Others i)
      (Ends r i true p.failClosed) (egressStep (r i) p own) s := by
  have hstopped : Ends r i true p.failClosed false s := ⟨hs, fun _ hno => nomatch hno⟩
  obtain ⟨htable, hlock⟩ := hs.available ho
  unfold egressStep
  rw [if_pos hwants]
  by_cases hblocked : (r i).hasEgress = false ∨ (p.failClosed = true ∧ (r i).hasLock = false)
  · rw [if_pos hblocked]
    exact hstopped
  rw [if_neg hblocked]
  push Not at hblocked
  have hegress : (r i).hasEgress = true := Bool.eq_true_of_not_eq_false hblocked.1
  refine ensures_idle rfl ho fun listed _ => ?_
  split
  · exact hstopped
  · rename_i carve hcarve
    refine ensures_bind (ensures_kernel ho (ensures_lockFor p carve hname s.host) ?_)
    rintro secured host ⟨hrefused, hsame, hopen, hspec⟩
    cases secured with
    | false =>
      rw [hrefused rfl]
      exact hstopped
    | true =>
      -- Whatever lock is in force now is the membership's own.
      have hlock' : LockOf (r i) host ∧ (p.failClosed = true → host.locked = true) := by
        cases hclosed : p.failClosed with
        | true =>
          obtain ⟨spec, hi, hnamed⟩ := hspec rfl hclosed
          have hhas := Bool.eq_true_of_not_eq_false (hblocked.2 hclosed)
          refine ⟨.inr ⟨hhas, spec, hi, hnamed⟩, fun _ => ?_⟩
          unfold Shared.locked
          rw [hnamed]
          exact decide_eq_true (List.cons_ne_nil _ _)
        | false =>
          rw [hopen hclosed]
          exact ⟨hlock, nofun⟩
      rw [if_pos rfl]
      refine ensures_bind (ensures_kernel (s := { s with host }) ho
        (ensures_claim _ host) ?_)
      rintro done host' ⟨rfl, rfl⟩
      rw [if_pos rfl]
      refine ensures_make_total rfl rfl (fun j hj => ?_) (held_set (s := { s with host := _ }) ho
        ⟨fun f => ?_, fun _ => rfl, hlock'.1, hegress⟩ hlock'.2)
      · exact (update_of_ne hj ..).trans (ho j hj)
      · change (host.table f <|> some _) = _
        rw [hsame]
        rcases htable f with hf | hf <;> rw [hf] <;> rfl

theorem ensures_yielding (hs : Held r s) (ho : Others i s) (hi : s.claimed i = true)
    (failClosed : Bool) :
    Calls.Ensures (act r i failClosed) (fun _ => true) (Others i)
      (Ends r i false failClosed) (yieldEgress (r i)) s := by
  have hown := (hs.owner i hi).1
  refine ensures_make_total rfl (if_pos hi) ho ?_
  rw [if_pos rfl, if_pos hown.egress]
  refine ensures_bind (ensures_kernel ho (ensures_release _ s.host) ?_)
  rintro routed host ⟨rfl, rfl⟩
  -- With the flag unset there is neither lock nor route.
  have hclean : ∀ host : Shared, host.rules.named lockKey = [] → (∀ f, host.table f = none) →
      Calls.Ensures (act r i failClosed) (fun _ => true) (Others i)
        (Ends r i false failClosed) (make (.set false)) { s with host } := by
    intro host hnamed hroutes
    have hall : ∀ j, update s.claimed i false j = false := by
      intro j
      by_cases hj : j = i
      · rw [hj]
        exact update_self ..
      · exact (update_of_ne hj ..).trans (ho j hj)
    refine ensures_make_total (f := pure) rfl rfl (fun j _ => hall j)
      ⟨⟨fun j k hj => ?_, fun _ => ⟨hnamed, hroutes⟩, fun j hj => ?_⟩, nofun⟩
    · exact absurd (hj.symm.trans (hall j)) (by decide)
    · exact absurd (hj.symm.trans (hall j)) (by decide)
  by_cases hlock : (r i).hasLock = true
  · simp only [if_pos hlock]
    exact ensures_make_total rfl (congrArg (Option.map _) (via_unlock ..)) ho
      (hclean _ (Ruleset.named_without_self ..) fun _ => rfl)
  · simp only [if_neg hlock]
    rcases hown.lock with hnone | ⟨hhas, _⟩
    · exact hclean _ hnone fun _ => rfl
    · exact absurd hhas hlock

end Owning

/-- A pass that neither wants egress nor has anything to release: it has yet to find that out, or it
is over. -/
structure Idle (r : ι → Setup) (s : Scene ι) (q : Process ι) : Prop where
  unwanted : q.wanted = false
  unclaimed : s.claimed q.member = false
  program : q.program = yieldEgress (r q.member) ∨ ∃ applied, q.program = .done applied

/-- At most one pass under way has to do with egress. It is on its way to an owned host, and the
others are idle. -/
structure Tidy (r : ι → Setup) (w : World τ ι) : Prop where
  idle : ∀ thread, ∀ q ∈ w.running thread, q.engaged = false → Idle r w.scene q
  busy : ∀ thread, ∀ q ∈ w.running thread, q.engaged = true →
    Others q.member w.scene ∧
      Calls.Ensures (act r q.member q.failClosed) (fun _ => true) (Others q.member)
        (Ends r q.member q.wanted q.failClosed) q.program w.scene ∧
      ∀ thread', ∀ q' ∈ w.running thread', thread' ≠ thread →
        q'.engaged = false ∧ q'.member ≠ q.member
  held : (∀ thread, ∀ q ∈ w.running thread, q.engaged = false) → Held r w.scene
  carried : Carried r w

section Steps

variable [DecidableEq τ] {r : ι → Setup} {w : World τ ι}

variable {q : Process ι} {thread : τ}

omit [DecidableEq ι] in
theorem mem_update {q' : Process ι} {thread' : τ}
    (h : q' ∈ update w.running thread (some q) thread') :
    thread' = thread ∧ q' = q ∨ thread' ≠ thread ∧ q' ∈ w.running thread' := by
  by_cases ht : thread' = thread
  · rw [ht, update_self] at h
    exact .inl ⟨ht, (Option.some.inj h).symm⟩
  · rw [update_of_ne ht] at h
    exact .inr ⟨ht, h⟩

theorem tidy_begin (h : Tidy r w) {i : ι} {p : Input} {own : List Prefix}
    (hfree : w.running thread = none) (hname : (r i).membership.interfaceName ≠ "")
    (halone : Alone w (.begin thread i p own)) :
    Tidy r { w with
      running := update w.running thread (some (w.scene.pass r i p own))
      ended := none } := by
  obtain ⟨hother, hengaged⟩ := halone
  by_cases he : p.wantsEgress = true ∨ w.scene.claimed i = true
  · obtain ⟨hunclaimed, hnone⟩ := hengaged he
    have hheld := h.held hnone
    have hset : (w.scene.pass r i p own).engaged = true := by
      simpa [Scene.pass] using he
    have hprogram : Calls.Ensures (act r i p.failClosed) (fun _ => true) (Others i)
        (Ends r i p.wantsEgress p.failClosed) (egressStep (r i) p own) w.scene := by
      cases hwants : p.wantsEgress with
      | true => exact ensures_wanting own hheld hunclaimed hname hwants
      | false =>
        have hclaimed := he.resolve_left (by rw [hwants]; exact Bool.false_ne_true)
        unfold egressStep
        rw [if_neg (by rw [hwants]; exact Bool.false_ne_true)]
        exact ensures_yielding hheld hunclaimed hclaimed p.failClosed
    refine ⟨fun thread' q hq hidle => ?_, fun thread' q hq hbusy => ?_, fun hall => ?_, nofun⟩
    · rcases mem_update hq with ⟨_, rfl⟩ | ⟨_, hq⟩
      · rw [hset] at hidle
        cases hidle
      · exact h.idle thread' q hq hidle
    · rcases mem_update hq with ⟨rfl, rfl⟩ | ⟨_, hq⟩
      · refine ⟨hunclaimed, hprogram, fun thread'' q' hq' hne => ?_⟩
        rcases mem_update hq' with ⟨heq, _⟩ | ⟨_, hq'⟩
        · exact absurd heq hne
        · exact ⟨hnone thread'' q' hq', hother thread'' q' hq'⟩
      · rw [hnone thread' q hq] at hbusy
        cases hbusy
    · have hself := hall thread (w.scene.pass r i p own) (update_self ..)
      rw [hset] at hself
      cases hself
  · push Not at he
    have hwants : p.wantsEgress = false := Bool.eq_false_iff.2 he.1
    have hclaimed : w.scene.claimed i = false := Bool.eq_false_iff.2 he.2
    have hunset : (w.scene.pass r i p own).engaged = false := by
      simp [Scene.pass, hwants, hclaimed]
    refine ⟨fun thread' q hq hidle => ?_, fun thread' q hq hbusy => ?_, fun hall => ?_, nofun⟩
    · rcases mem_update hq with ⟨_, rfl⟩ | ⟨_, hq⟩
      · refine ⟨hwants, hclaimed, .inl ?_⟩
        change egressStep (r i) p own = yieldEgress (r i)
        unfold egressStep
        rw [if_neg (by rw [hwants]; exact Bool.false_ne_true)]
      · exact h.idle thread' q hq hidle
    · rcases mem_update hq with ⟨_, rfl⟩ | ⟨_, hq⟩
      · rw [hunset] at hbusy
        cases hbusy
      · obtain ⟨ho, hensures, hrest⟩ := h.busy thread' q hq hbusy
        refine ⟨ho, hensures, fun thread'' q' hq' hne => ?_⟩
        rcases mem_update hq' with ⟨_, rfl⟩ | ⟨_, hq'⟩
        · exact ⟨hunset, fun heq => hother thread' q hq heq.symm⟩
        · exact hrest thread'' q' hq' hne
    · refine h.held fun thread' q hq => hall thread' q ?_
      have ht : thread' ≠ thread := by
        rintro rfl
        rw [hfree] at hq
        cases hq
      exact (update_of_ne ht ..).trans hq

theorem tidy_call (h : Tidy r w) (hq : w.running thread = some q) {c : Act}
    {next : Bool → Calls Act Bool} (hprogram : q.program = .call c next) {success : Bool}
    {scene : Scene ι}
    (hout : outcome (act r q.member q.failClosed) (fun _ => true) c w.scene = (success, scene)) :
    Tidy r
      { scene
        running := update w.running thread (some { q with program := next success })
        ended := none } := by
  cases he : q.engaged with
  | true =>
    obtain ⟨_, hensures, hrest⟩ := h.busy thread q hq he
    rw [hprogram] at hensures
    have houtcome := Calls.ensures_outcome hensures
    rw [hout] at houtcome
    obtain ⟨hunclaimed, hnext⟩ := houtcome
    refine ⟨fun thread' q' hq' hidle => ?_, fun thread' q' hq' hbusy => ?_, fun hall => ?_, nofun⟩
    · rcases mem_update hq' with ⟨_, rfl⟩ | ⟨ht, hq'⟩
      · cases hidle
      · have hother := h.idle thread' q' hq' hidle
        exact ⟨hother.unwanted, hunclaimed _ (hrest thread' q' hq' ht).2, hother.program⟩
    · rcases mem_update hq' with ⟨rfl, rfl⟩ | ⟨ht, hq'⟩
      · refine ⟨hunclaimed, hnext, fun thread'' q'' hq'' hne => ?_⟩
        rcases mem_update hq'' with ⟨heq, _⟩ | ⟨_, hq''⟩
        · exact absurd heq hne
        · exact hrest thread'' q'' hq'' hne
      · rw [(hrest thread' q' hq' ht).1] at hbusy
        cases hbusy
    · have hself := hall thread _ (update_self ..)
      cases hself
  | false =>
    -- The one call an idle pass makes is to find that nothing is claimed.
    have hidle := h.idle thread q hq he
    rcases hidle.program with hyield | ⟨applied, hdone⟩
    · rw [hprogram] at hyield
      obtain ⟨rfl, hnext⟩ := Calls.call.inj hyield
      have hask : outcome (act r q.member q.failClosed) (fun _ => true) Act.ask w.scene =
          (false, w.scene) := by
        simp [outcome, act, hidle.unclaimed]
      cases hask.symm.trans hout
      refine ⟨fun thread' q' hq' hidle' => ?_, fun thread' q' hq' hbusy => ?_, fun hall => ?_,
        nofun⟩
      · rcases mem_update hq' with ⟨_, rfl⟩ | ⟨_, hq'⟩
        · exact ⟨hidle.unwanted, hidle.unclaimed, .inr ⟨true, by rw [hnext]; rfl⟩⟩
        · exact h.idle thread' q' hq' hidle'
      · rcases mem_update hq' with ⟨_, rfl⟩ | ⟨_, hq'⟩
        · cases hbusy
        · obtain ⟨ho, hensures, hrest⟩ := h.busy thread' q' hq' hbusy
          refine ⟨ho, hensures, fun thread'' q'' hq'' hne => ?_⟩
          rcases mem_update hq'' with ⟨rfl, rfl⟩ | ⟨_, hq''⟩
          · exact ⟨rfl, (hrest thread'' q hq hne).2⟩
          · exact hrest thread'' q'' hq'' hne
      · refine h.held fun thread' q' hq' => ?_
        by_cases ht : thread' = thread
        · rw [ht, hq] at hq'
          cases hq'
          exact he
        · exact hall thread' q' ((update_of_ne ht ..).trans hq')
    · rw [hprogram] at hdone
      cases hdone

theorem tidy_end (h : Tidy r w) (hq : w.running thread = some q) {applied : Bool}
    (hprogram : q.program = .done applied) :
    Tidy r { w with
      running := update w.running thread none
      ended := some ⟨q.member, q.wanted, q.failClosed, applied⟩ } := by
  have hmem : ∀ {thread' q'}, q' ∈ update w.running thread none thread' →
      thread' ≠ thread ∧ q' ∈ w.running thread' := by
    intro thread' q' hq'
    by_cases ht : thread' = thread
    · rw [ht, update_self] at hq'
      cases hq'
    · rw [update_of_ne ht] at hq'
      exact ⟨ht, hq'⟩
  have hends : q.engaged = true → Ends r q.member q.wanted q.failClosed applied w.scene := by
    intro he
    have hensures := (h.busy thread q hq he).2.1
    rw [hprogram] at hensures
    exact hensures
  refine ⟨fun thread' q' hq' => h.idle thread' q' (hmem hq').2, fun thread' q' hq' hbusy => ?_,
    fun hall => ?_, fun e he hwanted happlied => ?_⟩
  · obtain ⟨ho, hensures, hrest⟩ := h.busy thread' q' (hmem hq').2 hbusy
    exact ⟨ho, hensures, fun thread'' q'' hq'' => hrest thread'' q'' (hmem hq'').2⟩
  · cases he : q.engaged with
    | true => exact (hends he).1
    | false =>
      refine h.held fun thread' q' hq' => ?_
      by_cases ht : thread' = thread
      · rw [ht, hq] at hq'
        cases hq'
        exact he
      · exact hall thread' q' ((update_of_ne ht ..).trans hq')
  · cases he
    cases he : q.engaged with
    | true =>
      obtain ⟨hown, hlocked⟩ := (hends he).2 hwanted happlied
      exact ⟨hown.leavesBy, hown.lock.permits, hlocked⟩
    | false =>
      rw [(h.idle thread q hq he).unwanted] at hwanted
      cases hwanted

theorem tidy_step (h : Tidy r w) (a : Move τ ι) (halone : Alone w a) : Tidy r (step r w a) := by
  have hstill : Tidy r { w with ended := none } := { h with carried := nofun }
  cases a with
  | begin thread i p own =>
    unfold step
    simp only
    split
    · rename_i hbegins
      exact tidy_begin h hbegins.1 hbegins.2 halone
    · exact hstill
  | next thread =>
    unfold step
    simp only
    split
    · exact hstill
    · rename_i q hq
      split
      · rename_i applied hprogram
        exact tidy_end h hq hprogram
      · rename_i c next hprogram
        exact tidy_call h hq hprogram rfl

omit [DecidableEq τ] in
theorem Tidy.closed (h : Tidy r w) : Closed r w := by
  intro i hclaimed hclosed hnone
  have hidle : ∀ thread, ∀ q ∈ w.running thread, q.engaged = false := by
    intro thread q hq
    cases he : q.engaged with
    | false => rfl
    | true =>
      -- Whoever is at work is the only one that may hold a claim.
      have hunclaimed := (h.busy thread q hq he).1 i (hnone thread q hq).symm
      rw [hclaimed] at hunclaimed
      cases hunclaimed
  obtain ⟨hown, hlocked⟩ := (h.held hidle).owner i hclaimed
  exact ⟨hlocked hclosed, hown.lock.permits⟩

end Steps

/-- In every run of passes that begin alone, on a host that begins without a lock or a claim: a pass
that wants egress and applies leaves what has no more specific route to its interface, and a lock,
if one is in force, that lets it out; and no pass leaves another membership's claim, made to fail
closed, without a lock that lets its interface out. -/
theorem egress_of_one [DecidableEq τ] (r : ι → Setup) (host : Shared) (hlock : host.rules.named lockKey = [])
    (htable : ∀ f, host.table f = none) (moves : List (Move τ ι))
    (halone : Along (step r) Alone { scene := { host } } moves) :
    Carried r (run (step r) { scene := { host } } moves) ∧
      Closed r (run (step r) { scene := { host } } moves) := by
  have hstart : Tidy r ({ scene := { host } } : World τ ι) := by
    refine ⟨nofun, nofun, fun _ => ⟨nofun, fun _ => ⟨hlock, htable⟩, nofun⟩, nofun⟩
  have htidy := Base.run_inv_along (Tidy r) (fun w a h ha => tidy_step h a ha) _ moves hstart halone
  exact ⟨htidy.carried, htidy.closed⟩

def laptops (second : Bool) : Setup :=
  if second then
    { FullTunnel.portable with
      membership := { FullTunnel.portable.membership with interfaceName := "meshp1" } }
  else FullTunnel.portable

def bareShared : Shared := ⟨[], fun _ => none, fun _ => false, fun _ => false⟩

def passMoves (second : Bool) (p : Input) (n : Nat) : List (Move Unit Bool) :=
  .begin () second p [] :: List.replicate n (.next ())

instance decidableAlone (w : World Unit Bool) (a : Move Unit Bool) : Decidable (Alone w a) := by
  cases a with
  | begin thread i p own => exact inferInstanceAs (Decidable (_ ∧ _))
  | next thread => exact inferInstanceAs (Decidable True)

theorem egress_of_one_laptop :
    let moves := passMoves false (FullTunnel.throughExit .enforced) 13 ++
      passMoves true FullTunnel.direct 1
    let w := run (step laptops) { scene := { host := bareShared } } moves
    Along (step laptops) Alone { scene := { host := bareShared } } moves ∧
      w.scene.claimed false = true ∧ Carried laptops w ∧ Closed laptops w := by
  intro moves w
  refine and_assoc.1 ((and_iff_left_of_imp fun halone => ?_).2 (by decide +kernel))
  exact egress_of_one laptops bareShared rfl (fun _ => rfl) moves halone.1

/-- Both send everything through their tunnels, the second after the first. The second's pass
applies, and what it should carry still leaves by the first's interface, which the lock now refuses.
Then the second stops, and the first still holds its claim, with no lock at all. -/
theorem claimed_by_two :
    let moves := passMoves false (FullTunnel.throughExit .enforced) 13 ++
      passMoves true (FullTunnel.throughExit .enforced) 13
    let w := run (step laptops) { scene := { host := bareShared } } moves
    let w' := run (step laptops) w (passMoves true FullTunnel.direct 12)
    (w.ended = some ⟨true, true, true, true⟩ ∧
      w.scene.host.leavesBy .ip none = some "meshp0" ∧ ¬Carried laptops w) ∧
    (w.scene.claimed false = true ∧ w.scene.closed false = true ∧ ¬Closed laptops w) ∧
    (w'.scene.claimed false = true ∧ w'.scene.closed false = true ∧
      w'.scene.host.locked = false ∧ ¬Closed laptops w') := by
  intro moves w w'
  have hrun : (w.ended = some ⟨true, true, true, true⟩ ∧
        w.scene.host.leavesBy .ip none = some "meshp0") ∧
      (w.scene.claimed false = true ∧ w.scene.closed false = true ∧
        (∀ thread, ∀ q ∈ w.running thread, q.member ≠ false) ∧
        Ruleset.passes (w.scene.host.rules.named lockKey) .output
          (Nftables.leaving "meshp0" (.v4 0x08080808) 6 443) = false) ∧
      (w'.scene.claimed false = true ∧ w'.scene.closed false = true ∧
        w'.scene.host.locked = false ∧ ∀ thread, ∀ q ∈ w'.running thread, q.member ≠ false) := by
    decide +kernel
  obtain ⟨⟨hended, hleaves⟩, ⟨hclaimed, hclosed, hidle, hrefused⟩, hclaimed', hclosed', hopen,
    hidle'⟩ := hrun
  refine ⟨⟨hended, hleaves, fun hcarried => ?_⟩, ⟨hclaimed, hclosed, fun hall => ?_⟩, hclaimed',
    hclosed', hopen, fun hall => ?_⟩
  · have hout := (hcarried _ hended rfl rfl).1 .ip none
    rw [hleaves] at hout
    exact absurd hout (by decide)
  · have hpermits := (hall false hclaimed hclosed hidle).2
      (Nftables.leaving "meshp0" (.v4 0x08080808) 6 443) rfl
    rw [hrefused] at hpermits
    cases hpermits
  · have hlocked := (hall false hclaimed' hclosed' hidle').1
    rw [hopen] at hlocked
    cases hlocked

end Meshp.Tunnel.Sharing
