import Meshp.Base.Calls
import Meshp.Egress.Carveout
import Meshp.Nftables.Lock
import Meshp.Tunnel.Desired

/-!
# Claiming and Releasing a Full Tunnel

A membership that sends everything through its tunnel holds two things of the
host: a lock, which refuses what would leave any other way, and a claim of the
default route. They are acquired and given back by separate calls, any of which
may fail, and one flag remembers both.
-/

namespace Meshp.Tunnel.FullTunnel

open Base (Calls run Along)
open Base.Calls (each ensures_bind ensures_idle ensures_make ensures_mono ensures_of_passive
  ensures_seq exec_of_ensures make only_all only_each)
open Egress (Carveout Resolver URL compute localNetworks)
open Netfilter (IpFamily Ruleset loadLines)
open Netip (Prefix parsePrefix)
open Nftables (lockKey renderLock)

/-- What a claim installs: a default route in the egress table, and the two rules that lead there.
-/
inductive Part
  | table (family : IpFamily)
  | suppress (family : IpFamily)
  | mark (family : IpFamily)
  deriving DecidableEq

structure Host where
  rules : Ruleset
  routing : Part → Bool

namespace Host

def locked (h : Host) : Bool :=
  h.rules.has lockKey

/-- `DefaultRouteClaimed`: whether a rule sends what is not marked to the egress table. -/
def claimed (h : Host) : Bool :=
  h.routing (.mark .ip) || h.routing (.mark .ip6)

def Clean (h : Host) : Prop :=
  h.locked = false ∧ h.claimed = false

instance decidableClean (h : Host) : Decidable h.Clean :=
  inferInstanceAs (Decidable (_ ∧ _))

end Host

inductive Call
  /-- `Observe`, `Kind`: reading the interface. -/
  | observe (again : Bool)
  /-- An operation of a plan, by its place. -/
  | operate (n : Nat) (op : Wgplan.Op)
  /-- Loading the policy, the translation or the forwarding. -/
  | filter | translate | forward
  /-- Telling the host's resolver. -/
  | announce
  | tunnelAddresses
  | applyLock (iface : String) (carve : Carveout) (preventDNSLeaks : Bool)
  | setEgressMark (iface : String)
  | interfaceByName (iface : String)
  | dial
  | add (p : Part)
  | delete (p : Part)
  | listRoutes
  deriving DecidableEq

def act : Call → Host → Option Host
  | .applyLock iface carve preventDNSLeaks, h => do
    let lines ← (renderLock ⟨iface, carve.endpoints, carve.prefixes.reduceOption,
      preventDNSLeaks⟩).toOption
    let rules ← loadLines h.rules lines
    pure { h with rules }
  | .add p, h => some { h with routing := Function.update h.routing p true }
  | .delete p, h => some { h with routing := Function.update h.routing p false }
  | .operate _ .destroyDevice, h => some { h with
      routing := Function.update (Function.update h.routing (.table .ip) false) (.table .ip6) false }
  | _, h => some h

/-- The calls of `Router.Claim`, in order: the mark, the table, and only then the rules that lead
there. -/
def claimCalls (iface : String) : List Call :=
  [.setEgressMark iface, .interfaceByName iface, .dial, .add (.table .ip), .add (.table .ip6),
    .add (.suppress .ip), .add (.mark .ip), .add (.suppress .ip6), .add (.mark .ip6)]

def claim (iface : String) : Calls Call Bool :=
  Calls.all (claimCalls iface)

/-- `Router.Release`: the rules before the table, and every one of them is tried. -/
def release : Calls Call Bool := do
  if ← make .dial then
    let rules ← each [.delete (.mark .ip), .delete (.suppress .ip), .delete (.mark .ip6),
      .delete (.suppress .ip6)]
    if ← make .listRoutes then
      let routes ← each [.delete (.table .ip), .delete (.table .ip6)]
      pure (rules && routes)
    else pure false
  else pure false

structure Setup where
  membership : Membership
  controlURL : Option URL
  hasFilter : Bool
  hasEgress : Bool
  hasLock : Bool

structure Input where
  told : Told
  failClosedPolicy : Wire.FailClosed := .unspecified
  excludedPrefixes : List String := []
  preventLeaks : Bool := false
  relays : List Wire.Relay := []
  /-- Whether there is a policy to enforce. -/
  policed : Bool := false
  site : Site := {}
  observed : Wgplan.Observed := {}
  /-- The addresses of the host's tunnels, and of every interface that is up. -/
  tunnels : List Prefix := []
  interfaces : List (List Prefix) := []
  resolve : Resolver := fun _ => none

def Input.wantsEgress (p : Input) : Bool :=
  p.told.routeGroups.any fun group => group.prefixes.any fun raw =>
    (parsePrefix raw).any (·.bits = 0)

/-- `failClosedFor`. Unspecified means enforced. -/
def Input.failClosed (p : Input) : Bool :=
  p.failClosedPolicy ≠ .disabled

def carveout (r : Setup) (p : Input) (own : List Prefix) : Option Carveout :=
  compute
    { controlURL := r.controlURL
      relayEndpoints := p.relays.flatMap Wire.Relay.endpoints
      localPrefixes := localNetworks p.interfaces own
      extraPrefixes := p.excludedPrefixes } p.resolve

/-- `releaseEgress`. The lock comes off even when the routing did not; the flag is unset only if
both did. -/
def releaseEgress (r : Setup) (claimed : Bool) : Calls Call Bool := do
  if claimed then
    let routed ← if r.hasEgress then release else pure true
    let unlocked ← if r.hasLock then make (.applyLock "" ⟨[], []⟩ false) else pure true
    pure !(routed && unlocked)
  else pure false

def lockFor (p : Input) (iface : String) (carve : Carveout) : Calls Call Bool :=
  if p.failClosed then make (.applyLock iface carve p.preventLeaks) else pure true

/-- `applyEgress`: the flag, and the components that did not apply. The lock goes on before the
route is claimed. -/
def applyEgress (r : Setup) (claimed : Bool) (iface : String) (own : List Prefix) (p : Input) :
    Calls Call (Bool × List String) := do
  if p.wantsEgress then
    if r.hasEgress = false ∨ (p.failClosed = true ∧ r.hasLock = false) then
      pure (claimed, ["egress"])
    else
      let listed ← make .tunnelAddresses
      match carveout r p (if listed then p.tunnels ++ own else own) with
      | none => pure (claimed, ["egress"])
      | some carve =>
        if ← lockFor p iface carve then
          if ← claim iface then pure (true, []) else pure (claimed, ["egress"])
        else pure (claimed, ["egress"])
  else
    let claimed ← releaseEgress r claimed
    pure (claimed, [])

/-- What a pass comes to: the flag, whether it came as far as egress, and the components of egress
that did not apply. -/
structure Result where
  claimed : Bool
  reached : Bool
  unapplied : List String

/-- `applyFilter`, up to what is loaded. A policy that is in force already counts as loaded. -/
def enforce (r : Setup) (p : Input) : Calls Call Bool :=
  if r.hasFilter then make .filter else pure !p.policed

/-- `Apply`. What stands before egress stops the pass when it fails; what stands after does not. -/
def apply (r : Setup) (claimed : Bool) (p : Input) : Calls Call Result := do
  let stopped : Result := ⟨claimed, false, []⟩
  match desired p.site r.membership p.told with
  | .error _ => pure stopped
  | .ok (i, _) =>
    if ← make (.observe false) then
      match Wgplan.planFor i p.observed with
      | .error _ => pure stopped
      | .ok ops =>
        if ← Calls.all (ops.mapIdx .operate) then
          let _ ← make (.observe true)
          if ← enforce r p then
            let (claimed, unapplied) ← applyEgress r claimed i.name i.addresses p
            let _ ← each [.translate, .forward, .announce]
            pure ⟨claimed, true, unapplied⟩
          else pure stopped
        else pure stopped
    else pure stopped

def withdraw (r : Setup) : Calls Call Bool :=
  if r.hasFilter then each [.filter, .forward, .translate] else pure true

/-- `Teardown`, of an interface as it is observed. -/
def teardown (r : Setup) (observed : Wgplan.Observed) : Calls Call Bool := do
  let _ ← make .announce
  let _ ← withdraw r
  if ← make (.observe false) then
    Calls.all ((Wgplan.teardown observed).mapIdx .operate)
  else pure false

structure Machine where
  host : Host
  claimed : Bool := false

inductive Pass
  | apply (p : Input) (ok : Call → Bool)
  | teardown (observed : Wgplan.Observed) (ok : Call → Bool)

/-- What a pass of `Apply` comes to. -/
def Machine.applied (r : Setup) (m : Machine) (p : Input) (ok : Call → Bool) : Result × Host :=
  (apply r m.claimed p).exec act ok m.host

def step (r : Setup) (m : Machine) : Pass → Machine
  | .apply p ok => ⟨(m.applied r p ok).2, (m.applied r p ok).1.claimed⟩
  | .teardown observed ok => { m with host := ((teardown r observed).exec act ok m.host).2 }

def Undone (r : Setup) (m : Machine) : Pass → Prop
  | .apply p ok =>
    (m.applied r p ok).1.reached = true →
      (p.wantsEgress = false → (apply r m.claimed p).succeeds act ok m.host = true →
        (m.applied r p ok).2.Clean) ∧
      (p.wantsEgress = true → p.failClosed = false → (m.applied r p ok).1.unapplied = [] →
        (m.applied r p ok).2.locked = false)
  | .teardown observed ok =>
    (teardown r observed).succeeds act ok m.host = true →
      ((teardown r observed).exec act ok m.host).2.Clean

def Mended (r : Setup) (m : Machine) : Pass → Prop
  | .apply p ok =>
    p.wantsEgress = true →
      (m.claimed = false → ∀ c ∈ claimCalls r.membership.interfaceName, ok c = true) ∧
      (p.failClosed = false → m.host.locked = false)
  | .teardown _ _ => m.host.Clean

structure Settled (r : Setup) (m : Machine) : Prop where
  unset : m.claimed = false → m.host.Clean
  routed : m.claimed = true → r.hasEgress = true
  unlockable : r.hasLock = false → m.host.locked = false

section Calls

variable {ok : Call → Bool} {h h' : Host}

theorem act_unlock (carve : Carveout) (dns : Bool) :
    act (.applyLock "" carve dns) h = some { h with rules := h.rules.without lockKey } := by
  have hlines : (renderLock ⟨"", carve.endpoints, carve.prefixes.reduceOption, dns⟩) =
      .ok ((Netfilter.remove lockKey).map some) := rfl
  simp only [act, hlines]
  change (loadLines h.rules _ >>= fun rules => some { h with rules }) = _
  rw [Nftables.loadLines_removed hlines rfl]
  rfl

theorem locked_without (rules : Ruleset) (routing : Part → Bool) :
    (⟨rules.without lockKey, routing⟩ : Host).locked = false := by
  simp [Host.locked, Ruleset.has, Ruleset.without]

variable {iface : String} {claimed : Bool} {p : Input} {r : Setup}

theorem act_lock {carve : Carveout} {dns : Bool} (hiface : iface ≠ "")
    (hact : act (.applyLock iface carve dns) h = some h') :
    h'.locked = true ∧ h'.routing = h.routing := by
  simp only [act] at hact
  obtain ⟨lines, hlines, hact⟩ := Option.bind_eq_some_iff.1 hact
  obtain ⟨rules, hrules, hact⟩ := Option.bind_eq_some_iff.1 hact
  cases hact
  have hrender := Base.toOption_eq_some.1 hlines
  refine ⟨?_, rfl⟩
  rw [Host.locked, Ruleset.has_iff, Nftables.named_of_loadLines hrender hiface hrules]
  exact List.cons_ne_nil _ _

def Passive : Call → Prop
  | .applyLock _ _ _ => False
  | .add _ => False
  | .delete _ => False
  | .operate _ op => op ≠ .destroyDevice
  | _ => True

theorem act_passive {c : Call} (hc : Passive c) (h : Host) : act c h = some h := by
  cases c with
  | applyLock iface carve dns | add p | delete p => exact hc.elim
  | operate n op =>
    cases op with
    | destroyDevice => exact absurd rfl hc
    | _ => rfl
  | _ => rfl

theorem only_enforce (r : Setup) (p : Input) : Calls.Only Passive (enforce r p) := by
  unfold enforce
  split
  · exact Calls.only_make trivial
  · trivial

theorem only_withdraw (r : Setup) : Calls.Only Passive (withdraw r) := by
  unfold withdraw
  split
  · refine only_each fun c hc => ?_
    simp only [List.mem_cons, List.not_mem_nil, or_false] at hc
    rcases hc with rfl | rfl | rfl <;> trivial
  · trivial

theorem ensures_apply {σ : Type} {kernel : Call → σ → Option σ} {ok : Call → Bool} {I : σ → Prop}
    {s : σ} {Q : Bool × List String → σ → Prop}
    (hpassive : ∀ c, Passive c → ∀ t, kernel c t = some t) (hs : I s) (hQ : ∀ x t, Q x t → I t)
    (hstep : r.membership.interfaceName ≠ "" → ∀ i unhonoured, desired p.site r.membership p.told = .ok (i, unhonoured) → Calls.Ensures kernel ok I Q (applyEgress r claimed r.membership.interfaceName i.addresses p) s) :
    Calls.Ensures kernel ok I
      (fun result t => (result.reached = true → Q (result.claimed, result.unapplied) t) ∧
        (result.reached = false → result.claimed = claimed ∧ t = s))
      (apply r claimed p) s := by
  have hstopped : (false = true → Q (claimed, []) s) ∧ (false = false → claimed = claimed ∧ s = s) :=
    ⟨fun hfalse => absurd hfalse Bool.false_ne_true, fun _ => ⟨rfl, rfl⟩⟩
  unfold apply
  split
  · exact hstopped
  · rename_i i unhonoured hdesired
    refine ensures_idle (hpassive (.observe false) trivial s) hs fun observed _ => ?_
    cases observed with
    | false => exact hstopped
    | true =>
      rw [if_pos rfl]
      split
      · exact hstopped
      · rename_i ops hops
        have hoperate : Calls.Only Passive (Calls.all (ops.mapIdx .operate)) := by
          refine only_all fun c hc => ?_
          obtain ⟨n, hn, rfl⟩ := List.mem_mapIdx.1 hc
          exact fun hop => Wgplan.destroyDevice_not_mem hops (hop ▸ List.getElem_mem hn)
        refine ensures_bind (ensures_of_passive hoperate hpassive hs fun operated => ?_)
        cases operated with
        | false => exact hstopped
        | true =>
          rw [if_pos rfl]
          refine ensures_idle (hpassive (.observe true) trivial s) hs fun _ _ => ?_
          refine ensures_bind
            (ensures_of_passive (only_enforce r p) hpassive hs fun enforced => ?_)
          cases enforced with
          | false => exact hstopped
          | true =>
            have hname := name_of_desired hdesired
            have hnamed : i.name ≠ "" := (Wgplan.valid_of_planFor hops).named
            rw [if_pos rfl, hname]
            refine ensures_seq (hstep (hname ▸ hnamed) i unhonoured hdesired) fun result t ht => ?_
            have hafter : Calls.Only Passive
                (each [.translate, .forward, .announce]) := by
              refine only_each fun c hc => ?_
              simp only [List.mem_cons, List.not_mem_nil, or_false] at hc
              rcases hc with rfl | rfl | rfl <;> trivial
            refine ensures_bind
              (ensures_of_passive hafter hpassive (hQ _ t ht) fun _ => ?_)
            exact ⟨fun _ => ht, fun hfalse => absurd hfalse.symm Bool.false_ne_true⟩

theorem claimCalls_total {c : Call} (hc : c ∈ claimCalls iface) (h : Host) :
    ∃ h', act c h = some h' ∧ h'.rules = h.rules := by
  simp only [claimCalls, List.mem_cons, List.not_mem_nil, or_false] at hc
  rcases hc with rfl | rfl | rfl | rfl | rfl | rfl | rfl | rfl | rfl <;> exact ⟨_, rfl, rfl⟩

theorem ensures_claim (iface : String) (h : Host) :
    Calls.Ensures act ok (fun _ => True)
      (fun done t => t.rules = h.rules ∧
        ((∀ c ∈ claimCalls iface, ok c = true) → done = true)) (claim iface) h := by
  unfold claim
  have htotal := fun c (hc : c ∈ claimCalls iface) => claimCalls_total hc
  generalize claimCalls iface = cs at htotal
  induction cs generalizing h with
  | nil => exact ⟨rfl, fun _ => rfl⟩
  | cons c cs ih =>
    obtain ⟨t, hact, hrules⟩ := htotal c (.head _) h
    refine ensures_make (fun h' hok hact' => ⟨trivial, ?_⟩) (fun hfails => ⟨trivial, ?_⟩)
    · cases hact.symm.trans hact'
      refine ensures_mono (fun _ => id) (fun done t' hdone => ?_)
        (ih t fun c hc => htotal c (.tail _ hc))
      exact ⟨hdone.1.trans hrules, fun hall => hdone.2 fun c hc => hall c (.tail _ hc)⟩
    · refine ⟨rfl, fun hall => ?_⟩
      have hno : ok c = false := hfails.resolve_right (by rw [hact]; exact Option.some_ne_none t)
      rw [hall c (.head _)] at hno
      cases hno

theorem ensures_deletes (ps : List Part) (h : Host) :
    Calls.Ensures act ok (fun _ => True)
      (fun done t => t.rules = h.rules ∧ (∀ p, h.routing p = false → t.routing p = false) ∧
        (done = true → ∀ p ∈ ps, t.routing p = false) ∧
        ((∀ c, ok c = true) → done = true)) (each (ps.map .delete)) h := by
  induction ps generalizing h with
  | nil => exact ⟨rfl, fun _ => id, nofun, fun _ => rfl⟩
  | cons p ps ih =>
    refine ensures_make (fun h' hok hact => ⟨trivial, ?_⟩) (fun hfails => ⟨trivial, ?_⟩)
    · cases hact
      refine ensures_seq (ih _) fun done t hdone => ?_
      obtain ⟨hrules, hkept, hgone, hall⟩ := hdone
      refine ⟨hrules, fun q hq => hkept q ?_, fun hdone q hq => ?_, fun hok => ?_⟩
      · by_cases hqp : q = p
        · rw [hqp]
          exact Function.update_self ..
        · exact (Function.update_of_ne hqp ..).trans hq
      · rcases List.mem_cons.1 hq with rfl | hq
        · exact hkept q (Function.update_self ..)
        · exact hgone hdone q hq
      · exact hall hok
    · refine ensures_seq (ih h) fun done t hdone => ?_
      obtain ⟨hrules, hkept, _, _⟩ := hdone
      refine ⟨hrules, hkept, fun hfalse => absurd hfalse Bool.false_ne_true, fun hok => ?_⟩
      rcases hfails with hfails | hfails
      · rw [hok] at hfails
        cases hfails
      · cases hfails

theorem ensures_release (h : Host) :
    Calls.Ensures act ok (fun _ => True)
      (fun done t => t.rules = h.rules ∧ (done = true → t.claimed = false) ∧
        ((∀ c, ok c = true) → done = true)) release h := by
  have hstopped : ∀ c t, (ok c = true → false = true) → t.rules = h.rules →
      t.rules = h.rules ∧ (false = true → Host.claimed t = false) ∧
        ((∀ c, ok c = true) → false = true) :=
    fun c t hc hrules => ⟨hrules, fun hfalse => absurd hfalse Bool.false_ne_true,
      fun hok => hc (hok c)⟩
  refine ensures_idle rfl trivial fun dialled hdialled => ?_
  cases dialled with
  | false => exact hstopped _ h hdialled rfl
  | true =>
    refine ensures_seq (ensures_deletes [.mark .ip, .suppress .ip, .mark .ip6, .suppress .ip6] h)
      fun rules t ht => ?_
    obtain ⟨hrules, _, hgone, hall⟩ := ht
    refine ensures_idle rfl trivial fun listed hlisted => ?_
    cases listed with
    | false => exact hstopped _ t hlisted hrules
    | true =>
      refine ensures_seq (ensures_deletes [.table .ip, .table .ip6] t) fun routes t' ht' => ?_
      obtain ⟨hrules', hkept, _, hall'⟩ := ht'
      refine ⟨hrules'.trans hrules, fun hdone => ?_, fun hok => ?_⟩
      · obtain ⟨hdone, _⟩ := Bool.and_eq_true_iff.1 hdone
        have hmark := fun family (hf : Part.mark family ∈ _) =>
          hkept _ (hgone hdone (.mark family) hf)
        rw [Host.claimed, hmark .ip (by decide), hmark .ip6 (by decide)]
        rfl
      · rw [hall hok, hall' hok]
        rfl

theorem ensures_releaseEgress (hs : Settled r ⟨h, claimed⟩) :
    Calls.Ensures act ok (fun _ => True)
      (fun claimed' t => Settled r ⟨t, claimed'⟩ ∧ ((∀ c, ok c = true) → claimed' = false))
      (releaseEgress r claimed) h := by
  cases claimed with
  | false => exact ⟨hs, fun _ => rfl⟩
  | true =>
    simp only [releaseEgress, if_true, hs.routed rfl]
    refine ensures_seq (ensures_release h) fun routed t ht => ?_
    obtain ⟨hrules, hclaimed, hall⟩ := ht
    have hlocked : t.locked = h.locked := congrArg (Ruleset.has · lockKey) hrules
    by_cases hlock : r.hasLock = true
    · rw [if_pos hlock]
      refine ensures_make (fun t' hok hact => ⟨trivial, ?_⟩) (fun hfails => ⟨trivial, ?_⟩)
      · cases (act_unlock _ _).symm.trans hact
        refine ⟨⟨fun hunset => ⟨locked_without .., hclaimed ?_⟩, fun _ => hs.routed rfl,
          fun _ => locked_without ..⟩, fun hok => ?_⟩
        · simpa using hunset
        · rw [hall hok]
          rfl
      · have hset : (!(routed && false)) = true := by cases routed <;> rfl
        refine ⟨⟨fun hunset => ?_, fun _ => hs.routed rfl, fun hno => ?_⟩, fun hok => ?_⟩
        · exact absurd (hset.symm.trans hunset) (by decide)
        · rw [hlock] at hno
          cases hno
        · rcases hfails with hfails | hfails
          · rw [hok] at hfails
            cases hfails
          · rw [act_unlock] at hfails
            cases hfails
    · rw [if_neg hlock]
      have hunlocked := hs.unlockable (Bool.eq_false_iff.2 hlock)
      refine ⟨⟨fun hunset => ⟨hlocked.trans hunlocked, hclaimed ?_⟩, fun _ => hs.routed rfl,
        fun _ => hlocked.trans hunlocked⟩, fun hok => ?_⟩
      · simpa using hunset
      · rw [hall hok]
        rfl

theorem ensures_claimed {t : Host} (hs : Settled r ⟨h, claimed⟩) (hegress : r.hasEgress = true)
    (hlock : r.hasLock = false → t.rules = h.rules)
    (hwhole : claimed = false → ∀ c ∈ claimCalls iface, ok c = true) :
    Calls.Ensures act ok (fun _ => True)
      (fun result t' => Settled r ⟨t', result.1⟩ ∧ t'.rules = t.rules)
      (claim iface >>= fun done =>
        if done = true then pure (true, []) else pure (claimed, ["egress"])) t := by
  refine ensures_seq (ensures_claim iface t) fun done t' ht' => ?_
  obtain ⟨hrules, hall⟩ := ht'
  have hunlockable : r.hasLock = false → t'.locked = false := by
    intro hno
    have hsame : t'.rules = h.rules := hrules.trans (hlock hno)
    exact (congrArg (Ruleset.has · lockKey) hsame).trans (hs.unlockable hno)
  cases done with
  | true => exact ⟨⟨fun hunset => absurd hunset.symm Bool.false_ne_true, fun _ => hegress,
      hunlockable⟩, hrules⟩
  | false =>
    refine ⟨⟨fun hunset => ?_, fun _ => hegress, hunlockable⟩, hrules⟩
    -- With the flag unset nothing of the claim was to fail.
    exact absurd (hall (hwhole hunset)) Bool.false_ne_true

theorem ensures_wanted (own : List Prefix) (hs : Settled r ⟨h, claimed⟩)
    (hwants : p.wantsEgress = true) (hwhole : claimed = false → ∀ c ∈ claimCalls iface, ok c = true) :
    Calls.Ensures act ok (fun _ => True)
      (fun result t => Settled r ⟨t, result.1⟩ ∧ (p.failClosed = false → t.rules = h.rules))
      (applyEgress r claimed iface own p) h := by
  unfold applyEgress
  rw [if_pos hwants]
  by_cases hblocked : r.hasEgress = false ∨ (p.failClosed = true ∧ r.hasLock = false)
  · rw [if_pos hblocked]
    exact ⟨hs, fun _ => rfl⟩
  · rw [if_neg hblocked]
    push Not at hblocked
    have hegress : r.hasEgress = true := Bool.eq_true_of_not_eq_false hblocked.1
    refine ensures_idle rfl trivial fun listed _ => ?_
    split
    · exact ⟨hs, fun _ => rfl⟩
    · by_cases hclosed : p.failClosed = true
      · simp only [lockFor, if_pos hclosed]
        have hlock : r.hasLock = true := Bool.eq_true_of_not_eq_false (hblocked.2 hclosed)
        refine ensures_make (fun t hok hact => ⟨trivial, ?_⟩) (fun hfails => ⟨trivial, ?_⟩)
        · refine ensures_mono (fun _ => id) (fun result t' ht' => ⟨ht'.1, fun hopen => ?_⟩)
            (ensures_claimed hs hegress (fun hno => ?_) hwhole)
          · rw [hclosed] at hopen
            cases hopen
          · rw [hlock] at hno
            cases hno
        · exact ⟨hs, fun _ => rfl⟩
      · simp only [lockFor, if_neg hclosed]
        exact ensures_mono (fun _ => id) (fun result t' ht' => ⟨ht'.1, fun _ => ht'.2⟩)
          (ensures_claimed hs hegress (fun _ => rfl) hwhole)

theorem ensures_unwanted (own : List Prefix) (hs : Settled r ⟨h, claimed⟩)
    (hwants : p.wantsEgress = false) :
    Calls.Ensures act ok (fun _ => True)
      (fun result t => Settled r ⟨t, result.1⟩ ∧ ((∀ c, ok c = true) → result.1 = false))
      (applyEgress r claimed iface own p) h := by
  unfold applyEgress
  rw [if_neg (by rw [hwants]; exact Bool.false_ne_true)]
  exact ensures_bind (ensures_releaseEgress hs)

theorem ensures_teardown (r : Setup) (observed : Wgplan.Observed) (h : Host) :
    Calls.Ensures act ok (fun _ => True)
      (fun _ t => t.rules = h.rules ∧ t.claimed = h.claimed) (teardown r observed) h := by
  unfold teardown
  refine ensures_idle rfl trivial fun _ _ => ?_
  refine ensures_bind
    (ensures_of_passive (only_withdraw r) (fun _ hc => act_passive hc) trivial fun _ => ?_)
  refine ensures_idle rfl trivial fun found _ => ?_
  cases found with
  | false => exact ⟨rfl, rfl⟩
  | true =>
    have honly : Calls.Only (fun c => ∃ n op, c = Call.operate n op)
        (Calls.all ((Wgplan.teardown observed).mapIdx Call.operate)) := by
      refine only_all fun c hc => ?_
      obtain ⟨n, _, rfl⟩ := List.mem_mapIdx.1 hc
      exact ⟨n, _, rfl⟩
    refine ensures_mono (fun _ _ => trivial) (fun _ _ => id) (Calls.ensures_of_only
      (I := fun t : Host => t.rules = h.rules ∧ t.claimed = h.claimed) honly ?_ ⟨rfl, rfl⟩)
    rintro c ⟨n, op, rfl⟩ t t' ht hact
    cases op <;> cases hact <;> exact ht

end Calls

section Runs

variable {r : Setup} {m : Machine}

theorem clean_teardown (hm : m.host.Clean) (observed : Wgplan.Observed) (ok : Call → Bool) :
    ((teardown r observed).exec act ok m.host).2.Clean := by
  have hend : Calls.Ensures act ok _ _ _ m.host := ensures_teardown r observed m.host
  obtain ⟨hrules, hclaimed⟩ := exec_of_ensures hend
  exact ⟨(congrArg (Ruleset.has · lockKey) hrules).trans hm.1, hclaimed.trans hm.2⟩

theorem settled_apply {p : Input} {ok : Call → Bool} (hm : Settled r m)
    (hwhole : p.wantsEgress = true → m.claimed = false →
      ∀ c ∈ claimCalls r.membership.interfaceName, ok c = true) :
    Settled r (step r m (.apply p ok)) := by
  have hresult : Calls.Ensures act ok (fun _ => True)
      (fun result t => (result.reached = true → Settled r ⟨t, result.claimed⟩) ∧
        (result.reached = false → result.claimed = m.claimed ∧ t = m.host))
      (apply r m.claimed p) m.host := by
    refine ensures_apply (Q := fun result t => Settled r ⟨t, result.1⟩)
      (fun _ hc => act_passive hc) trivial (fun _ _ _ => trivial) fun _ i _ _ => ?_
    cases hwants : p.wantsEgress with
    | false =>
      exact ensures_mono (fun _ => id) (fun _ _ h => h.1)
        (ensures_unwanted i.addresses hm hwants)
    | true =>
      exact ensures_mono (fun _ => id) (fun _ _ h => h.1)
        (ensures_wanted i.addresses hm hwants (hwhole hwants))
  obtain ⟨hreached, hstopped⟩ := exec_of_ensures hresult
  cases hr : (m.applied r p ok).1.reached with
  | true => exact hreached hr
  | false =>
    obtain ⟨hclaimed, hhost⟩ := hstopped hr
    have hsame : step r m (.apply p ok) = m := by
      rw [step, Machine.applied, hclaimed, hhost]
    rw [hsame]
    exact hm

theorem settled_step {a : Pass} (hm : Settled r m) (ha : Mended r m a) :
    Settled r (step r m a) := by
  cases a with
  | teardown observed ok =>
    have hclean := clean_teardown (r := r) ha observed ok
    exact ⟨fun _ => hclean, hm.routed, fun _ => hclean.1⟩
  | apply p ok => exact settled_apply hm fun hwants => (ha hwants).1

theorem undone_of_mended {a : Pass} (hm : Settled r m) (ha : Mended r m a) : Undone r m a := by
  cases a with
  | teardown observed ok => exact fun _ => clean_teardown ha observed ok
  | apply p ok =>
    refine fun hreached => ⟨fun hwants hsucceeds => ?_, fun hwants hopen _ => ?_⟩
    · have hsame : m.applied r p ok = m.applied r p fun _ => true :=
        Calls.exec_of_succeeds (fun _ _ _ => id) hsucceeds
      rw [hsame] at hreached ⊢
      obtain ⟨hsettled, hunset⟩ := (exec_of_ensures
        (ensures_apply (fun _ hc => act_passive hc) trivial (fun _ _ _ => trivial)
          fun _ i _ _ => ensures_unwanted i.addresses hm hwants)).1 hreached
      exact hsettled.unset (hunset fun _ => rfl)
    · obtain ⟨_, hrules⟩ := (exec_of_ensures
        (ensures_apply (fun _ hc => act_passive hc) trivial (fun _ _ _ => trivial)
          fun _ i _ _ => ensures_wanted i.addresses hm hwants (ha hwants).1)).1 hreached
      exact (congrArg (Ruleset.has · lockKey) (hrules hopen)).trans ((ha hwants).2 hopen)

end Runs

/-- In a run whose passes leave nothing the flag does not tell of, what is no longer wanted is gone.
-/
theorem egress_undone (r : Setup) (host : Host) (clean : host.Clean) (passes : List Pass)
    (last : Pass) (mended : Along (step r) (Mended r) ⟨host, false⟩ (passes ++ [last])) :
    Undone r (run (step r) ⟨host, false⟩ passes) last := by
  obtain ⟨hpasses, hlast, _⟩ := (Base.along_append _ _ _).1 mended
  have hfresh : Settled r ⟨host, false⟩ :=
    ⟨fun _ => clean, fun hset => absurd hset Bool.false_ne_true, fun _ => clean.1⟩
  exact undone_of_mended
    (Base.run_inv_along (Settled r) (fun m a hm ha => settled_step hm ha) _ passes hfresh hpasses) hlast

def portable : Setup where
  membership := laptop
  controlURL := some ⟨"https", "198.51.100.10", "8443"⟩
  hasFilter := true
  hasEgress := true
  hasLock := true

def throughExit (policy : Wire.FailClosed) : Input :=
  { told := carriedByFirst ["0.0.0.0/0"], failClosedPolicy := policy }

def direct : Input :=
  { told := { carriedByFirst [] with routeGroups := [] } }

def bare : Host := ⟨[], fun _ => false⟩

instance decidableUndone (r : Setup) (m : Machine) (a : Pass) : Decidable (Undone r m a) := by
  cases a with
  | apply p ok => exact inferInstanceAs (Decidable (_ = true → _ ∧ _))
  | teardown observed ok => exact inferInstanceAs (Decidable (_ = true → Host.Clean _))

instance decidableMended (r : Setup) (m : Machine) (a : Pass) : Decidable (Mended r m a) := by
  cases a with
  | apply p ok => exact inferInstanceAs (Decidable (_ = true → _ ∧ _))
  | teardown observed ok => exact inferInstanceAs (Decidable (Host.Clean _))

theorem egress_undone_laptop :
    Undone portable (run (step portable) ⟨bare, false⟩
      [.apply (throughExit .enforced) fun _ => true]) (.apply direct fun _ => true) :=
  egress_undone portable bare (by decide) [.apply (throughExit .enforced) fun _ => true]
    (.apply direct fun _ => true) (by decide +kernel)

/-- Three ways to leave a lock behind: a claim that could not be completed and is no longer wanted,
a policy that no longer asks for a lock, and a teardown. In the last the claim is left as well. -/
theorem lock_left_behind :
    ¬Undone portable (run (step portable) ⟨bare, false⟩
        [.apply (throughExit .enforced) fun c => c ≠ .setEgressMark "meshp0"])
      (.apply direct fun _ => true) ∧
    ¬Undone portable (run (step portable) ⟨bare, false⟩
        [.apply (throughExit .enforced) fun _ => true])
      (.apply (throughExit .disabled) fun _ => true) ∧
    ¬Undone portable (run (step portable) ⟨bare, false⟩
        [.apply (throughExit .enforced) fun _ => true])
      (.teardown { exists' := true } fun _ => true) := by
  decide +kernel

end Meshp.Tunnel.FullTunnel
