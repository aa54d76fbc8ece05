import Meshp.Nftables.Apply

/-!
# Reconcile Passes on One Host

A device may be in several networks at once, each with an interface and a
reconciler of its own, and every reconciler loads its rulesets into the same
kernel. A reconciler remembers what it last applied and skips a pass that would
apply it again, so what is in the kernel is only put right when somebody's desired
state changes.
-/

namespace Meshp.Tunnel

open Base (run Along run_inv_along)
open Function (update update_eq_self update_of_ne update_self)
open Netfilter
open Nftables
open Wire (PacketFilter AdvertisedRoutes AdvertisedGroup)

structure Reconciler where
  lastFilter : Option PacketFilter := none
  lastAdvertised : Option AdvertisedRoutes := none

structure Device where
  kernel : Kernel
  /-- Whether this host can load a ruleset at all. -/
  hasFilter : Bool
  reconcilers : String → Reconciler

namespace Device

def remember (d : Device) (iface : String) (r : Reconciler) : Device :=
  { d with reconcilers := update d.reconcilers iface r }

def policy (d : Device) (iface : String) : Option PacketFilter :=
  (d.reconcilers iface).lastFilter

def groups (d : Device) (iface : String) : List AdvertisedGroup :=
  ((d.reconcilers iface).lastAdvertised.map AdvertisedRoutes.groups).getD []

end Device

/-- `applyFilter`, with the components that did not apply. -/
def applyFilter (d : Device) (iface : String) (want : Option PacketFilter) :
    Device × List String :=
  if d.hasFilter = false then (d, if want = none then [] else ["filter"])
  else if d.policy iface = want then (d, [])
  else match Filter.apply d.kernel iface want with
    | .error _ => (d, ["filter"])
    | .ok kernel =>
      ({ d with kernel }.remember iface { d.reconcilers iface with lastFilter := want }, [])

/-- `applyForwarding`, up to what it reports of another table's refusals. No advertisement is the
control plane saying nothing, and is left alone. -/
def applyForwarding (d : Device) (iface : String) :
    Option AdvertisedRoutes → Device × List String
  | none => (d, [])
  | some advertised =>
    if d.hasFilter = false then (d, if advertised.groups = [] then [] else ["forwarding"])
    else if (d.reconcilers iface).lastAdvertised = some advertised then (d, [])
    else match Filter.applyForward d.kernel iface advertised.groups with
      | (kernel, some _) => ({ d with kernel }, ["forwarding"])
      | (kernel, none) =>
        ({ d with kernel }.remember iface
          { d.reconcilers iface with lastAdvertised := some advertised }, [])

/-- The part of `Reconciler.Apply` that loads rulesets: the policy, and then, unless that failed,
the forwarding. -/
def pass (d : Device) (iface : String) (filter : Option PacketFilter)
    (advertised : Option AdvertisedRoutes) : Device :=
  if (applyFilter d iface filter).2 = [] then
    (applyForwarding (applyFilter d iface filter).1 iface advertised).1
  else (applyFilter d iface filter).1

/-- The part of `Reconciler.Teardown` that removes rulesets. A removal that fails is logged, and
everything is forgotten all the same. -/
def teardown (d : Device) (iface : String) : Device :=
  if d.hasFilter = false then d
  else
    let kernel := match Filter.apply d.kernel iface none with
      | .ok kernel => kernel
      | .error _ => d.kernel
    { d with kernel := (Filter.applyForward kernel iface []).1 }.remember iface {}

inductive Step
  | apply (iface : String) (filter : Option PacketFilter) (advertised : Option AdvertisedRoutes)
  | teardown (iface : String)

def Step.iface : Step → String
  | .apply iface _ _ => iface
  | .teardown iface => iface

def step (d : Device) : Step → Device
  | .apply iface filter advertised => pass d iface filter advertised
  | .teardown iface => teardown d iface

def fresh (host : Foreign) (forwarding hasFilter : Bool) : Device :=
  { kernel := ⟨host.rules, forwarding⟩, hasFilter, reconcilers := fun _ => {} }

namespace Device

def permits (d : Device) (p : Packet) : Hook → Bool
  | .input => (d.policy p.iif).all fun f => judged f.inbound f.defaultDeny p
  | .output => (d.policy p.oif).all fun f => judged f.outbound f.defaultDeny p
  | _ => true

/-- Whether the groups of the interfaces a packet is on open the host's `FORWARD` policy for it. -/
def opened (d : Device) (p : Packet) : Bool :=
  opens p.iif (d.groups p.iif) p || opens p.oif (d.groups p.oif) p

def rewriting (d : Device) (p : Packet) : Option Rewrite :=
  rewriteFor p.iif (d.groups p.iif) p

end Device

def LoadsPolicy (d : Device) : Step → Prop
  | .apply iface filter _ => d.hasFilter = true ∧ d.policy iface ≠ filter ∧
      ∃ script, render iface filter = .ok script
  | .teardown iface => d.hasFilter = true ∧ interfaceNameOk iface = true

def LoadsForward (d : Device) : Step → Prop
  | .apply iface filter advertised => d.hasFilter = true ∧
      (d.policy iface = filter ∨ ∃ script, render iface filter = .ok script) ∧
      (d.reconcilers iface).lastAdvertised ≠ advertised ∧
      ∃ routes script, advertised = some routes ∧ renderForward iface routes.groups = .ok script
  | .teardown iface => d.hasFilter = true ∧ interfaceNameOk iface = true

def Alone (d : Device) (a : Step) : Prop :=
  (LoadsPolicy d a → ∀ iface ≠ a.iface, d.policy iface = none) ∧
    (LoadsForward d a → ∀ iface ≠ a.iface, advertised (d.groups iface) = [])

/-- Each table is the one its owner last loaded, and no other membership has anything in it. -/
structure Owned (host : Foreign) (d : Device) : Prop where
  policy : ∃ i ts, policyTables i (d.policy i) = .ok ts ∧ d.kernel.rules.named tableKey = ts ∧
    ∀ j ≠ i, d.policy j = none
  forward : ∃ i c ps, carriedPrefixes (d.groups i) = .ok c ∧
    carriedPrefixList (d.groups i) = .ok ps ∧
    d.kernel.rules.named forwardKey = forwardTables i (d.groups i) c ∧
    ((d.kernel.rules.without tableKey).without forwardKey =
        host.carrying (carryChainRules i ps) ∨
      (d.kernel.rules.without tableKey).without forwardKey = host.rules ∧ ps = []) ∧
    ∀ j ≠ i, advertised (d.groups j) = []
  forwarding : ∀ i, d.groups i ≠ [] → d.kernel.forwarding = true
  usable : ∀ i, interfaceNameOk i = false → d.policy i = none ∧ d.groups i = []

theorem owned_fresh (host : Foreign) (forwarding hasFilter : Bool) :
    Owned host (fresh host forwarding hasFilter) where
  policy := ⟨"", [], rfl, host.noPolicy, fun _ _ => rfl⟩
  forward := by
    refine ⟨"", ⟨⟨[], []⟩, false⟩, [], rfl, rfl, host.noForward, .inr ⟨?_, rfl⟩, fun _ _ => rfl⟩
    change (host.rules.without tableKey).without forwardKey = host.rules
    rw [Ruleset.without_of_named_nil host.noPolicy, Ruleset.without_of_named_nil host.noForward]
  forwarding := fun i h => absurd rfl h
  usable := fun _ _ => ⟨rfl, rfl⟩

variable {groups : List AdvertisedGroup} {iface i : String} {d : Device} {ts : Ruleset}

theorem opens_of_nothing (p : Packet) (h : advertised groups = []) :
    opens iface groups p = false := by
  simp [opens, carriedTo, someIn, h]

theorem rewriteFor_of_nothing (p : Packet) (h : advertised groups = []) :
    rewriteFor iface groups p = none := by
  simp [rewriteFor, carriedTo, carriesDefault, someIn, h]

theorem opens_elsewhere (groups : List AdvertisedGroup) {p : Packet} (hi : p.iif ≠ iface)
    (ho : p.oif ≠ iface) : opens iface groups p = false := by
  simp [opens, hi, ho]

theorem opened_eq (h : ∀ j ≠ i, advertised (d.groups j) = []) (p : Packet) :
    d.opened p = opens i (d.groups i) p := by
  unfold Device.opened
  by_cases hi : p.iif = i
  · by_cases ho : p.oif = i
    · rw [hi, ho, Bool.or_self]
    · rw [hi, opens_of_nothing p (h p.oif ho), Bool.or_false]
  · rw [opens_of_nothing p (h p.iif hi), Bool.false_or]
    by_cases ho : p.oif = i
    · rw [ho]
    · rw [opens_of_nothing p (h p.oif ho), opens_elsewhere _ hi ho]

theorem rewriting_eq (h : ∀ j ≠ i, advertised (d.groups j) = []) (p : Packet) :
    d.rewriting p = rewriteFor i (d.groups i) p := by
  unfold Device.rewriting
  by_cases hi : p.iif = i
  · rw [hi]
  · rw [rewriteFor_of_nothing p (h p.iif hi)]
    simp [rewriteFor, hi]

theorem policyTables_passes (hts : policyTables i (d.policy i) = .ok ts)
    (h : ∀ j ≠ i, d.policy j = none) (hook : Hook) (p : Packet) :
    ts.passes hook p = d.permits p hook := by
  have hother : ∀ {name : String} {q : PacketFilter → Bool}, name ≠ i →
      (d.policy name).all q = true := by
    intro name q hname
    rw [h name hname]
    rfl
  cases hf : d.policy i with
  | none =>
    rw [hf] at hts
    cases hts
    have hall : ∀ name, d.policy name = none := by
      intro name
      by_cases hname : name = i
      · rw [hname, hf]
      · exact h name hname
    cases hook <;> simp [Ruleset.passes, Device.permits, hall]
  | some f =>
    rw [hf] at hts
    rcases Base.map_eq_ok.1 hts with ⟨t, ht, rfl⟩
    simp only [Ruleset.passes, List.all_cons, List.all_nil, Bool.and_true, filterTable_passes ht]
    cases hook with
    | input =>
      by_cases hi : p.iif = i
      · simp [Device.permits, hi, hf]
      · simp [Device.permits, hi, hother hi]
    | output =>
      by_cases ho : p.oif = i
      · simp [Device.permits, ho, hf]
      · simp [Device.permits, ho, hother ho]
    | _ => rfl

theorem policyTables_rewrites {f : Option PacketFilter} (hts : policyTables i f = .ok ts)
    (p : Packet) (how : Rewrite) : ts.rewrites p how = false := by
  cases f with
  | none =>
    cases hts
    rfl
  | some f =>
    rcases Base.map_eq_ok.1 hts with ⟨t, ht, rfl⟩
    simp [Ruleset.rewrites, filterTable_rewrites ht]

theorem forwardTables_passes (i : String) (groups : List AdvertisedGroup) (c : Carried)
    (hook : Hook) (p : Packet) : (forwardTables i groups c).passes hook p = true := by
  unfold forwardTables
  by_cases hc : c.Nothing <;> simp [hc, Ruleset.passes, forwardTable_passes]

theorem forwardTables_rewrites {c : Carried} (h : carriedPrefixes groups = .ok c) (p : Packet)
    (how : Rewrite) :
    (forwardTables i groups c).rewrites p how = decide (rewriteFor i groups p = some how) := by
  unfold forwardTables
  by_cases hc : c.Nothing
  · rw [if_pos hc, rewriteFor_of_nothing p ((carriedPrefixes_nothing h).1 hc)]
    rfl
  · rw [if_neg hc]
    simp only [Ruleset.rewrites, List.any_cons, List.any_nil, Bool.or_false,
      forwardTable_rewrites h]

theorem Owned.passes {host : Foreign} (h : Owned host d) (hook : Hook) (p : Packet) :
    d.kernel.rules.passes hook p =
      ((if d.opened p then host.opened else host.rules).passes hook p && d.permits p hook) := by
  rcases h.policy with ⟨i, ts, hts, hnamed, hothers⟩
  rcases h.forward with ⟨i', c, ps, hc, hps, hforward, hrest, hothers'⟩
  have hhost : ((d.kernel.rules.without tableKey).without forwardKey).passes hook p =
      (if d.opened p then host.opened else host.rules).passes hook p := by
    have hhits : (carryChainRules i' ps).any (·.hits p) = opens i' (d.groups i') p :=
      carryChainRules_hits hps
    rw [opened_eq hothers' p, ← hhits]
    rcases hrest with hrest | ⟨hrest, rfl⟩
    · rw [hrest, host.passes_carrying _ (carryChainRules_accept i' ps)]
    · rw [hrest]
      rfl
  have hkeys : forwardKey ≠ tableKey := by decide
  rw [Ruleset.passes_split _ tableKey, Ruleset.passes_split (d.kernel.rules.without tableKey)
    forwardKey, hhost, Ruleset.named_without hkeys, hforward, forwardTables_passes, hnamed,
    policyTables_passes hts hothers, Bool.and_true]

theorem Owned.rewrites {host : Foreign} (h : Owned host d) (p : Packet) (how : Rewrite) :
    d.kernel.rules.rewrites p how =
      (host.rules.rewrites p how || decide (d.rewriting p = some how)) := by
  rcases h.policy with ⟨i, ts, hts, hnamed, _⟩
  rcases h.forward with ⟨i', c, ps, hc, hps, hforward, hrest, hothers'⟩
  have hhost : ((d.kernel.rules.without tableKey).without forwardKey).rewrites p how =
      host.rules.rewrites p how := by
    rcases hrest with hrest | ⟨hrest, _⟩
    · rw [hrest, host.rewrites_carrying _ (carryChainRules_accept i' ps)]
    · rw [hrest]
  have hkeys : forwardKey ≠ tableKey := by decide
  rw [Ruleset.rewrites_split _ tableKey, Ruleset.rewrites_split (d.kernel.rules.without tableKey)
    forwardKey, hhost, Ruleset.named_without hkeys, hforward, forwardTables_rewrites hc, hnamed,
    policyTables_rewrites hts, Bool.or_false, rewriting_eq hothers']

namespace Device

variable (d : Device) (iface : String) (r : Reconciler)

theorem policy_remember :
    (d.remember iface r).policy = update d.policy iface r.lastFilter := by
  funext j
  by_cases hj : j = iface
  · subst hj
    simp [policy, remember]
  · simp [policy, remember, hj]

theorem groups_remember :
    (d.remember iface r).groups = update d.groups iface
      ((r.lastAdvertised.map AdvertisedRoutes.groups).getD []) := by
  funext j
  by_cases hj : j = iface
  · subst hj
    simp [groups, remember]
  · simp [groups, remember, hj]

end Device

theorem policy_loaded {want : Option PacketFilter} (hts : policyTables i want = .ok ts)
    (rs : Ruleset) :
    (rs.without tableKey ++ ts).named tableKey = ts ∧
      (rs.without tableKey ++ ts).named forwardKey = rs.named forwardKey ∧
      ((rs.without tableKey ++ ts).without tableKey).without forwardKey =
        (rs.without tableKey).without forwardKey := by
  obtain ⟨hnamed, hrest, hothers⟩ :=
    Ruleset.replaced rs fun t ht => ((policyTables_acts hts).2 t ht).1
  exact ⟨hnamed, hothers _ (by decide), by rw [hrest]⟩

theorem forward_loaded (i : String) (gs : List AdvertisedGroup) (c : Carried) (rs : Ruleset) :
    (rs.without forwardKey ++ forwardTables i gs c).named forwardKey = forwardTables i gs c ∧
      (rs.without forwardKey ++ forwardTables i gs c).named tableKey = rs.named tableKey ∧
      ((rs.without forwardKey ++ forwardTables i gs c).without tableKey).without forwardKey =
        (rs.without tableKey).without forwardKey := by
  obtain ⟨hnamed, hrest, hothers⟩ :=
    Ruleset.replaced rs fun t ht => ((forwardTables_acts i gs c).2 t ht).1
  refine ⟨hnamed, hothers _ (by decide), ?_⟩
  rw [Ruleset.without_comm, hrest, Ruleset.without_comm]

theorem carry_loaded (rs : Ruleset) (rules : List Rule) :
    (Nftables.carry rs rules).named forwardKey = rs.named forwardKey ∧
      (Nftables.carry rs rules).named tableKey = rs.named tableKey ∧
      ((Nftables.carry rs rules).without tableKey).without forwardKey =
        Nftables.carry ((rs.without tableKey).without forwardKey) rules := by
  have hforward : forwardKey ≠ carryKey := by decide
  have htable : tableKey ≠ carryKey := by decide
  refine ⟨carry_named _ _ hforward, carry_named _ _ htable, ?_⟩
  rw [carry_without _ _ htable.symm, carry_without _ _ hforward.symm]

section Keep

variable {host : Foreign} {d d' : Device} {i : String}

theorem Owned.load_policy (h : Owned host d) (hothers : ∀ j ≠ i, d.policy j = none)
    (hname : interfaceNameOk i = true) {want : Option PacketFilter} {ts : Ruleset}
    (hts : policyTables i want = .ok ts)
    (hk : d'.kernel = { d.kernel with rules := d.kernel.rules.without tableKey ++ ts })
    (hp : d'.policy = update d.policy i want) (hg : d'.groups = d.groups) :
    Owned host d' := by
  rcases policy_loaded hts d.kernel.rules with ⟨hnamed, hfwd, hhost⟩
  refine ⟨⟨i, ts, ?_, ?_, ?_⟩, ?_, ?_, ?_⟩
  · rw [hp, update_self]
    exact hts
  · rw [hk]
    exact hnamed
  · intro j hj
    rw [hp, update_of_ne hj]
    exact hothers j hj
  · rcases h.forward with ⟨i', c, ps, hc, hps, hforward, hrest, hothers'⟩
    refine ⟨i', c, ps, hg ▸ hc, hg ▸ hps, ?_, ?_, hg ▸ hothers'⟩
    · rw [hk, hfwd, hg]
      exact hforward
    · rw [hk, hhost]
      exact hrest
  · intro j hj
    rw [hk]
    exact h.forwarding j (hg ▸ hj)
  · intro j hj
    have hne : j ≠ i := by
      rintro rfl
      rw [hname] at hj
      cases hj
    rw [hp, hg, update_of_ne hne]
    exact h.usable j hj

theorem Owned.load_forward (h : Owned host d) (hothers : ∀ j ≠ i, advertised (d.groups j) = [])
    (hname : interfaceNameOk i = true) {gs : List AdvertisedGroup} {c : Carried}
    {ps : List Netip.Prefix} (hc : carriedPrefixes gs = .ok c) (hps : carriedPrefixList gs = .ok ps)
    (hrules : d'.kernel.rules = Nftables.carry
      (d.kernel.rules.without forwardKey ++ forwardTables i gs c) (carryChainRules i ps))
    (hfwd : d'.kernel.forwarding = (d.kernel.forwarding || decide (gs ≠ [])))
    (hp : d'.policy = d.policy) (hg : d'.groups = update d.groups i gs) :
    Owned host d' := by
  rcases forward_loaded i gs c d.kernel.rules with ⟨hnamed, hpol, hrest⟩
  rcases carry_loaded (d.kernel.rules.without forwardKey ++ forwardTables i gs c)
    (carryChainRules i ps) with ⟨hnamed', hpol', hrest'⟩
  refine ⟨?_, ⟨i, c, ps, ?_, ?_, ?_, .inl ?_, ?_⟩, ?_, ?_⟩
  · rcases h.policy with ⟨i', ts, hts, hn, ho⟩
    refine ⟨i', ts, hp ▸ hts, ?_, hp ▸ ho⟩
    rw [hrules, hpol', hpol]
    exact hn
  · rw [hg, update_self]
    exact hc
  · rw [hg, update_self]
    exact hps
  · rw [hrules, hnamed', hnamed, hg, update_self]
  · -- Whether the jump was there or not, there is one seam afterwards.
    rw [hrules, hrest', hrest]
    rcases h.forward with ⟨_, _, ps', _, _, _, hold | ⟨hold, _⟩, _⟩
    · rw [hold, host.carry_carrying]
    · rw [hold, host.carry_rules]
  · intro j hj
    rw [hg, update_of_ne hj]
    exact hothers j hj
  · intro j hj
    rw [hfwd]
    by_cases hji : j = i
    · subst hji
      rw [hg, update_self] at hj
      simp [hj]
    · rw [hg, update_of_ne hji] at hj
      rw [h.forwarding j hj, Bool.true_or]
  · intro j hj
    have hne : j ≠ i := by
      rintro rfl
      rw [hname] at hj
      cases hj
    rw [hp, hg, update_of_ne hne]
    exact h.usable j hj

theorem Owned.same_rules (h : Owned host d) (hrules : d'.kernel.rules = d.kernel.rules)
    (hfwd : d.kernel.forwarding = true → d'.kernel.forwarding = true) (hp : d'.policy = d.policy)
    (hg : d'.groups = d.groups) : Owned host d' := by
  refine ⟨?_, ?_, ?_, ?_⟩
  · rw [hrules, hp]
    exact h.policy
  · rw [hrules, hg]
    exact h.forward
  · intro j hj
    exact hfwd (h.forwarding j (hg ▸ hj))
  · rw [hp, hg]
    exact h.usable

end Keep

section Steps

variable {host : Foreign} {d : Device} {i : String}

theorem applyFilter_cases (d : Device) (i : String) (want : Option PacketFilter) :
    ((applyFilter d i want).1 = d ∧
      ((applyFilter d i want).2 = [] → d.hasFilter = true → d.policy i = want)) ∨
    (d.hasFilter = true ∧ d.policy i ≠ want ∧ ∃ kernel, Filter.apply d.kernel i want = .ok kernel ∧
      applyFilter d i want =
        ({ d with kernel }.remember i { d.reconcilers i with lastFilter := want }, [])) := by
  unfold applyFilter
  by_cases hf : d.hasFilter = false
  · left
    simp [hf]
  · by_cases hsame : d.policy i = want
    · left
      simp [hf, hsame]
    · rw [if_neg hf, if_neg hsame]
      cases ha : Filter.apply d.kernel i want with
      | error e =>
        left
        simp
      | ok kernel =>
        right
        exact ⟨by simpa using hf, hsame, kernel, rfl, rfl⟩

theorem owned_applyFilter (h : Owned host d) {want : Option PacketFilter}
    (halone : d.hasFilter = true → d.policy i ≠ want → (∃ script, render i want = .ok script) →
      ∀ j ≠ i, d.policy j = none) : Owned host (applyFilter d i want).1 := by
  rcases applyFilter_cases d i want with ⟨hd, _⟩ | ⟨hf, hne, kernel, happly, hd⟩
  · rw [hd]
    exact h
  · rcases Filter.apply_eq.1 happly with ⟨hname, ts, hts, rfl⟩
    rw [hd]
    refine h.load_policy (halone hf hne ⟨_, render_eq.2 ⟨hname, ts, hts, rfl⟩⟩) hname hts rfl
      (Device.policy_remember _ _ _) ?_
    rw [Device.groups_remember]
    exact update_eq_self i d.groups

theorem applyFilter_keeps (d : Device) (i : String) (want : Option PacketFilter) :
    (applyFilter d i want).1.hasFilter = d.hasFilter ∧
      (applyFilter d i want).1.groups = d.groups ∧
      ((applyFilter d i want).1.reconcilers i).lastAdvertised =
        (d.reconcilers i).lastAdvertised ∧
      ∀ j ≠ i, (applyFilter d i want).1.reconcilers j = d.reconcilers j := by
  rcases applyFilter_cases d i want with ⟨hd, _⟩ | ⟨_, _, kernel, _, hd⟩
  · rw [hd]
    exact ⟨rfl, rfl, rfl, fun _ _ => rfl⟩
  · rw [hd]
    refine ⟨rfl, ?_, ?_, fun j hj => update_of_ne hj _ _⟩
    · rw [Device.groups_remember]
      exact update_eq_self i d.groups
    · simp [Device.remember]

theorem applyForwarding_cases (d : Device) (i : String) (want : Option AdvertisedRoutes) :
    (applyForwarding d i want).1 = d ∨
    (d.hasFilter = true ∧ ∃ routes, want = some routes ∧
      (d.reconcilers i).lastAdvertised ≠ want ∧
      ((∃ kernel e, Filter.applyForward d.kernel i routes.groups = (kernel, some e) ∧
          (applyForwarding d i want).1 = { d with kernel }) ∨
        ∃ kernel, Filter.applyForward d.kernel i routes.groups = (kernel, none) ∧
          (applyForwarding d i want).1 =
            { d with kernel }.remember i { d.reconcilers i with lastAdvertised := want })) := by
  cases want with
  | none => exact .inl rfl
  | some routes =>
    simp only [applyForwarding]
    by_cases hf : d.hasFilter = false
    · left
      simp [hf]
    · by_cases hsame : (d.reconcilers i).lastAdvertised = some routes
      · left
        simp [hf, hsame]
      · right
        simp only [if_neg hf, if_neg hsame]
        refine ⟨by simpa using hf, routes, rfl, hsame, ?_⟩
        rcases ha : Filter.applyForward d.kernel i routes.groups with ⟨kernel, _ | e⟩
        · exact .inr ⟨kernel, rfl, rfl⟩
        · exact .inl ⟨kernel, e, rfl, rfl⟩

theorem owned_applyForwarding (h : Owned host d) {want : Option AdvertisedRoutes}
    (halone : d.hasFilter = true → (d.reconcilers i).lastAdvertised ≠ want →
      (∃ routes script, want = some routes ∧ renderForward i routes.groups = .ok script) →
      ∀ j ≠ i, advertised (d.groups j) = []) : Owned host (applyForwarding d i want).1 := by
  rcases applyForwarding_cases d i want with hd | ⟨hf, routes, rfl, hne, hload⟩
  · rw [hd]
    exact h
  · rcases hload with ⟨kernel, e, happly, hd⟩ | ⟨kernel, happly, hd⟩
    · rw [hd]
      rcases Filter.applyForward_eq d.kernel i routes.groups with
        ⟨c, ps, _, _, _, heq⟩ | ⟨_, e', heq⟩
      · rw [happly] at heq
        cases heq
      · rw [happly] at heq
        cases heq
        exact h.same_rules rfl (fun hfwd => by simp [hfwd]) rfl rfl
    · rw [hd]
      rcases Filter.applyForward_eq d.kernel i routes.groups with
        ⟨c, ps, hname, hc, hps, heq⟩ | ⟨_, e', heq⟩
      · rw [happly] at heq
        cases heq
        refine h.load_forward (halone hf hne ⟨routes, _, rfl, renderForward_eq.2
          ⟨hname, c, hc, rfl⟩⟩) hname hc hps rfl rfl ?_ (Device.groups_remember _ _ _)
        rw [Device.policy_remember]
        exact update_eq_self i d.policy
      · rw [happly] at heq
        cases heq

theorem owned_pass (h : Owned host d) {filter : Option PacketFilter}
    {want : Option AdvertisedRoutes} (halone : Alone d (.apply i filter want)) :
    Owned host (pass d i filter want) := by
  rcases applyFilter_keeps d i filter with ⟨hhas, hgroups, hlast, _⟩
  have hfirst : Owned host (applyFilter d i filter).1 :=
    owned_applyFilter h fun hf hne hr => halone.1 ⟨hf, hne, hr⟩
  unfold pass
  by_cases hok : (applyFilter d i filter).2 = []
  · rw [if_pos hok]
    refine owned_applyForwarding hfirst fun hf hne hr => ?_
    rw [hhas] at hf
    rw [hlast] at hne
    rw [hgroups]
    -- The forwarding is only reached with the policy as it was or just loaded.
    have hreached : d.policy i = filter ∨ ∃ script, render i filter = .ok script := by
      rcases applyFilter_cases d i filter with ⟨_, hskip⟩ | ⟨_, _, kernel, happly, _⟩
      · exact .inl (hskip hok hf)
      · rcases Filter.apply_eq.1 happly with ⟨hname, ts, hts, _⟩
        exact .inr ⟨_, render_eq.2 ⟨hname, ts, hts, rfl⟩⟩
    exact halone.2 ⟨hf, hreached, hne, hr⟩
  · rw [if_neg hok]
    exact hfirst

theorem owned_teardown (h : Owned host d) (halone : Alone d (.teardown i)) :
    Owned host (teardown d i) := by
  unfold teardown
  by_cases hf : d.hasFilter = false
  · rw [if_pos hf]
    exact h
  rw [if_neg hf]
  have hf' : d.hasFilter = true := by simpa using hf
  by_cases hname : interfaceNameOk i = true
  · have happly : Filter.apply d.kernel i none =
        .ok { d.kernel with rules := d.kernel.rules.without tableKey ++ [] } :=
      Filter.apply_eq.2 ⟨hname, [], rfl, rfl⟩
    -- The policy goes first, and leaves a state the forwarding is removed from.
    let d₁ : Device := { d with kernel :=
      { d.kernel with rules := d.kernel.rules.without tableKey ++ [] } }.remember i
        { d.reconcilers i with lastFilter := none }
    have hgroups : d₁.groups = d.groups :=
      (Device.groups_remember _ _ _).trans (update_eq_self i d.groups)
    have hnone : policyTables i none = .ok [] := rfl
    have hfirst : Owned host d₁ := h.load_policy (halone.1 ⟨hf', hname⟩) hname hnone rfl
      (Device.policy_remember _ _ _) hgroups
    rw [happly]
    rcases Filter.applyForward_eq
        { d.kernel with rules := d.kernel.rules.without tableKey ++ [] } i [] with
      ⟨c, ps, _, hc, hps, heq⟩ | ⟨hbad | ⟨e, hbad⟩, _⟩
    · simp only [heq]
      refine hfirst.load_forward (i := i) ?_ hname hc hps rfl rfl ?_ ?_
      · rw [hgroups]
        exact halone.2 ⟨hf', hname⟩
      · rw [Device.policy_remember, Device.policy_remember]
        rfl
      · rw [Device.groups_remember, hgroups]
        rfl
    · rw [hname] at hbad
      cases hbad
    · cases hbad
  · have hbad : interfaceNameOk i = false := by simpa using hname
    rcases h.usable i hbad with ⟨hpolicy, hgroups⟩
    have hkernel : (match Filter.apply d.kernel i none with
        | .ok kernel => kernel
        | .error _ => d.kernel) = d.kernel := by
      cases ha : Filter.apply d.kernel i none with
      | error e => rfl
      | ok kernel => exact absurd (Filter.apply_eq.1 ha).1 hname
    rw [hkernel]
    rcases Filter.applyForward_eq d.kernel i [] with ⟨c, ps, hok, _⟩ | ⟨_, e, heq⟩
    · exact absurd hok hname
    · simp only [heq]
      refine h.same_rules rfl (fun hfwd => by simp [Device.remember, hfwd]) ?_ ?_
      · rw [Device.policy_remember]
        exact (congrArg (update d.policy i) hpolicy.symm).trans
          (update_eq_self i d.policy)
      · rw [Device.groups_remember]
        exact (congrArg (update d.groups i) hgroups.symm).trans
          (update_eq_self i d.groups)

theorem owned_step (h : Owned host d) {a : Step} (halone : Alone d a) : Owned host (step d a) := by
  cases a with
  | apply i filter want => exact owned_pass h halone
  | teardown i => exact owned_teardown h halone

theorem teardown_self (d : Device) (i : String) (hf : d.hasFilter = true) :
    (step d (.teardown i)).reconcilers i = {} := by
  simp [step, teardown, hf, Device.remember]

theorem step_other (d : Device) (a : Step) {j : String} (hj : j ≠ a.iface) :
    (step d a).reconcilers j = d.reconcilers j := by
  cases a with
  | apply i filter want =>
    have hfirst := (applyFilter_keeps d i filter).2.2.2 j hj
    change (pass d i filter want).reconcilers j = _
    unfold pass
    by_cases hok : (applyFilter d i filter).2 = []
    · rw [if_pos hok]
      rcases applyForwarding_cases (applyFilter d i filter).1 i want with
        hd | ⟨_, _, _, _, ⟨_, _, _, hd⟩ | ⟨_, _, hd⟩⟩
      · rw [hd]
        exact hfirst
      · rw [hd]
        exact hfirst
      · rw [hd]
        exact (update_of_ne hj _ _).trans hfirst
    · rw [if_neg hok]
      exact hfirst
  | teardown i =>
    change (teardown d i).reconcilers j = _
    unfold teardown
    by_cases hf : d.hasFilter = false
    · rw [if_pos hf]
    · rw [if_neg hf]
      exact update_of_ne hj _ _

end Steps

def On (p : Packet) (iface : String) : Prop :=
  p.iif = iface ∨ p.oif = iface

/-- In every run whose loads each happen while no other membership has anything in the table, every
packet is judged by the policies, and forwarded by the groups, last applied for the interfaces it is
on; and a further step of that kind changes nothing for a packet that is not on the step's
interface. -/
theorem packets_judged_by_own_membership (host : Foreign) (forwarding hasFilter : Bool)
    (steps : List Step) (h : Along step Alone (fresh host forwarding hasFilter) steps) :
    let d := run step (fresh host forwarding hasFilter) steps
    (∀ hook p, d.kernel.rules.passes hook p =
      ((if d.opened p then host.opened else host.rules).passes hook p && d.permits p hook)) ∧
    (∀ p how, d.kernel.rules.rewrites p how =
      (host.rules.rewrites p how || decide (d.rewriting p = some how))) ∧
    (∀ iface, d.groups iface ≠ [] → d.kernel.forwarding = true) ∧
    ∀ a, Alone d a → ∀ p, ¬On p a.iface →
      (∀ hook, (step d a).kernel.rules.passes hook p = d.kernel.rules.passes hook p) ∧
      ∀ how, (step d a).kernel.rules.rewrites p how = d.kernel.rules.rewrites p how := by
  intro d
  have howned : Owned host d :=
    run_inv_along (Owned host) (fun s a hs ha => owned_step hs ha) _ steps
      (owned_fresh host forwarding hasFilter) h
  refine ⟨howned.passes, howned.rewrites, howned.forwarding, fun a halone p hon => ?_⟩
  rw [On, not_or] at hon
  have hi : (step d a).reconcilers p.iif = d.reconcilers p.iif := step_other d a hon.1
  have ho : (step d a).reconcilers p.oif = d.reconcilers p.oif := step_other d a hon.2
  have hstep := owned_step howned halone
  constructor
  · intro hook
    have hopened : (step d a).opened p = d.opened p := by
      simp only [Device.opened, Device.groups, hi, ho]
    have hpermits : (step d a).permits p hook = d.permits p hook := by
      cases hook <;> simp only [Device.permits, Device.policy, hi, ho]
    rw [hstep.passes, howned.passes, hopened, hpermits]
  · intro how
    have hrewriting : (step d a).rewriting p = d.rewriting p := by
      simp only [Device.rewriting, Device.groups, hi]
    rw [hstep.rewrites, howned.rewrites, hrewriting]

def denyAll : PacketFilter := { defaultDeny := true }

/-- A host whose own `FORWARD` chain drops what nothing accepts. -/
def dropsForwarded : Foreign where
  rules := [⟨carryKey, [⟨"FORWARD", some ⟨.filter, .forward, 0, .drop⟩, []⟩]⟩]
  noPolicy := by decide
  noForward := by decide
  clear := by
    intro t ht _
    rw [List.mem_singleton.1 ht]
    refine ⟨by decide, fun c hc r hr => ?_⟩
    rw [List.mem_singleton.1 hc] at hr
    cases hr
  noJump := by decide

def arriving (iface : String) : Packet where
  iif := iface
  oif := ""
  src := .v4 0x645a0003
  dst := .v4 0x645a0002
  oneFamily := rfl
  extensions := []
  bare := fun _ => rfl
  l4proto := 6
  dport := 22
  ct := .new

def leavingFirst : List Step :=
  [.apply "meshp0" (some denyAll) (some ⟨[⟨"1", "lab", ["192.168.1.0/24"], ""⟩]⟩),
    .teardown "meshp0", .apply "meshp1" (some denyAll) (some ⟨[]⟩)]

theorem packets_judged_after_leaving :
    Along step Alone (fresh dropsForwarded false true) leavingFirst ∧
      (run step (fresh dropsForwarded false true) leavingFirst).kernel.rules.passes .input
        (arriving "meshp1") = false := by
  have hnone : ∀ d : Device, d.reconcilers = (fun _ => {}) → ∀ a, Alone d a := by
    intro d hd a
    refine ⟨fun _ j _ => ?_, fun _ j _ => ?_⟩ <;> simp [Device.policy, Device.groups, hd, advertised]
  have hfirst : ∀ j, j ≠ "meshp0" → (step (fresh dropsForwarded false true) (leavingFirst.head
      (by decide))).reconcilers j = {} := fun j hj => step_other _ _ hj
  have halong : Along step Alone (fresh dropsForwarded false true) leavingFirst := by
    refine ⟨hnone _ rfl _, ⟨fun _ j hj => ?_, fun _ j hj => ?_⟩, hnone _ ?_ _, trivial⟩
    · exact congrArg Reconciler.lastFilter (hfirst j hj)
    · exact congrArg (fun r => advertised ((r.lastAdvertised.map AdvertisedRoutes.groups).getD []))
        (hfirst j hj)
    · funext j
      by_cases hj : j = "meshp0"
      · subst hj
        refine teardown_self _ _ ?_
        decide +kernel
      · exact (step_other _ _ hj).trans (hfirst j hj)
  refine ⟨halong, ?_⟩
  rw [(packets_judged_by_own_membership dropsForwarded false true leavingFirst halong).1]
  decide +kernel

/-- A second membership's pass takes the first one's policy out of the kernel, and the first one's
next pass, with nothing new to apply, leaves it out. -/
theorem policy_lost_to_second_membership :
    let first := run step (fresh dropsForwarded false true) [.apply "meshp0" (some denyAll) none]
    let both := run step first [.apply "meshp1" (some denyAll) none]
    let again := run step both [.apply "meshp0" (some denyAll) none]
    first.kernel.rules.passes .input (arriving "meshp0") = false ∧
      both.kernel.rules.passes .input (arriving "meshp0") = true ∧
      again.policy "meshp0" = some denyAll ∧
      again.permits (arriving "meshp0") .input = false ∧
      again.kernel.rules.passes .input (arriving "meshp0") = true := by
  decide +kernel

end Meshp.Tunnel
