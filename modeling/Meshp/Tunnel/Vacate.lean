import Meshp.Tunnel.Reconciler

/-!
# Ceasing to Carry

What is left of a membership's forwarding on its host. A membership has vacated
the host when the forwarding table, and the carry chain behind the host's own
`FORWARD` chain, hold nothing that was loaded for its interface.
-/

namespace Meshp.Tunnel

open Netfilter
open Nftables
open Wire (PacketFilter AdvertisedRoutes AdvertisedGroup)

/-- Which of the calls `ApplyForward` makes fails: letting the host forward, loading the table, or
filling the carry chain. -/
inductive Stop
  | enabling
  | loading
  | carrying
  deriving DecidableEq

/-- `Filter.ApplyForward`, failing at one of its calls. -/
def applyForwardUntil (stop : Option Stop) (k : Kernel) (iface : String)
    (groups : List AdvertisedGroup) : Kernel × Option Fault :=
  if groups ≠ [] ∧ stop = some .enabling then (k, some .loading)
  else
    let k := if groups = [] then k else enableForwarding k
    match renderForward iface groups with
    | .error e => (k, some e)
    | .ok script =>
      if stop = some .loading then (k, some .loading)
      else match Nftables.apply k script with
        | .error e => (k, some e)
        | .ok k =>
          if stop = some .carrying then (k, some .loading)
          else match Nftables.carryGroups k iface groups with
            | .error e => (k, some e)
            | .ok k => (k, none)

/-- `applyForwarding`, failing at one of its calls. -/
def applyForwardingUntil (stop : Option Stop) (d : Device) (iface : String) :
    Option AdvertisedRoutes → Device × List String
  | none => (d, [])
  | some advertised =>
    if d.hasFilter = false then (d, if advertised.groups = [] then [] else ["forwarding"])
    else if (d.reconcilers iface).lastAdvertised = some advertised then (d, [])
    else match applyForwardUntil stop d.kernel iface advertised.groups with
      | (kernel, some _) => ({ d with kernel }, ["forwarding"])
      | (kernel, none) =>
        ({ d with kernel }.remember iface
          { d.reconcilers iface with lastAdvertised := some advertised }, [])

inductive Outcome
  | ends
  | runs (stop : Option Stop)
  deriving DecidableEq

def passUntil (d : Device) (iface : String) (filter : Option PacketFilter)
    (advertised : Option AdvertisedRoutes) : Outcome → Device × Option (List String)
  | .ends => (d, none)
  | .runs stop =>
    let filtered := applyFilter d iface filter
    if filtered.2 = [] then
      let forwarded := applyForwardingUntil stop filtered.1 iface advertised
      (forwarded.1, some forwarded.2)
    else (filtered.1, none)

section Fails

variable (d : Device) (k : Kernel) (iface : String) (groups : List AdvertisedGroup)

theorem applyForwardUntil_none :
    applyForwardUntil none k iface groups = Filter.applyForward k iface groups := by
  unfold applyForwardUntil Filter.applyForward
  rw [if_neg (by simp)]
  simp only [reduceCtorEq, if_false]
  cases renderForward iface groups <;> rfl

theorem applyForwardingUntil_none (want : Option AdvertisedRoutes) :
    applyForwardingUntil none d iface want = applyForwarding d iface want := by
  cases want with
  | none => rfl
  | some advertised =>
    rw [applyForwardingUntil, applyForwardUntil_none]
    rfl

theorem passUntil_none (filter : Option PacketFilter) (advertised : Option AdvertisedRoutes) :
    (passUntil d iface filter advertised (.runs none)).1 = pass d iface filter advertised := by
  simp only [passUntil, pass, applyForwardingUntil_none]
  split <;> rfl

theorem applyForwardUntil_cases (stop : Option Stop) :
    ((applyForwardUntil stop k iface groups).1.rules = k.rules ∧
      (applyForwardUntil stop k iface groups).2 ≠ none) ∨
    (∃ c ps, carriedPrefixes groups = .ok c ∧ carriedPrefixList groups = .ok ps ∧
      (applyForwardUntil stop k iface groups).1.rules =
        Nftables.carry (k.rules.without forwardKey ++ forwardTables iface groups c)
          (carryChainRules iface ps) ∧
      (applyForwardUntil stop k iface groups).2 = none) ∨
    (stop = some .carrying ∧ ∃ c, carriedPrefixes groups = .ok c ∧
      (applyForwardUntil stop k iface groups).1.rules =
        k.rules.without forwardKey ++ forwardTables iface groups c ∧
      (applyForwardUntil stop k iface groups).2 ≠ none) := by
  -- With no call failing, it is the forwarding that was specified before.
  by_cases hwhole : applyForwardUntil stop k iface groups = Filter.applyForward k iface groups
  · rw [hwhole]
    rcases Filter.applyForward_eq k iface groups with ⟨c, ps, _, hc, hps, h⟩ | ⟨_, e, h⟩
    · rw [h]
      exact .inr (.inl ⟨c, ps, hc, hps, rfl, rfl⟩)
    · rw [h]
      exact .inl ⟨rfl, by simp⟩
  have hk : (if groups = [] then k else enableForwarding k).rules = k.rules := by
    split <;> rfl
  cases stop with
  | none => exact absurd (applyForwardUntil_none k iface groups) hwhole
  | some s =>
    cases s with
    | enabling =>
      by_cases hg : groups = []
      · refine absurd ?_ hwhole
        rw [← applyForwardUntil_none]
        simp [applyForwardUntil, hg]
      · left
        simp [applyForwardUntil, hg]
    | loading =>
      left
      simp only [applyForwardUntil, Option.some.injEq, reduceCtorEq, and_false, if_false,
        if_true]
      cases renderForward iface groups with
      | error e | ok script => exact ⟨hk, by simp⟩
    | carrying =>
      simp only [applyForwardUntil, Option.some.injEq, reduceCtorEq, and_false, if_false,
        if_true]
      cases hr : renderForward iface groups with
      | error e => exact .inl ⟨hk, by simp⟩
      | ok script =>
        rcases renderForward_eq.1 hr with ⟨_, c, hc, rfl⟩
        rcases forwardTables_acts iface groups c with ⟨hone, hacts⟩
        right; right
        refine ⟨trivial, c, hc, ?_⟩
        simp only [Nftables.apply, hk, load_tables k.rules forwardKey hone hacts]
        exact ⟨trivial, by simp⟩

end Fails

def Seamed (host : Foreign) (rs : Ruleset) : Prop :=
  (rs.without tableKey).without forwardKey = host.rules ∨
    ∃ rules, (rs.without tableKey).without forwardKey = host.carrying rules

/-- The forwarding table and the carry chain hold nothing for an interface: what there is was loaded
for another. -/
structure Vacated (host : Foreign) (iface : String) (rs : Ruleset) : Prop where
  table : ∃ j groups c, (j ≠ iface ∨ groups = []) ∧ carriedPrefixes groups = .ok c ∧
    rs.named forwardKey = forwardTables j groups c
  chain : (rs.without tableKey).without forwardKey = host.rules ∨
    ∃ j groups ps, (j ≠ iface ∨ groups = []) ∧ carriedPrefixList groups = .ok ps ∧
      (rs.without tableKey).without forwardKey = host.carrying (carryChainRules j ps)

section Vacate

variable {host : Foreign} {iface j : String} {rs : Ruleset} {groups : List AdvertisedGroup}

theorem seamed_fresh (host : Foreign) : Seamed host host.rules := by
  left
  rw [Ruleset.without_of_named_nil host.noPolicy, Ruleset.without_of_named_nil host.noForward]

theorem vacated_fresh (host : Foreign) (iface : String) : Vacated host iface host.rules := by
  refine ⟨⟨iface, [], ⟨⟨[], []⟩, false⟩, .inr rfl, rfl, host.noForward⟩, .inl ?_⟩
  rw [Ruleset.without_of_named_nil host.noPolicy, Ruleset.without_of_named_nil host.noForward]

theorem Seamed.policy (h : Seamed host rs) {want : Option PacketFilter} {ts : Ruleset}
    (hts : policyTables j want = .ok ts) : Seamed host (rs.without tableKey ++ ts) := by
  unfold Seamed
  rw [(policy_loaded hts rs).2.2]
  exact h

theorem Vacated.policy (h : Vacated host iface rs) {want : Option PacketFilter} {ts : Ruleset}
    (hts : policyTables j want = .ok ts) : Vacated host iface (rs.without tableKey ++ ts) := by
  rcases policy_loaded hts rs with ⟨_, hnamed, hrest⟩
  refine ⟨?_, ?_⟩
  · rw [hnamed]
    exact h.table
  · rw [hrest]
    exact h.chain

theorem Seamed.carry (h : Seamed host rs) (rules : List Rule) :
    ((Nftables.carry rs rules).without tableKey).without forwardKey = host.carrying rules := by
  rw [(carry_loaded rs rules).2.2]
  rcases h with h | ⟨_, h⟩
  · rw [h, host.carry_rules]
  · rw [h, host.carry_carrying]

theorem Seamed.forward (h : Seamed host rs) (j : String) (groups : List AdvertisedGroup)
    (c : Carried) : Seamed host (rs.without forwardKey ++ forwardTables j groups c) := by
  unfold Seamed
  rw [(forward_loaded j groups c rs).2.2]
  exact h

theorem Seamed.vacated (h : Seamed host rs) (hj : j ≠ iface ∨ groups = []) {c : Carried}
    {ps : List Netip.Prefix} (hc : carriedPrefixes groups = .ok c)
    (hps : carriedPrefixList groups = .ok ps) :
    Vacated host iface (Nftables.carry (rs.without forwardKey ++ forwardTables j groups c)
      (carryChainRules j ps)) := by
  refine ⟨⟨j, groups, c, hj, hc, ?_⟩, .inr ⟨j, groups, ps, hj, hps, (h.forward j groups c).carry _⟩⟩
  rw [(carry_loaded _ _).1, (forward_loaded j groups c rs).1]

theorem Vacated.forward (h : Vacated host iface rs) (hj : j ≠ iface ∨ groups = []) {c : Carried}
    (hc : carriedPrefixes groups = .ok c) :
    Vacated host iface (rs.without forwardKey ++ forwardTables j groups c) := by
  rcases forward_loaded j groups c rs with ⟨hnamed, _, hrest⟩
  refine ⟨⟨j, groups, c, hj, hc, hnamed⟩, ?_⟩
  rw [hrest]
  exact h.chain

theorem Vacated.rewrites (h : Vacated host iface rs) {p : Packet} (hp : p.iif = iface)
    (how : Rewrite) : Ruleset.rewrites (rs.named forwardKey) p how = false := by
  rcases h.table with ⟨j, groups, c, hj, hc, hnamed⟩
  rw [hnamed, forwardTables_rewrites hc]
  have hnone : rewriteFor j groups p = none := by
    rcases hj with hj | rfl
    · have hne : p.iif ≠ j := by
        rw [hp]
        exact hj.symm
      simp [rewriteFor, hne]
    · exact rewriteFor_of_nothing p rfl
  rw [hnone]
  rfl

theorem Vacated.passes (h : Vacated host iface rs) :
    ∃ j, j ≠ iface ∧ ∀ (p : Packet) (hook : Hook), p.iif ≠ j → p.oif ≠ j →
      ((rs.without tableKey).without forwardKey).passes hook p = host.rules.passes hook p := by
  have hother : ∃ j : String, j ≠ iface := by
    by_cases hname : iface = ""
    · exact ⟨"x", by rw [hname]; decide⟩
    · exact ⟨"", fun heq => hname heq.symm⟩
  rcases hother with ⟨o, ho⟩
  rcases h.chain with hrest | ⟨j, groups, ps, hj, hps, hrest⟩
  · exact ⟨o, ho, fun p hook _ _ => by rw [hrest]⟩
  -- A chain filled for another interface, or with nothing, opens nothing here.
  have hcarrying : ∀ (p : Packet) (hook : Hook), opens j groups p = false →
      (host.carrying (carryChainRules j ps)).passes hook p = host.rules.passes hook p := by
    intro p hook hopens
    rw [host.passes_carrying _ (carryChainRules_accept j ps), carryChainRules_hits hps, hopens]
    rfl
  rw [hrest]
  rcases hj with hj | rfl
  · exact ⟨j, hj, fun p hook hi hout => hcarrying p hook (opens_elsewhere groups hi hout)⟩
  · exact ⟨o, ho, fun p hook _ _ => hcarrying p hook (opens_of_nothing p rfl)⟩

end Vacate

/-- A membership that remembers carrying nothing has vacated the host, and so has every membership
of a host that cannot carry. -/
structure Kept (host : Foreign) (iface : String) (d : Device) : Prop where
  seamed : Seamed host d.kernel.rules
  idle : (d.reconcilers iface).lastAdvertised = some ⟨[]⟩ ∨ d.hasFilter = false →
    Vacated host iface d.kernel.rules

section Keeps

variable {host : Foreign} {iface j : String} {d : Device}

theorem kept_fresh (host : Foreign) (iface : String) (forwarding hasFilter : Bool) :
    Kept host iface (fresh host forwarding hasFilter) :=
  ⟨seamed_fresh host, fun _ => vacated_fresh host iface⟩

theorem applyFilter_rules (d : Device) (j : String) (want : Option PacketFilter) :
    (applyFilter d j want).1.kernel.rules = d.kernel.rules ∨
      ∃ ts, policyTables j want = .ok ts ∧
        (applyFilter d j want).1.kernel.rules = d.kernel.rules.without tableKey ++ ts := by
  rcases applyFilter_cases d j want with ⟨hd, _⟩ | ⟨_, _, kernel, happly, hd⟩
  · rw [hd]
    exact .inl rfl
  · rcases Filter.apply_eq.1 happly with ⟨_, ts, hts, rfl⟩
    rw [hd]
    exact .inr ⟨ts, hts, rfl⟩

theorem vacated_applyFilter (h : Vacated host iface d.kernel.rules) (j : String)
    (want : Option PacketFilter) :
    Vacated host iface (applyFilter d j want).1.kernel.rules := by
  rcases applyFilter_rules d j want with hrules | ⟨ts, hts, hrules⟩
  · rw [hrules]
    exact h
  · rw [hrules]
    exact h.policy hts

theorem lastAdvertised_applyFilter (d : Device) (j : String) (want : Option PacketFilter)
    (iface : String) : ((applyFilter d j want).1.reconcilers iface).lastAdvertised =
      (d.reconcilers iface).lastAdvertised := by
  rcases applyFilter_keeps d j want with ⟨_, _, hown, hothers⟩
  by_cases hj : iface = j
  · rw [hj]
    exact hown
  · rw [hothers iface hj]

theorem kept_applyFilter (h : Kept host iface d) (j : String) (want : Option PacketFilter) :
    Kept host iface (applyFilter d j want).1 := by
  refine ⟨?_, fun hidle => ?_⟩
  · rcases applyFilter_rules d j want with hrules | ⟨ts, hts, hrules⟩
    · rw [hrules]
      exact h.seamed
    · rw [hrules]
      exact h.seamed.policy hts
  · rw [lastAdvertised_applyFilter, (applyFilter_keeps d j want).1] at hidle
    exact vacated_applyFilter (h.idle hidle) j want

theorem applyForwardingUntil_cases (stop : Option Stop) (d : Device) (i : String)
    (want : Option AdvertisedRoutes) :
    ((applyForwardingUntil stop d i want).1 = d ∧
      (d.hasFilter = false ∨ want = none ∨ (d.reconcilers i).lastAdvertised = want)) ∨
    (d.hasFilter = true ∧ ∃ routes, want = some routes ∧
      ((∃ kernel e, applyForwardUntil stop d.kernel i routes.groups = (kernel, some e) ∧
          applyForwardingUntil stop d i want = ({ d with kernel }, ["forwarding"])) ∨
        ∃ kernel, applyForwardUntil stop d.kernel i routes.groups = (kernel, none) ∧
          applyForwardingUntil stop d i want =
            ({ d with kernel }.remember i { d.reconcilers i with lastAdvertised := want }, []))) := by
  cases want with
  | none => exact .inl ⟨rfl, .inr (.inl rfl)⟩
  | some routes =>
    simp only [applyForwardingUntil]
    by_cases hf : d.hasFilter = false
    · left
      simp [hf]
    · by_cases hsame : (d.reconcilers i).lastAdvertised = some routes
      · left
        simp [hf, hsame]
      · right
        simp only [if_neg hf, if_neg hsame]
        refine ⟨by simpa using hf, routes, rfl, ?_⟩
        rcases ha : applyForwardUntil stop d.kernel i routes.groups with ⟨kernel, _ | e⟩
        · exact .inr ⟨kernel, rfl, rfl⟩
        · exact .inl ⟨kernel, e, rfl, rfl⟩

theorem seamed_applyForwardUntil {k : Kernel} (h : Seamed host k.rules) (stop : Option Stop)
    (j : String) (groups : List AdvertisedGroup) :
    Seamed host (applyForwardUntil stop k j groups).1.rules := by
  rcases applyForwardUntil_cases k j groups stop with
    ⟨hrules, _⟩ | ⟨c, ps, _, _, hrules, _⟩ | ⟨_, c, _, hrules, _⟩
  · rw [hrules]
    exact h
  · rw [hrules]
    exact .inr ⟨_, (h.forward j groups c).carry _⟩
  · rw [hrules]
    exact h.forward j groups c

theorem vacated_applyForwardUntil {k : Kernel} {groups : List AdvertisedGroup}
    (hs : Seamed host k.rules) (h : Vacated host iface k.rules) (stop : Option Stop)
    (hj : j ≠ iface ∨ groups = []) :
    Vacated host iface (applyForwardUntil stop k j groups).1.rules := by
  rcases applyForwardUntil_cases k j groups stop with
    ⟨hrules, _⟩ | ⟨c, ps, hc, hps, hrules, _⟩ | ⟨_, c, hc, hrules, _⟩
  · rw [hrules]
    exact h
  · rw [hrules]
    exact hs.vacated hj hc hps
  · rw [hrules]
    exact h.forward hj hc

theorem lastAdvertised_remember_other (d : Device) (hj : j ≠ iface) (r : Reconciler) :
    ((d.remember j r).reconcilers iface).lastAdvertised =
      (d.reconcilers iface).lastAdvertised := by
  simp [Device.remember, Function.update_of_ne hj.symm]

theorem kept_forwarding_other (h : Kept host iface d) (hj : j ≠ iface) (stop : Option Stop)
    (want : Option AdvertisedRoutes) : Kept host iface (applyForwardingUntil stop d j want).1 := by
  rcases applyForwardingUntil_cases stop d j want with
    ⟨hd, _⟩ | ⟨_, routes, _, ⟨kernel, e, happly, hd⟩ | ⟨kernel, happly, hd⟩⟩
  · rw [hd]
    exact h
  · have hk := congrArg Prod.fst happly
    simp only at hk
    subst hk
    rw [hd]
    exact ⟨seamed_applyForwardUntil h.seamed stop j _, fun hidle =>
      vacated_applyForwardUntil h.seamed (h.idle hidle) stop (.inl hj)⟩
  · have hk := congrArg Prod.fst happly
    simp only at hk
    subst hk
    rw [hd]
    refine ⟨seamed_applyForwardUntil h.seamed stop j _, fun hidle => ?_⟩
    rw [lastAdvertised_remember_other _ hj] at hidle
    exact vacated_applyForwardUntil h.seamed (h.idle hidle) stop (.inl hj)

theorem kept_forwarding_own (h : Kept host iface d) (stop : Option Stop)
    (hstop : stop = some .carrying → (d.reconcilers iface).lastAdvertised ≠ some ⟨[]⟩)
    (want : Option AdvertisedRoutes) :
    Kept host iface (applyForwardingUntil stop d iface want).1 := by
  rcases applyForwardingUntil_cases stop d iface want with
    ⟨hd, _⟩ | ⟨hf, routes, rfl, ⟨kernel, e, happly, hd⟩ | ⟨kernel, happly, hd⟩⟩
  · rw [hd]
    exact h
  · have hs := seamed_applyForwardUntil h.seamed stop iface routes.groups
    rcases applyForwardUntil_cases d.kernel iface routes.groups stop with
      ⟨hrules, _⟩ | ⟨_, _, _, _, _, hnone⟩ | ⟨hcarrying, _⟩
    · rw [happly] at hs hrules
      rw [hd]
      refine ⟨hs, fun hidle => ?_⟩
      change Vacated host iface kernel.rules
      rw [hrules]
      exact h.idle hidle
    · rw [happly] at hnone
      cases hnone
    · rw [happly] at hs
      rw [hd]
      refine ⟨hs, fun hidle => ?_⟩
      rcases hidle with hlast | hno
      · exact absurd hlast (hstop hcarrying)
      · rw [hf] at hno
        cases hno
  · have hs := seamed_applyForwardUntil h.seamed stop iface routes.groups
    rw [happly] at hs
    rw [hd]
    refine ⟨hs, fun hidle => ?_⟩
    rcases hidle with hlast | hno
    · -- It remembers what it was just given, which was nothing.
      have hgroups : routes.groups = [] := by
        simp only [Device.remember, Function.update_self, Option.some.injEq] at hlast
        rw [hlast]
      rcases applyForwardUntil_cases d.kernel iface routes.groups stop with
        ⟨_, hsome⟩ | ⟨c, ps, hc, hps, hrules, _⟩ | ⟨_, _, _, _, hsome⟩
      · rw [happly] at hsome
        exact absurd rfl hsome
      · rw [happly] at hrules
        change Vacated host iface kernel.rules
        rw [hrules]
        exact h.seamed.vacated (.inr hgroups) hc hps
      · rw [happly] at hsome
        exact absurd rfl hsome
    · rw [show d.hasFilter = false from hno] at hf
      cases hf

def Outcome.Clean (o : Outcome) (d : Device) (iface : String) : Prop :=
  o = .runs (some .carrying) → (d.reconcilers iface).lastAdvertised ≠ some ⟨[]⟩

theorem kept_passUntil (h : Kept host iface d) {o : Outcome} (ho : o.Clean d iface)
    (filter : Option PacketFilter) (want : Option AdvertisedRoutes) :
    Kept host iface (passUntil d iface filter want o).1 := by
  cases o with
  | ends => exact h
  | runs stop =>
    simp only [passUntil]
    split
    · refine kept_forwarding_own (kept_applyFilter h iface filter) stop (fun hs => ?_) want
      rw [lastAdvertised_applyFilter]
      exact ho (by rw [hs])
    · exact kept_applyFilter h iface filter

theorem kept_other (h : Kept host iface d) (hj : j ≠ iface) (filter : Option PacketFilter)
    (want : Option AdvertisedRoutes) (o : Outcome) :
    Kept host iface (passUntil d j filter want o).1 := by
  cases o with
  | ends => exact h
  | runs stop =>
    simp only [passUntil]
    split
    · exact kept_forwarding_other (kept_applyFilter h j filter) hj stop want
    · exact kept_applyFilter h j filter

theorem vacated_passUntil_of_vacated (hk : Kept host iface d)
    (h : Vacated host iface d.kernel.rules) (filter : Option PacketFilter)
    {want : Option AdvertisedRoutes} (hj : j ≠ iface ∨ ∀ a ∈ want, a.groups = []) (o : Outcome) :
    Vacated host iface (passUntil d j filter want o).1.kernel.rules := by
  have hfiltered := vacated_applyFilter h j filter
  cases o with
  | ends => exact h
  | runs stop =>
    simp only [passUntil]
    split
    · rcases applyForwardingUntil_cases stop (applyFilter d j filter).1 j want with
        ⟨hd, _⟩ | ⟨_, routes, rfl, hload⟩
      · rw [hd]
        exact hfiltered
      · have hall := vacated_applyForwardUntil (kept_applyFilter hk j filter).seamed hfiltered
          stop (hj.imp_right fun hw => hw routes rfl)
        rcases hload with ⟨kernel, e, happly, hd⟩ | ⟨kernel, happly, hd⟩
        · rw [hd]
          rw [happly] at hall
          exact hall
        · rw [hd]
          rw [happly] at hall
          exact hall
    · exact hfiltered

theorem vacated_passUntil (h : Kept host iface d) {o : Outcome} (ho : o.Clean d iface)
    (filter : Option PacketFilter)
    (happlied : (passUntil d iface filter (some ⟨[]⟩) o).2 = some []) :
    Vacated host iface (passUntil d iface filter (some ⟨[]⟩) o).1.kernel.rules := by
  have hkept := kept_passUntil h ho filter (some ⟨[]⟩)
  refine hkept.idle ?_
  cases o with
  | ends => cases happlied
  | runs stop =>
    simp only [passUntil] at happlied ⊢
    split at happlied
    · rename_i hok
      rw [if_pos hok]
      simp only [Option.some.injEq] at happlied
      rcases applyForwardingUntil_cases stop (applyFilter d iface filter).1 iface (some ⟨[]⟩) with
        ⟨hd, hwhy⟩ | ⟨_, routes, _, ⟨kernel, e, _, hd⟩ | ⟨kernel, _, hd⟩⟩
      · rw [hd]
        rcases hwhy with hno | hnone | hsame
        · exact .inr hno
        · cases hnone
        · exact .inl hsame
      · rw [hd] at happlied
        cases happlied
      · rw [hd]
        left
        simp [Device.remember]
    · cases happlied

end Keeps

end Meshp.Tunnel
