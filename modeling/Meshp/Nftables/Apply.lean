import Meshp.Netfilter.Seam
import Meshp.Nftables.Meaning

/-!
# Loading Rulesets

What the scripts leave in the kernel. A policy and the forwarding are each one
table, deleted and built again; the carry chain is flushed and filled, and the
jump to it is added to the host's own chain when it is not there yet.
-/

namespace Meshp.Nftables

open Base (refuseIf refuseIf_eq_ok bind_eq_ok map_eq_ok mapM_mapError)
open Netip (Addr Prefix)
open Netfilter
open Wire (PacketFilter AdvertisedGroup)

structure Kernel where
  rules : Ruleset
  /-- Whether the host forwards packets between its interfaces. -/
  forwarding : Bool
  deriving DecidableEq

/-- `Apply`: one invocation of `nft`, which loads all of a script or none. -/
def apply (k : Kernel) (script : List Command) : Except Fault Kernel :=
  match load k.rules script with
  | some rules => .ok { k with rules }
  | none => .error .loading

def Filter.apply (k : Kernel) (iface : String) (filter : Option PacketFilter) :
    Except Fault Kernel := do
  let script ← render iface filter
  Nftables.apply k script

/-- `carryTableExists`: the host keeps an iptables-style `FORWARD` chain. -/
def carryTableExists (rs : Ruleset) : Bool :=
  (rs.named carryKey).any (·.hasChain "FORWARD")

/-- `carryJumpPresent`: the host's `FORWARD` chain, written out, has the text of the jump in it. -/
def carryJumpPresent (rs : Ruleset) : Bool :=
  (rs.named carryKey).any fun t => (t.rulesOf "FORWARD").any fun r =>
    r.target?.any fun name => carryChain.toList.isPrefixOf name.toList

def addJump (k : Kernel) : Except Fault Kernel :=
  if carryJumpPresent k.rules then .ok k else Nftables.apply k carryJump

/-- `ApplyCarry`. A host with no `ip filter` table has no policy to survive. -/
def applyCarry (k : Kernel) (iface : String) (prefixes : List Prefix) : Except Fault Kernel :=
  if carryTableExists k.rules then do
    let script ← renderCarry iface prefixes
    let k ← Nftables.apply k script
    addJump k
  else .ok k

/-- `EnableForwarding`, on a kernel that lets it be enabled. -/
def enableForwarding (k : Kernel) : Kernel :=
  { k with forwarding := true }

def carryGroups (k : Kernel) (iface : String) (groups : List AdvertisedGroup) :
    Except Fault Kernel := do
  let carried ← carriedPrefixList groups
  applyCarry k iface carried

/-- `Filter.ApplyForward`, with why it stopped if it did. Forwarding is enabled first, and stays so
when the rules cannot be rendered. -/
def Filter.applyForward (k : Kernel) (iface : String) (groups : List AdvertisedGroup) :
    Kernel × Option Fault :=
  let k := if groups = [] then k else enableForwarding k
  match (renderForward iface groups).bind (Nftables.apply k) with
  | .error e => (k, some e)
  | .ok k =>
    match carryGroups k iface groups with
    | .error e => (k, some e)
    | .ok k => (k, none)

def policyTables (iface : String) : Option PacketFilter → Except Fault Ruleset
  | none => .ok []
  | some filter => (filterTable iface filter).map fun t => [t]

def forwardTables (iface : String) (groups : List AdvertisedGroup) (c : Carried) : Ruleset :=
  if c.Nothing then [] else [forwardTable iface c (stableEgressOf groups)]

def carry (rs : Ruleset) (rules : List Rule) : Ruleset :=
  if carryTableExists rs then
    if carryJumpPresent rs then rs.modify carryKey (·.refilled carryChain rules)
    else rs.modify carryKey (·.seam "FORWARD" carryChain rules)
  else rs

variable {iface : String} {filter : Option PacketFilter} {script : List Command}
  {groups : List AdvertisedGroup}

theorem filterTable_acts {filter : PacketFilter} {t : Table} (h : filterTable iface filter = .ok t) :
    t.key = tableKey ∧ (t.chains.map Chain.name).Nodup ∧
      ∀ c ∈ t.chains, ∀ r ∈ c.rules, r.target? = none := by
  rcases filterTable_eq h with ⟨inbound, outbound, _, _, rfl⟩
  have hchain : ∀ name hook elsewhere conds,
      ∀ r ∈ (filterChain name hook elsewhere conds filter.defaultDeny).rules, r.target? = none := by
    intro name hook elsewhere conds r hr
    simp only [filterChain, preamble, denial, List.mem_append, List.mem_map] at hr
    rcases hr with (hr | ⟨cs, _, rfl⟩) | hr
    · simp only [List.mem_cons, List.not_mem_nil, or_false] at hr
      rcases hr with rfl | rfl | rfl <;> rfl
    · rfl
    · cases hd : filter.defaultDeny <;> simp [hd] at hr
      rw [hr]
      rfl
  refine ⟨rfl, ?_, ?_⟩
  · change ["input", "output"].Nodup
    decide
  · intro c hc r hr
    rcases List.mem_pair.1 hc with rfl | rfl
    · exact hchain _ _ _ _ r hr
    · exact hchain _ _ _ _ r hr

theorem render_eq :
    render iface filter = .ok script ↔
      interfaceNameOk iface = true ∧ ∃ ts, policyTables iface filter = .ok ts ∧
        script = remove tableKey ++ ts.flatMap Table.script := by
  cases filter with
  | none =>
    simp only [render, policyTables, bind_eq_ok, refuseIf_eq_ok, Bool.not_eq_false]
    constructor
    · rintro ⟨_, hname, h⟩
      cases h
      exact ⟨hname, [], rfl, by simp⟩
    · rintro ⟨hname, ts, hts, rfl⟩
      cases hts
      exact ⟨(), hname, by simp; rfl⟩
  | some filter =>
    simp only [render, policyTables, bind_eq_ok, refuseIf_eq_ok, Bool.not_eq_false, map_eq_ok]
    constructor
    · rintro ⟨_, hname, t, ht, h⟩
      cases h
      exact ⟨hname, [t], ⟨t, ht, rfl⟩, by simp⟩
    · rintro ⟨hname, ts, ⟨t, ht, rfl⟩, rfl⟩
      exact ⟨(), hname, t, ht, by simp; rfl⟩

theorem load_tables (rs : Ruleset) (k : Key) {ts : Ruleset} (hone : ts.length ≤ 1)
    (hts : ∀ t ∈ ts, t.key = k ∧ (t.chains.map Chain.name).Nodup ∧
      ∀ c ∈ t.chains, ∀ r ∈ c.rules, r.target? = none) :
    load rs (remove k ++ ts.flatMap Table.script) = some (rs.without k ++ ts) := by
  match ts, hone with
  | [], _ => simpa using load_remove rs k
  | [t], _ =>
    rcases hts t (.head _) with ⟨rfl, hnames, hacts⟩
    simpa using load_replace rs t hnames hacts

theorem policyTables_acts {ts : Ruleset} (h : policyTables iface filter = .ok ts) :
    ts.length ≤ 1 ∧ ∀ t ∈ ts, t.key = tableKey ∧ (t.chains.map Chain.name).Nodup ∧
      ∀ c ∈ t.chains, ∀ r ∈ c.rules, r.target? = none := by
  cases filter with
  | none =>
    cases h
    simp
  | some filter =>
    rcases map_eq_ok.1 h with ⟨t, ht, rfl⟩
    simpa using filterTable_acts ht

theorem Filter.apply_eq {k k' : Kernel} :
    Filter.apply k iface filter = .ok k' ↔
      interfaceNameOk iface = true ∧ ∃ ts, policyTables iface filter = .ok ts ∧
        k' = { k with rules := k.rules.without tableKey ++ ts } := by
  have hload : ∀ ts, policyTables iface filter = .ok ts →
      Nftables.apply k (remove tableKey ++ ts.flatMap Table.script) =
        .ok { k with rules := k.rules.without tableKey ++ ts } := by
    intro ts hts
    rcases policyTables_acts hts with ⟨hone, hacts⟩
    simp only [Nftables.apply, load_tables k.rules tableKey hone hacts]
  simp only [Filter.apply, bind_eq_ok, render_eq]
  constructor
  · rintro ⟨script, ⟨hname, ts, hts, rfl⟩, h⟩
    rw [hload ts hts] at h
    cases h
    exact ⟨hname, ts, hts, rfl⟩
  · rintro ⟨hname, ts, hts, rfl⟩
    exact ⟨_, ⟨hname, ts, hts, rfl⟩, hload ts hts⟩

theorem forwardTables_acts (iface : String) (groups : List AdvertisedGroup) (c : Carried) :
    (forwardTables iface groups c).length ≤ 1 ∧ ∀ t ∈ forwardTables iface groups c,
      t.key = forwardKey ∧ (t.chains.map Chain.name).Nodup ∧
        ∀ ch ∈ t.chains, ∀ r ∈ ch.rules, r.target? = none := by
  unfold forwardTables
  by_cases hc : c.Nothing
  · simp [hc]
  · rw [if_neg hc]
    refine ⟨Nat.le_refl 1, fun t ht => ?_⟩
    rw [List.mem_singleton.1 ht]
    exact ⟨rfl, forwardTable_names _ _ _, forwardTable_acts _ _ _⟩

theorem renderForward_eq :
    renderForward iface groups = .ok script ↔
      interfaceNameOk iface = true ∧ ∃ c, carriedPrefixes groups = .ok c ∧
        script = remove forwardKey ++ (forwardTables iface groups c).flatMap Table.script := by
  have hscript : ∀ c : Carried, (forwardTables iface groups c).flatMap Table.script =
      if c.Nothing then [] else (forwardTable iface c (stableEgressOf groups)).script := by
    intro c
    unfold forwardTables
    by_cases hc : c.Nothing <;> simp [hc]
  simp only [renderForward, bind_eq_ok, refuseIf_eq_ok, Bool.not_eq_false, hscript]
  constructor
  · rintro ⟨_, hname, c, hc, h⟩
    cases h
    exact ⟨hname, c, hc, rfl⟩
  · rintro ⟨hname, c, hc, rfl⟩
    exact ⟨(), hname, c, hc, rfl⟩

def carriesDefaultFor (groups : List AdvertisedGroup) (a : Addr) : Bool :=
  someIn (advertised groups) fun q => decide (q.bits = 0) && q.addr.is4 == a.is4

def carriesTo (groups : List AdvertisedGroup) (a : Addr) : Bool :=
  carriedTo groups a || carriesDefaultFor groups a

theorem named_forwardTables (iface : String) (groups : List AdvertisedGroup) (c : Carried)
    (rs : Ruleset) : (rs.without forwardKey ++ forwardTables iface groups c).named forwardKey =
      forwardTables iface groups c :=
  (Ruleset.replaced rs fun t ht => ((forwardTables_acts iface groups c).2 t ht).1).1

theorem load_renderForward (h : renderForward iface groups = .ok script) (rs : Ruleset) :
    ∃ c, load rs script = some (rs.without forwardKey ++ forwardTables iface groups c) ∧
      (rs.without forwardKey ++ forwardTables iface groups c).named forwardKey =
        forwardTables iface groups c := by
  rcases renderForward_eq.1 h with ⟨_, c, _, rfl⟩
  rcases forwardTables_acts iface groups c with ⟨hone, hacts⟩
  exact ⟨c, load_tables rs forwardKey hone hacts, named_forwardTables iface groups c rs⟩

def arriving (iface : String) (a : Addr) : Packet where
  iif := iface
  oif := ""
  src := a
  dst := a
  oneFamily := rfl
  extensions := []
  bare := fun _ => rfl
  l4proto := 6
  dport := 0
  ct := .new

/-- The forward chain tells what is carried from what is not exactly when there is nothing to tell
apart: it has no rule that drops, and its policy is to accept. -/
theorem forward_confines_iff {iface : String} {groups : List AdvertisedGroup}
    {script : List Command} (h : renderForward iface groups = .ok script) :
    (∀ rs, ∃ rs', load rs script = some rs' ∧
        ∀ p : Packet, p.iif = iface → p.ct = .new →
          ((rs'.named forwardKey).passes .forward p = true ↔ carriesTo groups p.dst = true)) ↔
      ∀ a, carriesTo groups a = true := by
  have hpasses : ∀ (c : Carried) (p : Packet),
      Ruleset.passes (forwardTables iface groups c) .forward p = true := by
    intro c p
    rw [Ruleset.passes, List.all_eq_true]
    intro t ht
    unfold forwardTables at ht
    split at ht
    · cases ht
    · rw [List.mem_singleton.1 ht]
      exact forwardTable_passes _ _ _ _ _
  constructor
  · intro hconfines a
    rcases hconfines [] with ⟨rs', hload, hp⟩
    rcases load_renderForward h [] with ⟨c, hload', hnamed⟩
    cases hload.symm.trans hload'
    have ha := hp (arriving iface a) rfl rfl
    rw [hnamed, hpasses] at ha
    exact ha.1 rfl
  · intro hall rs
    rcases load_renderForward h rs with ⟨c, hload, hnamed⟩
    refine ⟨_, hload, fun p _ _ => ?_⟩
    rw [hnamed, hpasses, hall]

def everywhere : List AdvertisedGroup :=
  [{ routeGroupId := "g", name := "exit", prefixes := ["0.0.0.0/0", "::/0"] }]

theorem carriesTo_everywhere (a : Addr) : carriesTo everywhere a = true := by
  have hread : (advertised everywhere).mapM readPrefix =
      .ok [⟨.v4 0, 0, Nat.zero_le _⟩, ⟨.v6 0, 0, Nat.zero_le _⟩] := by
    decide +kernel
  rw [carriesTo, carriesDefaultFor, ← someIn_of_read hread]
  cases a <;> simp [Addr.is4]

theorem forward_confines_everywhere :
    ∃ script, renderForward "meshp0" everywhere = .ok script ∧
      ∀ rs, ∃ rs', load rs script = some rs' ∧
        ∀ p : Packet, p.iif = "meshp0" → p.ct = .new →
          ((rs'.named forwardKey).passes .forward p = true ↔
            carriesTo everywhere p.dst = true) := by
  have hrenders : ∃ script, renderForward "meshp0" everywhere = .ok script ∧ True := by
    decide +kernel
  rcases hrenders with ⟨script, hscript, _⟩
  exact ⟨script, hscript, (forward_confines_iff hscript).2 carriesTo_everywhere⟩

/-- A connection in from the tunnel and out to an address nobody carries is let through beside the
one prefix that is carried. -/
theorem uncarried_let_through :
    let office : List AdvertisedGroup :=
      [{ routeGroupId := "g", name := "office", prefixes := ["10.20.0.0/16"] }]
    let p := arriving "meshp0" (.v4 0x08080808)
    ((renderForward "meshp0" office).toOption.bind (load [])).map
        (fun rs => ((rs.named forwardKey).length, (rs.named forwardKey).passes .forward p)) =
      some (1, true) ∧ carriesTo office p.dst = false := by
  decide +kernel

theorem carryChainRules_accept (iface : String) (ps : List Prefix) :
    ∀ r ∈ carryChainRules iface ps, r.verdict = .act .accept := by
  intro r hr
  rcases List.mem_flatMap.1 hr with ⟨q, _, hr⟩
  rcases List.mem_pair.1 hr with rfl | rfl <;> rfl

theorem carryChain_ne : carryChain ≠ "FORWARD" := by
  decide

theorem carryJumpPresent_refilled (rs : Ruleset) (rules : List Rule) :
    carryJumpPresent (rs.modify carryKey (·.refilled carryChain rules)) = carryJumpPresent rs := by
  have hrules : ∀ t : Table, (t.refilled carryChain rules).rulesOf "FORWARD" =
      t.rulesOf "FORWARD" := fun t => rulesOf_refilled t carryChain_ne.symm rules
  simp only [carryJumpPresent, Ruleset.named_modify_self fun t => key_refilled t carryChain rules,
    List.any_map, Function.comp_def, hrules]

theorem has_of_carryTableExists {rs : Ruleset} (h : carryTableExists rs = true) :
    rs.has carryKey = true := by
  rw [Ruleset.has_iff]
  intro hnil
  rw [carryTableExists, hnil] at h
  cases h

theorem hasChain_modify_refilled {rs : Ruleset} (hexists : carryTableExists rs = true)
    (rules : List Rule) :
    (rs.modify carryKey (·.refilled carryChain rules)).hasChain carryKey "FORWARD" = true ∧
      (rs.modify carryKey (·.refilled carryChain rules)).hasChain carryKey carryChain = true := by
  simp only [hasChain_named, Ruleset.named_modify_self fun t => key_refilled t carryChain rules,
    List.any_map, Function.comp_def, hasChain_refilled]
  rcases List.any_eq_true.1 hexists with ⟨t, ht, hforward⟩
  constructor
  · refine List.any_eq_true.2 ⟨t, ht, ?_⟩
    rw [hasChain_refilled_ne t carryChain_ne.symm]
    exact hforward
  · exact List.any_eq_true.2 ⟨t, ht, rfl⟩

theorem applyCarry_eq (hname : interfaceNameOk iface = true) (k : Kernel) (ps : List Prefix) :
    applyCarry k iface ps = .ok { k with rules := carry k.rules (carryChainRules iface ps) } := by
  unfold applyCarry carry
  by_cases hexists : carryTableExists k.rules = true
  · have hacts : ∀ r ∈ carryChainRules iface ps, r.target? = none := by
      intro r hr
      simp only [Rule.target?, carryChainRules_accept iface ps r hr]
    have hrender : renderCarry iface ps =
        .ok (refill carryKey carryChain (carryChainRules iface ps)) := by
      simp only [renderCarry, refuseIf, hname, Bool.true_eq_false, if_false]
      rfl
    have hload := load_refill (has_of_carryTableExists hexists) carryChain
      (carryChainRules iface ps) hacts
    have hchain := hasChain_modify_refilled hexists (carryChainRules iface ps)
    have hjump : load (k.rules.modify carryKey (·.refilled carryChain (carryChainRules iface ps)))
        carryJump = some (k.rules.modify carryKey
          (·.seam "FORWARD" carryChain (carryChainRules iface ps))) := by
      simp only [carryJump, load, Command.run, hchain.1, carryJumpRule, Rule.target?,
        Option.all_some, hchain.2, Bool.and_self, if_true, Option.bind_some,
        Ruleset.modify_modify fun t => key_refilled t carryChain (carryChainRules iface ps)]
      rfl
    rw [if_pos hexists, if_pos hexists, hrender]
    change Nftables.apply k _ >>= addJump = _
    simp only [Nftables.apply, hload]
    change addJump _ = _
    unfold addJump
    rw [carryJumpPresent_refilled]
    by_cases hpresent : carryJumpPresent k.rules = true
    · rw [if_pos hpresent, if_pos hpresent]
    · rw [if_neg hpresent, if_neg hpresent, Nftables.apply, hjump]
  · rw [if_neg hexists, if_neg hexists]

theorem carriedPrefixList_of_carriedPrefixes {c : Carried} (h : carriedPrefixes groups = .ok c) :
    ∃ ps, carriedPrefixList groups = .ok ps := by
  rcases carriedPrefixes_read h with ⟨qs, hqs, _⟩
  refine ⟨(qs.filter (·.bits ≠ 0)).map Prefix.masked, ?_⟩
  simp only [carriedPrefixList]
  rw [show (groups.flatMap AdvertisedGroup.prefixes) = advertised groups from rfl,
    mapM_mapError.2 hqs]
  rfl

theorem Filter.applyForward_eq (k : Kernel) (iface : String) (groups : List AdvertisedGroup) :
    (∃ c ps, interfaceNameOk iface = true ∧ carriedPrefixes groups = .ok c ∧
      carriedPrefixList groups = .ok ps ∧
      Filter.applyForward k iface groups =
        ({ rules := carry (k.rules.without forwardKey ++ forwardTables iface groups c)
             (carryChainRules iface ps),
           forwarding := k.forwarding || decide (groups ≠ []) }, none)) ∨
    ((interfaceNameOk iface = false ∨ ∃ e, carriedPrefixes groups = .error e) ∧
      ∃ e, Filter.applyForward k iface groups =
        ({ k with forwarding := k.forwarding || decide (groups ≠ []) }, some e)) := by
  have hk : (if groups = [] then k else enableForwarding k) =
      { k with forwarding := k.forwarding || decide (groups ≠ []) } := by
    by_cases hg : groups = [] <;> simp [hg, enableForwarding]
  unfold Filter.applyForward
  rw [hk]
  cases hr : renderForward iface groups with
  | ok script =>
    rcases renderForward_eq.1 hr with ⟨hname, c, hc, rfl⟩
    rcases carriedPrefixList_of_carriedPrefixes hc with ⟨ps, hps⟩
    rcases forwardTables_acts iface groups c with ⟨hone, hacts⟩
    left
    refine ⟨c, ps, hname, hc, hps, ?_⟩
    simp only [Except.bind, Nftables.apply, load_tables k.rules forwardKey hone hacts,
      carryGroups, hps]
    change (match applyCarry _ iface ps with
      | .error e => _
      | .ok k => (k, none)) = _
    rw [applyCarry_eq hname]
  | error e =>
    right
    refine ⟨?_, e, rfl⟩
    by_contra hboth
    rw [not_or] at hboth
    cases hc : carriedPrefixes groups with
    | error e' => exact hboth.2 ⟨e', hc⟩
    | ok c =>
      have hok := renderForward_eq.2 ⟨by simpa using hboth.1, c, hc, rfl⟩
      rw [hr] at hok
      cases hok

structure Foreign where
  rules : Ruleset
  noPolicy : rules.named tableKey = []
  noForward : rules.named forwardKey = []
  clear : ∀ t ∈ rules, t.key = carryKey → t.Clear "FORWARD" carryChain
  noJump : carryJumpPresent rules = false

namespace Foreign

def carrying (host : Foreign) (rules : List Rule) : Ruleset :=
  if carryTableExists host.rules then
    host.rules.modify carryKey (·.seam "FORWARD" carryChain rules)
  else host.rules

/-- The host's ruleset with the policy of its `FORWARD` chain turned to accept. -/
def opened (host : Foreign) : Ruleset :=
  host.rules.modify carryKey (·.opened "FORWARD")

variable (host : Foreign) (rules rules' : List Rule)

theorem carry_rules : carry host.rules rules = host.carrying rules := by
  simp only [carry, host.noJump, Bool.false_eq_true, if_false, carrying]

theorem rulesOf_seam_forward {t : Table} (h : t.hasChain "FORWARD" = true) :
    jumpTo carryChain ∈ (t.seam "FORWARD" carryChain rules).rulesOf "FORWARD" :=
  jump_mem_seam (hasChain_refilled_ne t carryChain_ne.symm rules ▸ h)

theorem carry_carrying : carry (host.carrying rules) rules' = host.carrying rules' := by
  unfold carrying
  by_cases hexists : carryTableExists host.rules = true
  · have hkey := fun t : Table => key_seam t "FORWARD" carryChain rules
    rcases List.any_eq_true.1 hexists with ⟨t, ht, hforward⟩
    have hexists' : carryTableExists
        (host.rules.modify carryKey (·.seam "FORWARD" carryChain rules)) = true := by
      simp only [carryTableExists, Ruleset.named_modify_self hkey, List.any_map]
      refine List.any_eq_true.2 ⟨t, ht, ?_⟩
      rw [Function.comp_apply, hasChain_seam_host carryChain_ne]
      exact hforward
    have hjump : carryJumpPresent
        (host.rules.modify carryKey (·.seam "FORWARD" carryChain rules)) = true := by
      simp only [carryJumpPresent, Ruleset.named_modify_self hkey, List.any_map]
      refine List.any_eq_true.2 ⟨t, ht, List.any_eq_true.2 ⟨_, rulesOf_seam_forward rules hforward, ?_⟩⟩
      decide
    simp only [hexists, if_true, carry, hexists', hjump, Ruleset.modify_modify hkey,
      refilled_seam carryChain_ne]
  · simp only [hexists, Bool.false_eq_true, if_false, carry]

theorem opened_of_not_exists (h : ¬carryTableExists host.rules = true) :
    host.opened = host.rules := by
  have htable : ∀ t ∈ host.rules, (if t.key = carryKey then t.opened "FORWARD" else t) = t := by
    intro t ht
    by_cases hk : t.key = carryKey
    · rw [if_pos hk]
      refine opened_of_not_hasChain ?_
      by_contra hforward
      rw [Bool.not_eq_false] at hforward
      exact h (List.any_eq_true.2 ⟨t, List.mem_filter.2 ⟨ht, by simpa using hk⟩, hforward⟩)
    · rw [if_neg hk]
  calc host.opened = host.rules.map id := List.map_congr_left htable
    _ = host.rules := List.map_id _

theorem passes_carrying (haccept : ∀ r ∈ rules, r.verdict = .act .accept) (hook : Hook)
    (p : Packet) :
    (host.carrying rules).passes hook p =
      (if rules.any (·.hits p) then host.opened else host.rules).passes hook p := by
  unfold carrying
  by_cases hexists : carryTableExists host.rules = true
  · rw [if_pos hexists, passes_modify_seam carryChain_ne host.clear haccept]
    cases rules.any (·.hits p) <;> rfl
  · rw [if_neg hexists, opened_of_not_exists host hexists, ite_self]

theorem rewrites_carrying (haccept : ∀ r ∈ rules, r.verdict = .act .accept) (p : Packet)
    (how : Rewrite) : (host.carrying rules).rewrites p how = host.rules.rewrites p how := by
  unfold carrying
  by_cases hexists : carryTableExists host.rules = true
  · rw [if_pos hexists, rewrites_modify_seam carryChain_ne host.clear haccept]
  · rw [if_neg hexists]

end Foreign

theorem carry_without (rs : Ruleset) (rules : List Rule) {k : Key} (hk : carryKey ≠ k) :
    (carry rs rules).without k = carry (rs.without k) rules := by
  have hexists : carryTableExists (rs.without k) = carryTableExists rs := by
    simp only [carryTableExists, Ruleset.named_without hk]
  have hjump : carryJumpPresent (rs.without k) = carryJumpPresent rs := by
    simp only [carryJumpPresent, Ruleset.named_without hk]
  unfold carry
  rw [hexists, hjump]
  by_cases he : carryTableExists rs = true
  · by_cases hj : carryJumpPresent rs = true
    · simp only [he, hj, if_true]
      exact Ruleset.without_modify fun t => key_refilled t carryChain rules
    · simp only [he, hj, if_true, Bool.false_eq_true, if_false]
      exact Ruleset.without_modify fun t => key_seam t "FORWARD" carryChain rules
  · simp only [he, Bool.false_eq_true, if_false]

theorem carry_named (rs : Ruleset) (rules : List Rule) {k : Key} (hk : k ≠ carryKey) :
    (carry rs rules).named k = rs.named k := by
  unfold carry
  by_cases he : carryTableExists rs = true
  · by_cases hj : carryJumpPresent rs = true
    · simp only [he, hj, if_true]
      exact Ruleset.named_modify_ne (fun t => key_refilled t carryChain rules) hk
    · simp only [he, hj, if_true, Bool.false_eq_true, if_false]
      exact Ruleset.named_modify_ne (fun t => key_seam t "FORWARD" carryChain rules) hk
  · simp only [he, Bool.false_eq_true, if_false]

end Meshp.Nftables
