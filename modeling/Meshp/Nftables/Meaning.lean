import Meshp.Base.Rows
import Meshp.Nftables.Render

/-!
# What the Rulesets Mean

What a policy and a list of advertised groups say about a packet, in their own
terms, and that the tables rendered from them say the same to the kernel.
-/

namespace Meshp.Nftables

open Base (bind_eq_ok mapError_eq_ok any_of_mapM mapM_eq_nil_iff mapM_mapError any_dedup)
open List (all_cons all_nil any_append any_cons any_map any_nil mem_pair)
open Netfilter
open Netfilter.IpFamily (has)
open Netip (Addr Prefix parsePrefix)
open Wire (FilterRule PacketFilter AdvertisedGroup)

def someIn (raws : List String) (q : Prefix → Bool) : Bool :=
  raws.any fun raw => (parsePrefix raw).any q

def portsAdmit (specs : List String) (n : Nat) : Bool :=
  specs.isEmpty || specs.any fun spec => (portOf spec).toOption.any (·.contains n)

def protocolAdmits (rule : FilterRule) (p : Packet) : Bool :=
  match protocolOf rule.protocol with
  | .ok .any => true
  | .ok .icmp => p.header == if p.src.is4 then 1 else 58
  | .ok .tcp => p.l4proto == 6 && portsAdmit rule.ports p.dport
  | .ok .udp => p.l4proto == 17 && portsAdmit rule.ports p.dport
  | .error _ => false

def admits (p : Packet) (rule : FilterRule) : Bool :=
  someIn rule.srcPrefixes (·.contains p.src) && someIn rule.dstPrefixes (·.contains p.dst) &&
    protocolAdmits rule p

def judged (rules : List FilterRule) (defaultDeny : Bool) (p : Packet) : Bool :=
  match p.ct with
  | .established => true
  | .related => true
  | .invalid => false
  | .new => rules.any (admits p) || !defaultDeny
  | .untracked => rules.any (admits p) || !defaultDeny

theorem someIn_of_read {raws : List String} {ps : List Prefix} (h : raws.mapM readPrefix = .ok ps)
    (q : Prefix → Bool) : ps.any q = someIn raws q := by
  refine any_of_mapM (fun raw p hp => ?_) h
  unfold readPrefix at hp
  cases hparse : parsePrefix raw with
  | none => simp only [hparse, reduceCtorEq] at hp
  | some p' =>
    simp only [hparse] at hp
    cases hp
    rfl

theorem has_of_contains {family : IpFamily} {p : Prefix} {a : Addr} (h : p.contains a = true) :
    family.has p.addr = family.has a := by
  cases family <;> simp only [has, Prefix.is4_of_contains h]

theorem any_ofFamily (family : IpFamily) (ps : List Prefix) (a : Addr) :
    (ofFamily family ps).any (·.contains a) = (family.has a && ps.any (·.contains a)) := by
  induction ps with
  | nil => simp [ofFamily]
  | cons p ps ih =>
    simp only [ofFamily] at ih ⊢
    cases hc : p.contains a with
    | true =>
      have hfam : family.has p.addr = family.has a := has_of_contains hc
      cases hf : family.has a <;> simp_all
    | false => cases hf : family.has p.addr <;> simp_all

theorem byFamily_side {raws : List String} {f : Families} (h : byFamily raws = .ok f)
    (family : IpFamily) (a : Addr) :
    (f.side family).any (·.contains a) = (family.has a && someIn raws (·.contains a)) := by
  rcases bind_eq_ok.1 h with ⟨ps, hps, h⟩
  cases h
  have hside : (((ofFamily family ps).map Prefix.masked).insertionSort
      fun a b => ¬b.text < a.text).any (·.contains a) =
      (family.has a && someIn raws (·.contains a)) := by
    rw [(List.perm_insertionSort _ _).any_eq, any_map, ← someIn_of_read hps,
      ← any_ofFamily]
    exact List.any_congr rfl fun p => Prefix.contains_masked p a
  cases family with
  | ip => exact hside
  | ip6 => exact hside

variable {ports : List Ports} {proto : Acl.Protocol} {rule : FilterRule}
  {conds : List (List Match)}

theorem portsOf_any {specs : List String} (h : portsOf specs proto = .ok ports) (n : Nat) :
    ports.any (·.contains n) = specs.any fun spec => (portOf spec).toOption.any (·.contains n) := by
  rcases bind_eq_ok.1 h with ⟨_, _, h⟩
  refine any_of_mapM (fun spec p hp => ?_) h
  rw [hp]
  rfl

theorem transportConds_hits {specs : List String} (h : portsOf specs proto = .ok ports)
    (transport : Transport) (p : Packet) :
    (transportConds transport ports).all (·.hits p) =
      (p.l4proto == transport.number && portsAdmit specs p.dport) := by
  have hempty : ports = [] ↔ specs = [] := by
    rcases bind_eq_ok.1 h with ⟨_, _, hm⟩
    exact mapM_eq_nil_iff hm
  unfold transportConds portsAdmit
  by_cases hp : ports = []
  · simp [hp, hempty.1 hp, Match.hits]
  · have hs : specs ≠ [] := fun hs => hp (hempty.2 hs)
    simp [hp, Match.hits, portsOf_any h, List.isEmpty_eq_false_iff.2 hs]

theorem protocolConds_hits (hproto : protocolOf rule.protocol = .ok proto)
    (hports : portsOf rule.ports proto = .ok ports) (family : IpFamily) (p : Packet)
    (hfam : family.has p.src = true) :
    (protocolConds family ports proto).all (·.hits p) = protocolAdmits rule p := by
  unfold protocolAdmits
  rw [hproto]
  cases proto with
  | any => rfl
  | tcp => exact transportConds_hits hports .tcp p
  | udp => exact transportConds_hits hports .udp p
  | icmp =>
    cases family with
    | ip =>
      have h4 : p.src.is4 = true := hfam
      simp [protocolConds, Match.hits, has, IpFamily.icmp, h4]
    | ip6 =>
      have h6 : p.src.is4 = false := by simpa [has] using hfam
      simp [protocolConds, Match.hits, has, IpFamily.icmp, h6]

theorem familyConds_hits {src dst : Families} (hsrc : byFamily rule.srcPrefixes = .ok src)
    (hdst : byFamily rule.dstPrefixes = .ok dst) (hproto : protocolOf rule.protocol = .ok proto)
    (hports : portsOf rule.ports proto = .ok ports) (family : IpFamily) (p : Packet) :
    (familyConds src dst proto ports family).any (fun cs => cs.all (·.hits p)) =
      (family.has p.src && admits p rule) := by
  have hboth : family.has p.dst = family.has p.src := by
    cases family <;> simp only [has, p.oneFamily]
  have hs := byFamily_side hsrc family p.src
  have hd := byFamily_side hdst family p.dst
  rw [hboth] at hd
  unfold familyConds admits
  cases hfam : family.has p.src with
  | false =>
    by_cases hempty : src.side family = [] ∨ dst.side family = []
    · rw [if_pos hempty, any_nil, Bool.false_and]
    · simp [hempty, Match.hits_saddr, hfam]
  | true =>
    rw [hfam, Bool.true_and] at hs hd
    have hc := protocolConds_hits hproto hports family p hfam
    by_cases hempty : src.side family = [] ∨ dst.side family = []
    · -- A side with no prefix of this family contains no address of it.
      rw [if_pos hempty, any_nil]
      rcases hempty with h | h
      · rw [h, any_nil] at hs
        simp [← hs]
      · rw [h, any_nil] at hd
        simp [← hd]
    · rw [if_neg hempty]
      simp only [any_cons, any_nil, Bool.or_false, List.cons_append, List.nil_append,
        all_cons, Match.hits_saddr, Match.hits_daddr, hboth, hfam, hs, hd, hc,
        Bool.true_and, Bool.and_assoc]

theorem renderRule_hits (h : renderRule rule = .ok conds) (p : Packet) :
    conds.any (fun cs => cs.all (·.hits p)) = admits p rule := by
  rcases bind_eq_ok.1 h with ⟨_, _, h⟩
  rcases bind_eq_ok.1 h with ⟨src, hsrc, h⟩
  rcases bind_eq_ok.1 h with ⟨dst, hdst, h⟩
  rcases bind_eq_ok.1 h with ⟨proto, hproto, h⟩
  rcases bind_eq_ok.1 h with ⟨ports, hports, h⟩
  cases h
  have hfam := fun family =>
    familyConds_hits (mapError_eq_ok.1 hsrc) (mapError_eq_ok.1 hdst) hproto hports family p
  simp only [List.flatMap_cons, List.flatMap_nil, List.append_nil, any_append, hfam,
    has]
  cases p.src.is4 <;> simp

theorem renderRules_hits {chain : String} {i : Nat} {rules : List FilterRule}
    (h : renderRules chain i rules = .ok conds) (p : Packet) :
    conds.any (fun cs => cs.all (·.hits p)) = rules.any (admits p) := by
  induction rules generalizing i conds with
  | nil =>
    cases h
    rfl
  | cons rule rules ih =>
    rcases bind_eq_ok.1 h with ⟨first, hfirst, h⟩
    rcases bind_eq_ok.1 h with ⟨rest, hrest, h⟩
    cases h
    rw [any_append, any_cons, renderRule_hits (mapError_eq_ok.1 hfirst) p, ih hrest]

variable (call : String → Option Action)

theorem decideRules_preamble (elsewhere : Match) (p : Packet) :
    decideRules call p (preamble elsewhere) =
      if elsewhere.hits p then some .accept
      else match p.ct with
        | .established => some .accept
        | .related => some .accept
        | .invalid => some .drop
        | .new => none
        | .untracked => none := by
  cases he : elsewhere.hits p with
  | true => simp [preamble, decideRules, Rule.hits, he]
  | false =>
    cases hct : p.ct <;>
      simp [preamble, decideRules, Rule.hits, he, Match.hits_ctState, hct]

theorem decideRules_accepts (conds : List (List Match))
    (p : Packet) :
    decideRules call p (conds.map fun cs => { conds := cs, verdict := .act .accept }) =
      if conds.any (fun cs => cs.all (·.hits p)) then some .accept else none := by
  rw [decideRules_uniform .accept]
  · simp only [any_map, Function.comp_def, Rule.hits]
  · intro r hr
    rcases List.mem_map.1 hr with ⟨cs, _, rfl⟩
    rfl

theorem decideRules_denial (defaultDeny : Bool) (p : Packet) :
    decideRules call p (denial defaultDeny) = if defaultDeny then some .drop else none := by
  cases defaultDeny <;> rfl

theorem lets_filterChain (t : Table) (name : String) (hook : Hook) (elsewhere : Match)
    {chain : String} {rules : List FilterRule} (h : renderRules chain 0 rules = .ok conds)
    (defaultDeny : Bool) (p : Packet) :
    t.lets p (filterChain name hook elsewhere conds defaultDeny) (filterBase hook) =
      (elsewhere.hits p || judged rules defaultDeny p) := by
  have hhits := renderRules_hits h p
  simp only [Table.lets, Table.outcome, filterChain, decideRules_append, decideRules_preamble,
    decideRules_accepts, decideRules_denial, hhits, judged]
  cases elsewhere.hits p with
  | true => simp
  | false =>
    cases p.ct <;> cases rules.any (admits p) <;> cases defaultDeny <;> simp [filterBase]

section FilterTable

variable {iface : String} {filter : PacketFilter} {t : Table} {p : Packet}

theorem filterTable_eq (h : filterTable iface filter = .ok t) :
    ∃ inbound outbound, renderRules "input" 0 filter.inbound = .ok inbound ∧
      renderRules "output" 0 filter.outbound = .ok outbound ∧
      t = ⟨tableKey, [filterChain "input" .input (.iifnameNot iface) inbound filter.defaultDeny,
        filterChain "output" .output (.oifnameNot iface) outbound filter.defaultDeny]⟩ := by
  rcases bind_eq_ok.1 h with ⟨inbound, hin, h⟩
  rcases bind_eq_ok.1 h with ⟨outbound, hout, h⟩
  cases h
  exact ⟨inbound, outbound, hin, hout, rfl⟩

theorem filterBase_sees (hook hook' : Hook) (p : Packet) :
    (filterBase hook).sees .inet hook' p = decide (hook = hook') := by
  change (decide (hook = hook') && true && (true || _)) = _
  simp

theorem filterTable_passes (h : filterTable iface filter = .ok t) (hook : Hook) :
    t.passes hook p = match hook with
      | .input => p.iif != iface || judged filter.inbound filter.defaultDeny p
      | .output => p.oif != iface || judged filter.outbound filter.defaultDeny p
      | _ => true := by
  rcases filterTable_eq h with ⟨inbound, outbound, hin, hout, rfl⟩
  have hchain : ∀ (t : Table) (name : String) (at' : Hook) (elsewhere : Match)
      (conds : List (List Match)),
      (filterChain name at' elsewhere conds filter.defaultDeny).base.all (fun b =>
        !b.sees .inet hook p || t.lets p
          (filterChain name at' elsewhere conds filter.defaultDeny) b) =
      (!decide (at' = hook) || t.lets p
        (filterChain name at' elsewhere conds filter.defaultDeny) (filterBase at')) := by
    intro t name at' elsewhere conds
    simp only [filterChain, Option.all_some, filterBase_sees]
  have hi := fun t => lets_filterChain t "input" .input (.iifnameNot iface) hin
    filter.defaultDeny p
  have ho := fun t => lets_filterChain t "output" .output (.oifnameNot iface) hout
    filter.defaultDeny p
  simp only [Table.passes, tableKey, all_cons, all_nil, Bool.and_true, hchain, hi, ho,
    Match.hits_iifnameNot, Match.hits_oifnameNot]
  cases hook <;> simp

theorem filterTable_rewrites (h : filterTable iface filter = .ok t) (how : Rewrite) :
    t.rewrites p how = false := by
  rcases filterTable_eq h with ⟨inbound, outbound, hin, hout, rfl⟩
  simp [Table.rewrites, filterChain, filterBase]

end FilterTable

def advertised (groups : List AdvertisedGroup) : List String :=
  groups.flatMap AdvertisedGroup.prefixes

def carriedTo (groups : List AdvertisedGroup) (a : Addr) : Bool :=
  someIn (advertised groups) fun q => decide (q.bits ≠ 0) && q.contains a

def carriesDefault (groups : List AdvertisedGroup) : Bool :=
  someIn (advertised groups) fun q => decide (q.bits = 0)

def rewriteFor (iface : String) (groups : List AdvertisedGroup) (p : Packet) : Option Rewrite :=
  if p.ct = .new ∧ p.iif = iface ∧
      (carriedTo groups p.dst = true ∨ carriesDefault groups = true ∧ p.oif ≠ iface) then
    some (stableEgressOf groups)
  else none

def opens (iface : String) (groups : List AdvertisedGroup) (p : Packet) : Bool :=
  p.src.is4 && (p.iif == iface && carriedTo groups p.dst || p.oif == iface && carriedTo groups p.src)

section Carried

variable {groups : List AdvertisedGroup} {c : Carried}

theorem carriedPrefixes_read (h : carriedPrefixes groups = .ok c) :
    ∃ ps, (advertised groups).mapM readPrefix = .ok ps ∧
      c = { v4 := ofFamily .ip ((((ps.filter (·.bits ≠ 0)).map Prefix.masked).dedup).insertionSort
              (prefixLe · ·)),
            v6 := ofFamily .ip6 ((((ps.filter (·.bits ≠ 0)).map Prefix.masked).dedup).insertionSort
              (prefixLe · ·)),
            egress := ps.any (·.bits = 0) } := by
  rcases bind_eq_ok.1 h with ⟨ps, hps, h⟩
  cases h
  exact ⟨ps, mapM_mapError.1 hps, rfl⟩

theorem any_carried (ps : List Prefix) (a : Addr) :
    ((ps.filter (·.bits ≠ 0)).map Prefix.masked).any (·.contains a) =
      ps.any fun q => decide (q.bits ≠ 0) && q.contains a := by
  simp only [any_map, List.any_filter, Function.comp_def, Prefix.contains_masked]

theorem carriedPrefixes_side (h : carriedPrefixes groups = .ok c) (family : IpFamily) (a : Addr) :
    (c.side family).any (·.contains a) = (family.has a && carriedTo groups a) := by
  rcases carriedPrefixes_read h with ⟨ps, hps, rfl⟩
  have hside : (ofFamily family ((((ps.filter (·.bits ≠ 0)).map Prefix.masked).dedup).insertionSort
      (prefixLe · ·))).any (·.contains a) = (family.has a && carriedTo groups a) := by
    rw [any_ofFamily, (List.perm_insertionSort _ _).any_eq, any_dedup, any_carried,
      someIn_of_read hps]
    rfl
  cases family with
  | ip => exact hside
  | ip6 => exact hside

theorem carriedPrefixes_egress (h : carriedPrefixes groups = .ok c) :
    c.egress = carriesDefault groups := by
  rcases carriedPrefixes_read h with ⟨ps, hps, rfl⟩
  exact someIn_of_read hps _

theorem carriedPrefixes_nothing (h : carriedPrefixes groups = .ok c) :
    c.Nothing ↔ advertised groups = [] := by
  rcases carriedPrefixes_read h with ⟨ps, hps, rfl⟩
  rw [← mapM_eq_nil_iff hps]
  constructor
  · rintro ⟨h4, h6, he⟩
    by_contra hne
    rcases List.exists_mem_of_ne_nil ps hne with ⟨q, hq⟩
    have hbits : q.bits ≠ 0 := by
      intro h0
      simp only [List.any_eq_false, decide_eq_true_eq] at he
      exact he q hq h0
    -- A prefix that is not a default route is on one of the two sides.
    have hseen : q.masked ∈ (((ps.filter (·.bits ≠ 0)).map Prefix.masked).dedup).insertionSort
        (prefixLe · ·) := by
      rw [(List.perm_insertionSort _ _).mem_iff, List.mem_dedup]
      exact List.mem_map_of_mem (List.mem_filter.2 ⟨hq, by simpa using hbits⟩)
    simp only [ofFamily, List.filter_eq_nil_iff, has, Bool.not_eq_true,
      Bool.not_eq_false'] at h4 h6
    exact absurd ((h4 _ hseen).symm.trans (h6 _ hseen)) Bool.false_ne_true
  · rintro rfl
    exact ⟨rfl, rfl, rfl⟩

variable {iface : String} {stable : Rewrite} {p : Packet}

theorem forwardTable_names (iface : String) (c : Carried) (stable : Rewrite) :
    ((forwardTable iface c stable).chains.map Chain.name).Nodup := by
  change ["forward", "postrouting"].Nodup
  decide

theorem forwardRules_accept (iface : String) (c : Carried) :
    ∀ r ∈ forwardRules iface c, r.verdict = .act .accept := by
  intro r hr
  have hcarry : ∀ family, r ∈ carryRules iface c family → r.verdict = .act .accept := by
    intro family hr
    unfold carryRules at hr
    split at hr
    · cases hr
    · rcases mem_pair.1 hr with rfl | rfl <;> rfl
  simp only [forwardRules, List.mem_append, List.mem_singleton, List.mem_flatMap] at hr
  rcases hr with (rfl | ⟨family, _, hr⟩) | hr
  · rfl
  · exact hcarry family hr
  · cases he : c.egress <;> simp [he] at hr
    rw [hr]

theorem postroutingRules_rewrite (iface : String) (c : Carried) (stable : Rewrite) :
    ∀ r ∈ postroutingRules iface c stable, r.verdict = .act (.rewrite stable) := by
  intro r hr
  have hrewrite : ∀ family, r ∈ rewriteRules iface c stable family →
      r.verdict = .act (.rewrite stable) := by
    intro family hr
    unfold rewriteRules at hr
    split at hr
    · cases hr
    · rw [List.mem_singleton.1 hr]
  simp only [postroutingRules, List.mem_append, List.mem_flatMap] at hr
  rcases hr with ⟨family, _, hr⟩ | hr
  · exact hrewrite family hr
  · cases he : c.egress <;> simp [he] at hr
    rw [hr]

theorem forwardTable_acts (iface : String) (c : Carried) (stable : Rewrite) :
    ∀ ch ∈ (forwardTable iface c stable).chains, ∀ r ∈ ch.rules, r.target? = none := by
  intro ch hch r hr
  rcases mem_pair.1 hch with rfl | rfl
  · simp only [Rule.target?, forwardRules_accept iface c r hr]
  · simp only [Rule.target?, postroutingRules_rewrite iface c stable r hr]

theorem forwardTable_passes (iface : String) (c : Carried) (stable : Rewrite) (hook : Hook)
    (p : Packet) : (forwardTable iface c stable).passes hook p = true := by
  have hforward : ∀ t : Table, t.lets p ⟨"forward", some (filterBase .forward),
      forwardRules iface c⟩ (filterBase .forward) = true := by
    intro t
    rw [Table.lets, Table.outcome, decideRules_uniform _ _ (forwardRules_accept iface c)]
    cases (forwardRules iface c).any (·.hits p) <;> rfl
  have hpost : ∀ t : Table, t.lets p ⟨"postrouting", some ⟨.nat, .postrouting, 100, .accept⟩,
      postroutingRules iface c stable⟩ ⟨.nat, .postrouting, 100, .accept⟩ = true := by
    intro t
    rw [Table.lets, Table.outcome,
      decideRules_uniform _ _ (postroutingRules_rewrite iface c stable)]
    cases (postroutingRules iface c stable).any (·.hits p) <;> rfl
  simp only [Table.passes, forwardTable, all_cons, all_nil, Option.all_some, hforward,
    hpost, Bool.or_true, Bool.and_true]

theorem rewriteRules_hits (h : carriedPrefixes groups = .ok c) (family : IpFamily) :
    (rewriteRules iface c stable family).any (·.hits p) =
      (p.iif == iface && (family.has p.dst && carriedTo groups p.dst)) := by
  have hside := carriedPrefixes_side h family p.dst
  unfold rewriteRules
  by_cases hempty : c.side family = []
  · rw [hempty, any_nil] at hside
    rw [if_pos hempty, ← hside, any_nil, Bool.and_false]
  · rw [if_neg hempty]
    simp only [any_cons, any_nil, Bool.or_false, Rule.hits, all_cons, all_nil,
      Bool.and_true, Match.hits_iifname, Match.hits_daddr, hside]
    cases family.has p.dst <;> simp

theorem postroutingRules_hits (h : carriedPrefixes groups = .ok c) :
    (postroutingRules iface c stable).any (·.hits p) =
      (p.iif == iface && (carriedTo groups p.dst || carriesDefault groups && p.oif != iface)) := by
  have hfam : ∀ family, (rewriteRules iface c stable family).any (·.hits p) =
      (p.iif == iface && (family.has p.dst && carriedTo groups p.dst)) := rewriteRules_hits h
  have hlast : (if c.egress then [{ conds := [.iifname iface, .oifnameNot iface],
                                    verdict := .act (.rewrite stable) }]
      else [] : List Rule).any (·.hits p) =
      (carriesDefault groups && (p.iif == iface && p.oif != iface)) := by
    rw [← carriedPrefixes_egress h]
    cases c.egress <;> simp [Rule.hits, Match.hits_iifname, Match.hits_oifnameNot]
  simp only [postroutingRules, any_append, List.flatMap_cons, List.flatMap_nil,
    List.append_nil, hfam, hlast, has]
  cases p.iif == iface <;> cases p.dst.is4 <;> simp

theorem forwardTable_rewrites (h : carriedPrefixes groups = .ok c) (how : Rewrite) :
    (forwardTable iface c (stableEgressOf groups)).rewrites p how =
      decide (rewriteFor iface groups p = some how) := by
  have houtcome : ∀ t : Table, t.outcome p ⟨"postrouting", some ⟨.nat, .postrouting, 100, .accept⟩,
      postroutingRules iface c (stableEgressOf groups)⟩ =
      if p.iif = iface ∧ (carriedTo groups p.dst = true ∨
        carriesDefault groups = true ∧ p.oif ≠ iface) then
        some (.rewrite (stableEgressOf groups)) else none := by
    intro t
    rw [Table.outcome, decideRules_uniform _ _ (postroutingRules_rewrite iface c _),
      postroutingRules_hits h]
    simp
  have hsees : Base.sees ⟨.nat, .postrouting, 100, .accept⟩ .inet .postrouting p =
      decide (p.ct = .new) := rfl
  simp only [Table.rewrites, forwardTable, forwardKey, any_cons, any_nil,
    Option.any_some, hsees, houtcome, rewriteFor]
  by_cases hct : p.ct = .new
  · by_cases hc : p.iif = iface ∧ (carriedTo groups p.dst = true ∨
        carriesDefault groups = true ∧ p.oif ≠ iface)
    · simp [hct, hc, filterBase]
    · simp [hct, hc, filterBase]
  · simp [hct, filterBase]

theorem any_and_or {α : Type} (l : List α) (s a b : Bool) (f g : α → Bool) :
    (l.any fun q => s && (a && f q || b && g q)) = (s && (a && l.any f || b && l.any g)) := by
  induction l with
  | nil => simp
  | cons q l ih =>
    simp only [any_cons, ih]
    cases s <;> cases a <;> cases b <;> cases f q <;> cases g q <;> simp

theorem carryChainRules_hits {ps : List Prefix} (h : carriedPrefixList groups = .ok ps) :
    (carryChainRules iface ps).any (·.hits p) = opens iface groups p := by
  rcases bind_eq_ok.1 h with ⟨qs, hqs, h⟩
  cases h
  have hread : ∀ a : Addr, ((qs.filter (·.bits ≠ 0)).map Prefix.masked).any (·.contains a) =
      carriedTo groups a :=
    fun a => (any_carried qs a).trans (someIn_of_read (mapM_mapError.1 hqs) _)
  have hrule : ∀ q : Prefix, (carryPrefixRules iface q).any (·.hits p) =
      (p.src.is4 && (p.iif == iface && q.contains p.dst ||
        p.oif == iface && q.contains p.src)) := by
    intro q
    simp only [carryPrefixRules, any_cons, any_nil, Bool.or_false, Rule.hits,
      all_cons, all_nil, Bool.and_true, Match.hits_iifname, Match.hits_oifname,
      Match.hits_daddr, Match.hits_saddr, Prefix.contains_masked, has, ← p.oneFamily]
    cases p.src.is4 <;> simp
  simp only [carryChainRules, List.any_flatMap, hrule, any_and_or, any_ofFamily, hread,
    has, ← p.oneFamily, opens]
  cases p.src.is4 <;> simp

end Carried

end Meshp.Nftables
