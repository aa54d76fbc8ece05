import Meshp.Nftables.Lock

/-!
# The Lock in pf

The same lock, written for the packet filter of macOS. Every rule is `quick`, so
the first one that matches decides, and what no rule matches passes. A rule that
names several protocols, addresses or ports is one that matches any of them.
-/

namespace Meshp.Pf

open Base (refuseIf refuseIf_bind_eq_ok)
open List (any_append any_cons any_eq_true any_nil mem_cons mem_map not_mem_nil)
open Netfilter (IpFamily Packet)
open Netip (AddrPort Prefix)
open Nftables (LockSpec Fault interfaceNameOk sortedEndpoints splitPrefixes normalPrefix toListed toDNS
  toPort carved)

/-- A `quick` rule for what goes out. No protocols, or no ports, are any. -/
structure Rule where
  pass : Bool
  on : Option String := none
  family : Option IpFamily := none
  protos : List Nat := []
  dst : Option (List Prefix) := none
  ports : List Nat := []

def Rule.hits (r : Rule) (p : Packet) : Bool :=
  r.on.all (p.oif = ·) && r.family.all (·.has p.dst) && (r.protos = [] || p.l4proto ∈ r.protos) &&
    r.dst.all (·.any (·.contains p.dst)) && (r.ports = [] || p.dport ∈ r.ports)

def permits (rules : List Rule) (p : Packet) : Bool :=
  (rules.find? (·.hits p)).all (·.pass)

def endpointRule (ep : AddrPort) : Rule :=
  { pass := true, family := some (if ep.addr.is4 then .ip else .ip6), protos := [6, 17]
    dst := some [.single ep.addr], ports := [ep.port.toNat] }

def openRules (spec : LockSpec) : List Rule :=
  [{ pass := true, on := some "lo0" }, { pass := true, on := some spec.interface }] ++
    (sortedEndpoints spec.endpoints).map endpointRule

def dnsRules (spec : LockSpec) : List Rule :=
  if spec.preventDNSLeaks then [{ pass := false, protos := [6, 17], ports := [53] }] else []

def excludedRule (family : IpFamily) (ps : List Prefix) : List (Option Rule) :=
  if splitPrefixes family ps = [] then []
  else [((splitPrefixes family ps).mapM id).map fun set =>
    { pass := true, family := some family, dst := some set }]

def addressingRules : List Rule :=
  [{ pass := true, protos := [17], ports := [67, 68, 546, 547] },
    { pass := true, family := some .ip6, protos := [58] }]

def blockRule : Rule :=
  { pass := false }

/-- `RenderLock`. Without an interface there is nothing to load. -/
def renderLock (spec : LockSpec) : Except Fault (List (Option Rule)) :=
  if spec.interface = "" then .ok []
  else do
    refuseIf (interfaceNameOk spec.interface = false) (.badInterface spec.interface)
    pure ((openRules spec ++ dnsRules spec).map some ++
      [.ip, .ip6].flatMap (excludedRule · spec.excluded) ++
      (addressingRules ++ [blockRule]).map some)

def lockVerdict (spec : LockSpec) (p : Packet) : Option Bool :=
  ((renderLock spec).toOption.bind (·.mapM id)).map (permits · p)

theorem permits_append {rules : List Rule} {pass : Bool} (h : ∀ r ∈ rules, r.pass = pass)
    (rest : List Rule) (p : Packet) :
    permits (rules ++ rest) p = if rules.any (·.hits p) then pass else permits rest p := by
  induction rules with
  | nil => rfl
  | cons r rules ih =>
    have hrest := ih fun r' hr' => h r' (.tail _ hr')
    cases hhits : r.hits p with
    | true => simp [permits, hhits, h r (.head _)]
    | false => simpa [permits, hhits] using hrest

variable {spec : LockSpec} {p : Packet}

theorem hits_endpointRule (ep : AddrPort) : (endpointRule ep).hits p = true ↔
    p.dst = ep.addr ∧ (toPort p .udp ep.port.toNat ∨ toPort p .tcp ep.port.toNat) := by
  have hfamily : p.dst = ep.addr →
      IpFamily.has (if ep.addr.is4 = true then .ip else .ip6) p.dst = true := by
    intro h
    cases h4 : ep.addr.is4 <;> simp [IpFamily.has, h, h4]
  have hdst : ep.addr = p.dst ↔ p.dst = ep.addr := eq_comm
  simp only [endpointRule, Rule.hits, toPort, Netfilter.Transport.number, Option.all_none,
    Option.all_some, any_cons, any_nil, Bool.or_false, Bool.and_eq_true, Prefix.contains_single,
    Bool.or_eq_true, decide_eq_true_eq, mem_cons, not_mem_nil, or_false, reduceCtorEq, false_or,
    true_and, hdst]
  tauto

theorem hits_openRules : (openRules spec).any (·.hits p) = true ↔
    p.oif = "lo0" ∨ p.oif = spec.interface ∨ toListed spec p := by
  have hlisted : ((sortedEndpoints spec.endpoints).map endpointRule).any (·.hits p) = true ↔
      toListed spec p := by
    simp only [List.any_map, any_eq_true, Function.comp_apply, hits_endpointRule, sortedEndpoints,
      List.mem_insertionSort, List.mem_dedup, mem_map, List.mem_filter, decide_eq_true_eq]
    constructor
    · rintro ⟨_, ⟨ep, ⟨hep, hport⟩, rfl⟩, hto⟩
      exact ⟨ep, hep, hport, hto⟩
    · rintro ⟨ep, hep, hport, hto⟩
      exact ⟨_, ⟨ep, ⟨hep, hport⟩, rfl⟩, hto⟩
  rw [openRules, any_append, Bool.or_eq_true, hlisted]
  simp [Rule.hits, or_assoc]

def toCarved (spec : LockSpec) (p : Packet) : Prop :=
  ∃ q ∈ spec.excluded, (normalPrefix q).any (·.contains p.dst) = true

def renewing (p : Packet) : Prop :=
  ∃ port ∈ [67, 68, 546, 547], toPort p .udp port

def carvedRules (ps : List Prefix) : List Rule :=
  [.ip, .ip6].flatMap fun family =>
    if splitPrefixes family ps = [] then []
    else [{ pass := true, family := some family, dst := some (carved family ps) }]

def writtenRules (spec : LockSpec) : List Rule :=
  openRules spec ++ (dnsRules spec ++ (carvedRules spec.excluded ++ (addressingRules ++ [blockRule])))

theorem permits_writtenRules : permits (writtenRules spec) p = true ↔
    (p.oif = "lo0" ∨ p.oif = spec.interface ∨ toListed spec p) ∨
      ¬(spec.preventDNSLeaks = true ∧ toDNS p) ∧
        (toCarved spec p ∨ renewing p ∨ p.dst.is4 = false ∧ p.l4proto = 58) := by
  have hopen : ∀ r ∈ openRules spec, r.pass = true := by
    simp [openRules, endpointRule]
  have hdns : ∀ r ∈ dnsRules spec, r.pass = false := by
    unfold dnsRules
    split <;> simp
  have hcarved : ∀ r ∈ carvedRules spec.excluded, r.pass = true := by
    intro r hr
    obtain ⟨family, -, hr⟩ := List.mem_flatMap.1 hr
    split at hr
    · cases hr
    · rw [List.mem_singleton.1 hr]
  have hdnsHits : (dnsRules spec).any (·.hits p) = true ↔ spec.preventDNSLeaks = true ∧ toDNS p := by
    unfold dnsRules toDNS toPort
    cases spec.preventDNSLeaks with
    | false => simp
    | true =>
      simp [Rule.hits, Netfilter.Transport.number]
      tauto
  have hcarvedHits : (carvedRules spec.excluded).any (·.hits p) = true ↔ toCarved spec p := by
    refine Nftables.any_carvedRules (ρ := Rule)
      (fun family set => { pass := true, family := some family, dst := some set }) (·.hits p) p.dst
      (fun family set => ?_) spec.excluded
    simp [Rule.hits]
  have haddressing : addressingRules.any (·.hits p) = true ↔
      renewing p ∨ p.dst.is4 = false ∧ p.l4proto = 58 := by
    simp [addressingRules, Rule.hits, renewing, toPort, IpFamily.has, Netfilter.Transport.number]
    refine or_congr_left ?_
    rw [and_or_left, and_comm (b := p.dport = 68 ∨ _)]
  have hpass : ∀ r ∈ addressingRules, r.pass = true := by decide
  have hblock : permits [blockRule] p = false := rfl
  rw [writtenRules, permits_append hopen, permits_append hdns, permits_append hcarved,
    permits_append hpass, hblock]
  simp only [← hits_openRules, ← hdnsHits, ← hcarvedHits, ← haddressing]
  split_ifs <;> simp_all

/-- A packet on a host whose loopback is `lo0`, and on one whose loopback is `lo`. -/
def onMac (p : Packet) : Packet :=
  { p with oif := if p.oif = "lo" then "lo0" else p.oif }

def onLinux (p : Packet) : Packet :=
  { p with oif := if p.oif = "lo0" then "lo" else p.oif }

def Alike (spec : LockSpec) (p : Packet) : Prop :=
  p.dst.is4 = true → p.l4proto = 58 → spec.interface = "" ∨ p.oif ∈ ["lo", "lo0", spec.interface] ∨
    ∃ q ∈ spec.excluded, (normalPrefix q).all (·.contains p.dst) = true

theorem load_rendered {rules : List (Option Rule)} (h : renderLock spec = .ok rules)
    (hiface : spec.interface ≠ "") : rules.mapM id =
      if ∀ q ∈ spec.excluded, (normalPrefix q).isSome = true then some (writtenRules spec)
      else none := by
  rw [renderLock, if_neg hiface] at h
  rcases refuseIf_bind_eq_ok.1 h with ⟨_, h⟩
  cases h
  split_ifs with hwritten
  · rw [← Nftables.mapM_id_map_some]
    simp only [excludedRule, writtenRules, carvedRules, List.flatMap_cons, List.flatMap_nil,
      Nftables.map_some_carved _ _ hwritten, List.map_append, List.append_nil, List.append_assoc]
  · push Not at hwritten
    obtain ⟨q, hq, hnone⟩ := hwritten
    -- As in the other lock, what is no prefix stands among the IPv6 ones.
    have hside : none ∈ splitPrefixes .ip6 spec.excluded :=
      Nftables.mem_splitPrefixes.2 ⟨⟨q, hq, Option.not_isSome_iff_eq_none.1 hnone⟩, rfl⟩
    refine Nftables.mapM_id_eq_none ?_
    simp [excludedRule, List.ne_nil_of_mem hside, Nftables.mapM_id_eq_none hside]

/-- The two locks let out the same packets, except for ICMPv6's number in an IPv4 packet. -/
theorem locks_agree_iff {rules : List (Option Rule)} {lines : List (Option Netfilter.Command)}
    (hpf : renderLock spec = .ok rules) (hnft : Nftables.renderLock spec = .ok lines) :
    (rules.mapM id).map (permits · (onMac p)) =
        (Netfilter.loadLines [] lines).map
          (fun rs => (rs.named Nftables.lockKey).passes .output (onLinux p)) ↔
      Alike spec p := by
  by_cases hiface : spec.interface = ""
  · rw [Nftables.loadLines_removed hnft hiface]
    rw [renderLock, if_pos hiface] at hpf
    cases hpf
    exact ⟨fun _ _ _ => .inl hiface, fun _ => rfl⟩
  rw [load_rendered hpf hiface]
  split_ifs with hwritten
  · have hmac : ((onMac p).oif = "lo0" ∨ (onMac p).oif = spec.interface ∨ toListed spec p) ↔
        p.oif ∈ ["lo", "lo0", spec.interface] ∨ toListed spec p := by
      unfold onMac
      split_ifs <;> simp_all [or_assoc]
    have hlinux : ((onLinux p).oif = "lo" ∨ (onLinux p).oif = spec.interface ∨ toListed spec p) ↔
        p.oif ∈ ["lo", "lo0", spec.interface] ∨ toListed spec p := by
      unfold onLinux
      split_ifs <;> simp_all [or_assoc]
    have hcarved : (∃ q ∈ spec.excluded, (normalPrefix q).all (·.contains p.dst) = true) ↔
        toCarved spec p := by
      refine exists_congr fun q => and_congr_right fun hq => ?_
      obtain ⟨r, hr⟩ := Option.isSome_iff_exists.1 (hwritten q hq)
      rw [hr, Option.all_some, Option.any_some]
    -- A packet of that number has no ports, so of the rules only the exclusions' can speak for it.
    have hnumber : p.l4proto = 58 → ∀ transport port, ¬toPort p transport port := by
      rintro h (_ | _) port hto <;> cases h.symm.trans hto.1
    have hpermits := permits_writtenRules.trans (or_congr hmac (.refl (¬(_ ∧ toDNS p) ∧
      (toCarved spec p ∨ renewing p ∨ p.dst.is4 = false ∧ p.l4proto = 58))))
    have hpasses := Nftables.passes_lockTable_iff.trans (or_congr hlinux (.refl (¬(_ ∧ toDNS p) ∧
      (toCarved spec p ∨ renewing p ∨ p.l4proto = 58))))
    have hload := Nftables.loadLines_written hnft hiface hwritten []
    rw [hload, Option.map_some, Option.map_some, Option.some.injEq,
      Nftables.named_of_loadLines hnft hiface hload, Netfilter.Ruleset.passes, List.all_cons,
      List.all_nil, Bool.and_true, Bool.eq_iff_iff, hpermits, hpasses, Alike, hcarved]
    by_cases hproto : p.l4proto = 58
    · have hlisted : ¬toListed spec p := by
        rintro ⟨ep, -, -, -, hto | hto⟩
        · exact hnumber hproto _ _ hto
        · exact hnumber hproto _ _ hto
      have hdns : ¬toDNS p := by
        rintro (hto | hto)
        · exact hnumber hproto _ _ hto
        · exact hnumber hproto _ _ hto
      have hrenewing : ¬renewing p := by
        rintro ⟨port, -, hto⟩
        exact hnumber hproto _ _ hto
      simp only [hproto, hlisted, hdns, hrenewing, hiface]
      cases p.dst.is4 <;> simp
    · simp only [hproto, and_false, or_false, false_imp_iff, imp_true_iff]
  · push Not at hwritten
    obtain ⟨q, hq, hnone⟩ := hwritten
    have hnone : normalPrefix q = none := Option.not_isSome_iff_eq_none.1 hnone
    rw [Nftables.loadLines_unwritten hnft hiface hq hnone]
    exact ⟨fun _ _ _ => .inr (.inr ⟨q, hq, by rw [hnone]; rfl⟩), fun _ => rfl⟩

theorem locks_agree_office : ∃ rules lines, renderLock Nftables.officeLock = .ok rules ∧
    Nftables.renderLock Nftables.officeLock = .ok lines ∧
    let p := Nftables.leaving "eth0" (.v4 0x08080808) 6 443
    (rules.mapM id).map (permits · (onMac p)) = (Netfilter.loadLines [] lines).map
      (fun rs => (rs.named Nftables.lockKey).passes .output (onLinux p)) := by
  obtain ⟨rules, hrules, -⟩ : ∃ rules, renderLock Nftables.officeLock = .ok rules ∧ True := by
    decide +kernel
  obtain ⟨lines, hlines, -⟩ : ∃ lines, Nftables.renderLock Nftables.officeLock = .ok lines ∧ True := by
    decide +kernel
  exact ⟨rules, lines, hrules, hlines, (locks_agree_iff hrules hlines).2 fun _ h => by cases h⟩

/-- An IPv4 packet of protocol number 58 is let out by the one and not by the other. -/
theorem locks_differ :
    let p := Nftables.leaving "eth0" (.v4 0x08080808) 58 0
    lockVerdict Nftables.officeLock (onMac p) = some false ∧
      Nftables.lockVerdict Nftables.officeLock (onLinux p) = some true := by
  decide +kernel

end Meshp.Pf
