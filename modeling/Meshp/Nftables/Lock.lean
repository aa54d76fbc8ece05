import Meshp.Nftables.Apply

/-!
# The Lock

The table that refuses what does not go through the tunnel. It is the one table of
meshp's whose policy is to drop and whose last rule rejects, so what it lets out
is what some earlier rule names: loopback and the tunnel first, then the endpoints
the tunnel needs, then, past the refusal of plaintext DNS, the prefixes that were
carved out and what keeps the machine its addresses. The length of an IPv4-mapped
exclusion counts the bits that unmapping takes away; a line with no prefix in it
is one `nft` cannot read, so lines are optional commands.
-/

namespace Meshp.Nftables

open Base (refuseIf refuseIf_bind_eq_ok)
open List (all_cons all_nil any_append any_cons any_eq_true any_nil map_nil mem_cons mem_map
  mem_singleton not_mem_nil)
open Netfilter
open Netip (Addr AddrPort Prefix writtenPrefix)

/-- `LockTableName`. -/
def lockKey : Key := ⟨.inet, "meshp_lock"⟩

structure LockSpec where
  interface : String
  endpoints : List AddrPort
  excluded : List Prefix
  preventDNSLeaks : Bool

def normalEndpoint (ep : AddrPort) : AddrPort :=
  ⟨ep.addr.unmap, ep.port⟩

/-- `sortedEndpoints`. An endpoint without a port is none. -/
def sortedEndpoints (eps : List AddrPort) : List AddrPort :=
  (((eps.filter (·.port ≠ 0)).map normalEndpoint).dedup).insertionSort
    fun a b => ¬b.text < a.text

/-- An exclusion as it is written; the zero prefix is `none`. -/
def normalPrefix (p : Prefix) : Option Prefix :=
  (Prefix.ofBits? p.addr.unmap p.bits).map Prefix.masked

def onSide (family : IpFamily) (p : Option Prefix) : Bool :=
  match family with
  | .ip => p.any (·.addr.is4)
  | .ip6 => !p.any (·.addr.is4)

/-- `splitPrefixes`: one family's side. -/
def splitPrefixes (family : IpFamily) (ps : List Prefix) : List (Option Prefix) :=
  (((ps.map normalPrefix).dedup).filter (onSide family)).insertionSort
    fun a b => ¬writtenPrefix b < writtenPrefix a

def endpointRules (ep : AddrPort) : List Rule :=
  let family : IpFamily := if ep.addr.is4 then .ip else .ip6
  [.udp, .tcp].map fun transport =>
    { conds := [.daddr family [.single ep.addr], .dport transport [.one ep.port.toNat]],
      verdict := .act .accept }

def openRules (spec : LockSpec) : List Rule :=
  [{ conds := [.oif "lo"], verdict := .act .accept },
    { conds := [.oifname spec.interface], verdict := .act .accept }] ++
    (sortedEndpoints spec.endpoints).flatMap endpointRules

def dnsRules (spec : LockSpec) : List Rule :=
  if spec.preventDNSLeaks then
    [.udp, .tcp].map fun transport =>
      { conds := [.dport transport [.one 53]], verdict := .act .reject }
  else []

def excludedRule (family : IpFamily) (ps : List Prefix) : List (Option Rule) :=
  if splitPrefixes family ps = [] then []
  else [((splitPrefixes family ps).mapM id).map fun set =>
    { conds := [.daddr family set], verdict := .act .accept }]

def addressingRules : List Rule :=
  [{ conds := [.dport .udp [.one 67, .one 68, .one 546, .one 547]], verdict := .act .accept },
    { conds := [.l4icmp .ip6], verdict := .act .accept }]

def rejectRule : Rule :=
  { conds := [], verdict := .act .reject }

def lockRules (spec : LockSpec) : List (Option Rule) :=
  (openRules spec ++ dnsRules spec).map some ++
    [.ip, .ip6].flatMap (excludedRule · spec.excluded) ++
    (addressingRules ++ [rejectRule]).map some

def lockBase : Netfilter.Base := ⟨.filter, .output, 0, .drop⟩

/-- `RenderLock`. Without an interface the table is removed. -/
def renderLock (spec : LockSpec) : Except Fault (List (Option Command)) :=
  if spec.interface = "" then .ok ((remove lockKey).map some)
  else do
    refuseIf (interfaceNameOk spec.interface = false) (.badInterface spec.interface)
    pure ((remove lockKey).map some ++
      [some (.addTable lockKey), some (.addChain lockKey "output" (some lockBase))] ++
      (lockRules spec).map (Option.map (.addRule lockKey "output")))

def toPort (p : Packet) (transport : Transport) (port : Nat) : Prop :=
  p.l4proto = transport.number ∧ p.dport = port

def toEndpoint (p : Packet) (ep : AddrPort) : Prop :=
  p.dst = ep.addr.unmap ∧ (toPort p .udp ep.port.toNat ∨ toPort p .tcp ep.port.toNat)

def toListed (spec : LockSpec) (p : Packet) : Prop :=
  ∃ ep ∈ spec.endpoints, ep.port ≠ 0 ∧ toEndpoint p ep

def toDNS (p : Packet) : Prop :=
  toPort p .udp 53 ∨ toPort p .tcp 53

def addressing (p : Packet) : Prop :=
  (∃ port ∈ [67, 68, 546, 547], toPort p .udp port) ∨ p.l4proto = 58

def toExcluded (spec : LockSpec) (p : Packet) : Prop :=
  ∃ q ∈ spec.excluded, q.contains p.dst = true

def LetOut (spec : LockSpec) (p : Packet) : Prop :=
  p.oif = "lo" ∨ p.oif = spec.interface ∨ toListed spec p ∨ addressing p ∨
    toExcluded spec p ∧ ¬(spec.preventDNSLeaks = true ∧ toDNS p)

theorem mapM_id_eq_some {α : Type} {l : List (Option α)} (h : ∀ x ∈ l, x.isSome = true) :
    l.mapM id = some l.reduceOption := by
  induction l with
  | nil => rfl
  | cons x l ih =>
    rcases Option.isSome_iff_exists.1 (h x (.head _)) with ⟨a, rfl⟩
    rw [List.mapM_cons, ih fun y hy => h y (.tail _ hy)]
    rfl

theorem mapM_id_eq_none {α : Type} {l : List (Option α)} (h : none ∈ l) : l.mapM id = none := by
  induction l with
  | nil => cases h
  | cons x l ih =>
    cases x with
    | none => rfl
    | some a =>
      rw [List.mapM_cons, ih ((mem_cons.1 h).resolve_left nofun)]
      rfl

theorem mapM_id_map_some {α : Type} (l : List α) : (l.map some).mapM id = some l := by
  rw [mapM_id_eq_some (by simp)]
  simp [List.reduceOption]

section Written

variable {spec : LockSpec}

def carved (family : IpFamily) (ps : List Prefix) : List Prefix :=
  (splitPrefixes family ps).reduceOption

def carvedRules (ps : List Prefix) : List Rule :=
  [.ip, .ip6].flatMap fun family =>
    if splitPrefixes family ps = [] then []
    else [{ conds := [.daddr family (carved family ps)], verdict := .act .accept }]

def writtenRules (spec : LockSpec) : List Rule :=
  openRules spec ++ dnsRules spec ++ carvedRules spec.excluded ++ (addressingRules ++ [rejectRule])

theorem mem_splitPrefixes {family : IpFamily} {ps : List Prefix} {q : Option Prefix} :
    q ∈ splitPrefixes family ps ↔ (∃ p ∈ ps, normalPrefix p = q) ∧ onSide family q = true := by
  rw [splitPrefixes, (List.perm_insertionSort _ _).mem_iff, List.mem_filter, List.mem_dedup,
    mem_map]

theorem map_some_carved {ρ : Type} (rule : List Prefix → ρ) (family : IpFamily) {ps : List Prefix}
    (h : ∀ q ∈ ps, (normalPrefix q).isSome = true) :
    (if splitPrefixes family ps = [] then [] else [((splitPrefixes family ps).mapM id).map rule]) =
      (if splitPrefixes family ps = [] then [] else [rule (carved family ps)]).map some := by
  have hsome : ∀ q ∈ splitPrefixes family ps, q.isSome = true := by
    intro q hq
    rcases (mem_splitPrefixes.1 hq).1 with ⟨p, hp, rfl⟩
    exact h p hp
  by_cases hnil : splitPrefixes family ps = []
  · rw [if_pos hnil, if_pos hnil, map_nil]
  · rw [if_neg hnil, if_neg hnil, mapM_id_eq_some hsome]
    rfl

theorem lockRules_written (h : ∀ q ∈ spec.excluded, (normalPrefix q).isSome = true) :
    lockRules spec = (writtenRules spec).map some := by
  simp only [lockRules, excludedRule, writtenRules, carvedRules, List.flatMap_cons,
    List.flatMap_nil, map_some_carved _ _ h, List.map_append, List.append_nil, List.append_assoc]

theorem openRules_accept (spec : LockSpec) :
    ∀ r ∈ openRules spec, r.verdict = .act .accept := by
  intro r hr
  simp only [openRules, endpointRules, List.mem_append, mem_cons, not_mem_nil, or_false,
    List.mem_flatMap, mem_map] at hr
  rcases hr with (rfl | rfl) | ⟨ep, _, transport, _, rfl⟩ <;> rfl

theorem dnsRules_reject (spec : LockSpec) :
    ∀ r ∈ dnsRules spec, r.verdict = .act .reject := by
  intro r hr
  unfold dnsRules at hr
  split at hr
  · rcases mem_map.1 hr with ⟨transport, _, rfl⟩
    rfl
  · cases hr

theorem carvedRules_accept (ps : List Prefix) :
    ∀ r ∈ carvedRules ps, r.verdict = .act .accept := by
  intro r hr
  rcases List.mem_flatMap.1 hr with ⟨family, _, hr⟩
  split at hr
  · cases hr
  · rw [mem_singleton.1 hr]

theorem addressingRules_accept : ∀ r ∈ addressingRules, r.verdict = .act .accept := by
  decide

theorem writtenRules_act (spec : LockSpec) :
    ∀ r ∈ writtenRules spec, r.target? = none := by
  have hact : ∀ {r : Rule} {a : Action}, r.verdict = .act a → r.target? = none := by
    intro r a h
    rw [Rule.target?, h]
  intro r hr
  simp only [writtenRules, List.mem_append, mem_singleton] at hr
  rcases hr with ((hr | hr) | hr) | hr | rfl
  · exact hact (openRules_accept spec r hr)
  · exact hact (dnsRules_reject spec r hr)
  · exact hact (carvedRules_accept _ r hr)
  · exact hact (addressingRules_accept r hr)
  · rfl

def lockTable (spec : LockSpec) : Table :=
  ⟨lockKey, [⟨"output", some lockBase, writtenRules spec⟩]⟩

variable {lines : List (Option Command)} {rs rs' : Ruleset}

theorem loadLines_written (h : renderLock spec = .ok lines) (hiface : spec.interface ≠ "")
    (hwritten : ∀ q ∈ spec.excluded, (normalPrefix q).isSome = true) (rs : Ruleset) :
    loadLines rs lines = some (rs.without lockKey ++ [lockTable spec]) := by
  have hlines : lines = (remove lockKey ++ (lockTable spec).script).map some := by
    rw [renderLock, if_neg hiface] at h
    rcases refuseIf_bind_eq_ok.1 h with ⟨_, h⟩
    cases h
    simp [lockRules_written hwritten, lockTable, Table.script, Chain.script]
  rw [hlines, loadLines, mapM_id_map_some, Option.bind_some]
  refine load_replace rs (lockTable spec) (by simp [lockTable]) ?_
  intro c hc r hr
  cases mem_singleton.1 hc
  exact writtenRules_act spec r hr

theorem loadLines_unwritten (h : renderLock spec = .ok lines) (hiface : spec.interface ≠ "")
    {q : Prefix} (hq : q ∈ spec.excluded) (hnone : normalPrefix q = none) (rs : Ruleset) :
    loadLines rs lines = none := by
  -- What is no prefix is not IPv4 either, and so it stands among the IPv6 ones.
  have hside : none ∈ splitPrefixes .ip6 spec.excluded :=
    mem_splitPrefixes.2 ⟨⟨q, hq, hnone⟩, rfl⟩
  have hrule : none ∈ lockRules spec := by
    have hne : splitPrefixes .ip6 spec.excluded ≠ [] := List.ne_nil_of_mem hside
    simp [lockRules, excludedRule, hne, mapM_id_eq_none hside]
  rw [renderLock, if_neg hiface] at h
  rcases refuseIf_bind_eq_ok.1 h with ⟨_, h⟩
  cases h
  have hline : none ∈ (lockRules spec).map (Option.map (Command.addRule lockKey "output")) :=
    mem_map.2 ⟨none, hrule, rfl⟩
  rw [loadLines, mapM_id_eq_none (List.mem_append_right _ hline)]
  rfl

theorem eq_of_loadLines (h : renderLock spec = .ok lines) (hiface : spec.interface ≠ "")
    (hload : loadLines rs lines = some rs') : rs' = rs.without lockKey ++ [lockTable spec] := by
  by_cases hwritten : ∀ q ∈ spec.excluded, (normalPrefix q).isSome = true
  · rw [loadLines_written h hiface hwritten] at hload
    exact (Option.some.inj hload).symm
  · push Not at hwritten
    obtain ⟨q, hq, hnone⟩ := hwritten
    have hnone : normalPrefix q = none := Option.not_isSome_iff_eq_none.1 hnone
    rw [loadLines_unwritten h hiface hq hnone] at hload
    cases hload

theorem named_of_loadLines (h : renderLock spec = .ok lines) (hiface : spec.interface ≠ "")
    (hload : loadLines rs lines = some rs') : rs'.named lockKey = [lockTable spec] := by
  rw [eq_of_loadLines h hiface hload]
  simp [Ruleset.named, Ruleset.without, lockTable]

theorem loadLines_removed (h : renderLock spec = .ok lines) (hiface : spec.interface = "")
    (rs : Ruleset) : loadLines rs lines = some (rs.without lockKey) := by
  rw [renderLock, if_pos hiface] at h
  cases h
  rw [loadLines, mapM_id_map_some, Option.bind_some]
  exact load_remove rs lockKey

theorem without_of_loadLines (h : renderLock spec = .ok lines)
    (hload : loadLines rs lines = some rs') : rs'.without lockKey = rs.without lockKey := by
  by_cases hiface : spec.interface = ""
  · rw [loadLines_removed h hiface] at hload
    rw [← Option.some.inj hload, Ruleset.without_without_self]
  · rw [eq_of_loadLines h hiface hload, Ruleset.without_append, Ruleset.without_without_self,
      show lockKey = (lockTable spec).key from rfl, Ruleset.without_table, List.append_nil]

end Written

section Decided

variable {spec : LockSpec} {p : Packet}

theorem outcome_writtenRules (call : String → Option Action) :
    decideRules call p (writtenRules spec) = some
      (if (openRules spec).any (·.hits p) then .accept
        else if (dnsRules spec).any (·.hits p) then .reject
        else if (carvedRules spec.excluded ++ addressingRules).any (·.hits p) then .accept
        else .reject) := by
  have hlast : decideRules call p [rejectRule] = some .reject := rfl
  simp only [writtenRules, decideRules_append, hlast,
    decideRules_uniform _ _ (openRules_accept spec),
    decideRules_uniform _ _ (dnsRules_reject spec),
    decideRules_uniform _ _ (carvedRules_accept spec.excluded),
    decideRules_uniform _ _ addressingRules_accept, any_append]
  cases (openRules spec).any (·.hits p) <;> cases (dnsRules spec).any (·.hits p) <;>
    cases (carvedRules spec.excluded).any (·.hits p) <;>
    cases addressingRules.any (·.hits p) <;> rfl

theorem passes_lockTable :
    (lockTable spec).passes .output p = ((openRules spec).any (·.hits p) ||
      !(dnsRules spec).any (·.hits p) &&
        (carvedRules spec.excluded ++ addressingRules).any (·.hits p)) := by
  simp only [Table.passes, lockTable, all_cons, all_nil, Option.all_some, Bool.and_true,
    Base.sees, lockBase, lockKey, TableFamily.sees, decide_true, Bool.true_or, Bool.and_self,
    Bool.not_true, Bool.false_or, Table.lets, Table.outcome, outcome_writtenRules]
  cases (openRules spec).any (·.hits p) <;> cases (dnsRules spec).any (·.hits p) <;>
    cases (carvedRules spec.excluded ++ addressingRules).any (·.hits p) <;> rfl

theorem hits_endpointRules (ep : AddrPort) :
    (endpointRules ep).any (·.hits p) = true ↔
      p.dst = ep.addr ∧ (toPort p .udp ep.port.toNat ∨ toPort p .tcp ep.port.toNat) := by
  have hdst : (Match.daddr (if ep.addr.is4 then .ip else .ip6) [.single ep.addr]).hits p = true ↔
      p.dst = ep.addr := by
    simp only [Match.hits_daddr, any_cons, any_nil, Bool.or_false, Bool.and_eq_true,
      Prefix.contains_single]
    constructor
    · rintro ⟨_, h⟩
      exact h.symm
    · intro h
      cases h4 : ep.addr.is4 <;> simp [IpFamily.has, h, h4]
  simp only [endpointRules, List.map_cons, map_nil, any_cons, any_nil, Rule.hits,
    all_cons, all_nil, Bool.or_false, Bool.and_true, Bool.or_eq_true, Bool.and_eq_true,
    hdst, ← and_or_left]
  simp [toPort, Match.hits, Ports.contains]

theorem hits_openRules : (openRules spec).any (·.hits p) = true ↔
    p.oif = "lo" ∨ p.oif = spec.interface ∨ toListed spec p := by
  have hlisted : ((sortedEndpoints spec.endpoints).flatMap endpointRules).any (·.hits p) = true ↔
      toListed spec p := by
    simp only [List.any_flatMap, any_eq_true, sortedEndpoints,
      (List.perm_insertionSort _ _).mem_iff, List.mem_dedup, mem_map, List.mem_filter,
      decide_eq_true_eq, toListed]
    constructor
    · rintro ⟨_, ⟨ep, ⟨hep, hport⟩, rfl⟩, hhits⟩
      exact ⟨ep, hep, hport, (hits_endpointRules _).1 (any_eq_true.2 hhits)⟩
    · rintro ⟨ep, hep, hport, hto⟩
      have hhits := (hits_endpointRules (normalEndpoint ep)).2 hto
      exact ⟨_, ⟨ep, ⟨hep, hport⟩, rfl⟩, any_eq_true.1 hhits⟩
  rw [openRules, any_append, Bool.or_eq_true, hlisted]
  simp [Rule.hits, Match.hits, or_assoc]

theorem hits_dnsRules : (dnsRules spec).any (·.hits p) = true ↔
    spec.preventDNSLeaks = true ∧ toDNS p := by
  unfold dnsRules toDNS toPort
  cases spec.preventDNSLeaks with
  | false => simp
  | true => simp [Rule.hits, Match.hits, Ports.contains]

theorem hits_addressingRules : addressingRules.any (·.hits p) = true ↔ addressing p := by
  simp only [addressingRules, addressing, toPort, Rule.hits, Match.hits, Ports.contains,
    any_cons, any_nil, all_cons, all_nil, Bool.and_true, Bool.or_false,
    Bool.or_eq_true, Bool.and_eq_true, beq_iff_eq, IpFamily.icmp, mem_cons, not_mem_nil,
    or_false, exists_eq_or_imp, exists_eq_left]
  tauto

theorem onSide_of_contains {family : IpFamily} {q : Option Prefix} {a : Addr}
    (h : q.any (·.contains a) = true) : onSide family q = family.has a := by
  cases q with
  | none => cases h
  | some q =>
    have h4 : q.addr.is4 = a.is4 := Prefix.is4_of_contains h
    cases family <;> simp [onSide, IpFamily.has, h4]

theorem any_carved (family : IpFamily) (ps : List Prefix) (a : Addr) :
    (carved family ps).any (·.contains a) = true ↔
      family.has a = true ∧ ∃ q ∈ ps, (normalPrefix q).any (·.contains a) = true := by
  simp only [carved, any_eq_true, List.reduceOption_mem_iff, mem_splitPrefixes]
  constructor
  · rintro ⟨q, ⟨⟨p, hp, hq⟩, hside⟩, hc⟩
    have hany : (normalPrefix p).any (·.contains a) = true := by rw [hq]; exact hc
    rw [← hq, onSide_of_contains hany] at hside
    exact ⟨hside, p, hp, hany⟩
  · rintro ⟨hfam, p, hp, hany⟩
    rcases (Option.any_eq_true_iff_get _ _).1 hany with ⟨hs, hc⟩
    refine ⟨_, ⟨⟨p, hp, (Option.some_get hs).symm⟩, ?_⟩, hc⟩
    rw [Option.some_get, onSide_of_contains hany, hfam]

theorem any_carvedRules {ρ : Type} (rule : IpFamily → List Prefix → ρ) (hits : ρ → Bool) (a : Addr)
    (hrule : ∀ family set, hits (rule family set) = (family.has a && set.any (·.contains a)))
    (ps : List Prefix) :
    ([.ip, .ip6].flatMap fun family => if splitPrefixes family ps = [] then []
        else [rule family (carved family ps)]).any hits = true ↔
      ∃ q ∈ ps, (normalPrefix q).any (·.contains a) = true := by
  have hfamily : ∀ family : IpFamily, ((if splitPrefixes family ps = [] then []
      else [rule family (carved family ps)]).any hits) = true ↔
      family.has a = true ∧ ∃ q ∈ ps, (normalPrefix q).any (·.contains a) = true := by
    intro family
    rw [← any_carved]
    by_cases hnil : splitPrefixes family ps = []
    · simp [hnil, carved]
    · rw [if_neg hnil]
      simp only [any_cons, any_nil, Bool.or_false, hrule, Bool.and_eq_true, any_carved]
      tauto
  simp only [List.any_flatMap, any_cons, any_nil, Bool.or_false, Bool.or_eq_true, hfamily,
    ← or_and_right]
  cases h4 : a.is4 <;> simp [IpFamily.has, h4]

theorem hits_carvedRules (ps : List Prefix) : (carvedRules ps).any (·.hits p) = true ↔
    ∃ q ∈ ps, (normalPrefix q).any (·.contains p.dst) = true := by
  refine any_carvedRules (ρ := Rule)
    (fun family set => { conds := [.daddr family set], verdict := .act .accept }) (·.hits p) p.dst
    (fun family set => ?_) ps
  simp only [Rule.hits, all_cons, all_nil, Bool.and_true, Match.hits_daddr]

theorem passes_lockTable_iff : (lockTable spec).passes .output p = true ↔
    (p.oif = "lo" ∨ p.oif = spec.interface ∨ toListed spec p) ∨
      ¬(spec.preventDNSLeaks = true ∧ toDNS p) ∧
        ((∃ q ∈ spec.excluded, (normalPrefix q).any (·.contains p.dst) = true) ∨ addressing p) := by
  rw [passes_lockTable, any_append]
  simp only [Bool.or_eq_true, Bool.and_eq_true, Bool.not_eq_true', ← Bool.not_eq_true,
    hits_openRules, hits_dnsRules, hits_addressingRules, hits_carvedRules]

theorem normalPrefix_of_not_mapped {q : Prefix} (h : q.addr.is4In6 = false) :
    normalPrefix q = some q.masked := by
  have hbits : q.bits ≤ q.addr.unmap.bitLen := by
    rw [Addr.unmap_of_not_is4In6 h]
    exact q.valid
  rw [normalPrefix, Prefix.ofBits?, dif_pos hbits]
  simp only [Option.map_some, Prefix.masked, Addr.unmap_of_not_is4In6 h]

theorem not_addressing_of_toDNS (h : toDNS p) : ¬addressing p := by
  simp only [toDNS, toPort, Transport.number] at h
  simp only [addressing, toPort, Transport.number, mem_cons, not_mem_nil, or_false]
  rintro (⟨port, hport, hudp⟩ | hicmp) <;> omega

/-- What a lock lets out, when no exclusion is IPv4-mapped; and with plaintext DNS refused, that it
is refused. -/
theorem lock_lets_out_iff {lines : List (Option Command)} (h : renderLock spec = .ok lines)
    (hiface : spec.interface ≠ "") (hplain : ∀ q ∈ spec.excluded, q.addr.is4In6 = false)
    (rs : Ruleset) :
    ∃ rs', loadLines rs lines = some rs' ∧
      (∀ p : Packet, (rs'.named lockKey).passes .output p = true ↔ LetOut spec p) ∧
      (spec.preventDNSLeaks = true → ∀ p : Packet, toDNS p → p.oif ≠ "lo" →
        p.oif ≠ spec.interface → ¬toListed spec p →
          (rs'.named lockKey).passes .output p = false) := by
  have hwritten : ∀ q ∈ spec.excluded, (normalPrefix q).isSome = true := by
    intro q hq
    rw [normalPrefix_of_not_mapped (hplain q hq)]
    rfl
  have hlets : ∀ p : Packet, ((rs.without lockKey ++ [lockTable spec]).named lockKey).passes
      .output p = true ↔ LetOut spec p := by
    intro p
    have hcarved : (∃ q ∈ spec.excluded, (normalPrefix q).any (·.contains p.dst) = true) ↔
        toExcluded spec p := by
      refine exists_congr fun q => and_congr_right fun hq => ?_
      rw [normalPrefix_of_not_mapped (hplain q hq), Option.any_some, Prefix.contains_masked]
    have hnamed : (rs.without lockKey ++ [lockTable spec]).named lockKey = [lockTable spec] := by
      rw [Ruleset.named_append, Ruleset.named_without_self]
      exact Ruleset.named_table (lockTable spec)
    have hdns : toDNS p → ¬addressing p := not_addressing_of_toDNS
    rw [hnamed, Ruleset.passes, all_cons, all_nil, Bool.and_true, passes_lockTable_iff, hcarved,
      LetOut]
    tauto
  refine ⟨_, loadLines_written h hiface hwritten rs, hlets, ?_⟩
  intro hprevent p hdns hlo htunnel hlisted
  rw [← Bool.not_eq_true, hlets]
  have hnot := not_addressing_of_toDNS hdns
  unfold LetOut
  tauto

end Decided

def officeLock : LockSpec where
  interface := "meshp0"
  endpoints := [⟨.v4 0xc6336401, 51820⟩]
  excluded := [.upTo (.v4 0xc0a80100) 24]
  preventDNSLeaks := true

theorem lock_lets_out_office : ∃ lines, renderLock officeLock = .ok lines ∧
    ∃ rs', loadLines [] lines = some rs' ∧
      (∀ p : Packet, (rs'.named lockKey).passes .output p = true ↔ LetOut officeLock p) ∧
      (officeLock.preventDNSLeaks = true → ∀ p : Packet, toDNS p → p.oif ≠ "lo" →
        p.oif ≠ officeLock.interface → ¬toListed officeLock p →
          (rs'.named lockKey).passes .output p = false) := by
  have hrenders : ∃ lines, renderLock officeLock = .ok lines ∧ True := by
    decide +kernel
  rcases hrenders with ⟨lines, hlines, _⟩
  exact ⟨lines, hlines, lock_lets_out_iff hlines (by decide) (by decide) []⟩

def leaving (oif : String) (dst : Addr) (l4proto dport : Nat) : Packet :=
  { arriving "" dst with oif, l4proto, dport }

def lockVerdict (spec : LockSpec) (p : Packet) : Option Bool :=
  ((renderLock spec).toOption.bind (loadLines [])).map fun rs =>
    (rs.named lockKey).passes .output p

/-- Where a lock lets out more or less than its lists say: without an interface it lets everything
out; an endpoint without a port is none; a resolver on loopback is reached with plaintext DNS
refused; and an IPv4-mapped exclusion makes a script that cannot be loaded. -/
theorem lock_exceptions :
    lockVerdict { officeLock with interface := "" } (leaving "eth0" (.v4 0x08080808) 6 443) =
        some true ∧
      lockVerdict { officeLock with endpoints := [⟨.v4 0xc6336401, 0⟩] }
        (leaving "eth0" (.v4 0xc6336401) 17 0) = some false ∧
      lockVerdict officeLock (leaving "lo" (.v4 0x7f000035) 17 53) = some true ∧
      lockVerdict { officeLock with excluded := [⟨.v6 0xffff0a000000, 104, by decide⟩] }
        (leaving "meshp0" (.v4 0x0a000001) 6 443) = none := by
  decide +kernel

end Meshp.Nftables
