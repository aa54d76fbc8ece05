import Meshp.Acl.Compile
import Meshp.Base.Decimal
import Meshp.Base.Rows

/-!
# What a Policy Permits

A document is read here twice: as its author means it, rule by rule, and as the
filter a device is sent, prefix by prefix and port by port as text. Compiling
carries the one into the other, and `compile_permits` says so for both halves of a
filter at once.
-/

namespace Meshp.Acl

open Base (bind_eq_ok map_eq_ok any_of_mapM any_dedup)
open List (any_cons any_eq_true any_map)
open Netip (Addr Prefix)

/-- What a rule can ask about a packet besides where it is from and where it is going. -/
inductive Traffic
  | tcp (port : Nat)
  | udp (port : Nat)
  | icmp
  | other (number : Nat)

def Traffic.port? : Traffic → Option Nat
  | tcp port => some port
  | udp port => some port
  | icmp => none
  | other _ => none

def Protocol.covers : Protocol → Traffic → Bool
  | any, _ => true
  | tcp, .tcp _ => true
  | udp, .udp _ => true
  | icmp, .icmp => true
  | _, _ => false

def PortRange.contains (r : PortRange) (n : Nat) : Bool :=
  r.first ≤ n && n ≤ r.last

def portsCover (specs : List String) (t : Traffic) : Bool :=
  specs.isEmpty || t.port?.all fun n =>
    specs.any fun spec => (parsePortRange spec).toOption.any (·.contains n)

def covered (texts : List String) (a : Addr) : Bool :=
  texts.any fun text => (Netip.parsePrefix text).any (·.contains a)

def wordCovers (word : String) (t : Traffic) : Bool :=
  [Protocol.any, .tcp, .udp, .icmp].any fun p => p.word = word && p.covers t

def permitsRule (src dst : Addr) (t : Traffic) (r : Wire.FilterRule) : Bool :=
  r.allow && covered r.srcPrefixes src && covered r.dstPrefixes dst && wordCovers r.protocol t &&
    portsCover r.ports t

def permits (rules : List Wire.FilterRule) (src dst : Addr) (t : Traffic) : Bool :=
  rules.any (permitsRule src dst t)

def resolvesTo (peers : List Device) (a : Addr) (s : Selector) : Bool :=
  (contribution peers s).any (·.contains a)

def Device.holds (d : Device) (a : Addr) : Bool :=
  d.addresses.any (·.contains a)

def Rule.grants (r : Rule) (t : Traffic) : Bool :=
  r.canonicalProtocol.covers t && portsCover r.ports t

def Rule.lets (r : Rule) (self : Device) (peers : List Device) (src : Addr) (t : Traffic) : Bool :=
  matchesAny self r.dst && r.src.any (resolvesTo peers src) && r.grants t

def Rule.letsOut (r : Rule) (self : Device) (peers : List Device) (dst : Addr) (t : Traffic) :
    Bool :=
  matchesAny self r.src && r.dst.any (resolvesTo peers dst) && r.grants t

theorem any_dropRepeats (q : String → Bool) (last : String) (texts : List String) :
    (q last || (dropRepeats last texts).any q) = (q last || texts.any q) := by
  induction texts generalizing last with
  | nil => rfl
  | cons s rest ih =>
    rw [dropRepeats]
    by_cases hs : s = last
    · rw [if_pos hs, ih, any_cons, hs, ← Bool.or_assoc, Bool.or_self]
    · rw [if_neg hs, any_cons, any_cons, ih]

theorem covered_sortedPrefixes (ps : List Prefix) (a : Addr) :
    covered (sortedPrefixes ps) a = ps.any (·.contains a) := by
  have hempty : (Netip.parsePrefix "").any (·.contains a) = false := rfl
  have hdrop := any_dropRepeats (fun text => (Netip.parsePrefix text).any (·.contains a)) ""
    ((ps.insertionSort (prefixLe · ·)).map Prefix.text)
  rw [hempty, Bool.false_or, Bool.false_or] at hdrop
  rw [covered, sortedPrefixes, hdrop, any_map]
  simp only [Function.comp_def, Netip.parsePrefix_text, Option.any_some]
  exact (List.perm_insertionSort _ _).any_eq

theorem covered_resolve (selectors : List Selector) (peers : List Device) (a : Addr) :
    covered (resolve selectors peers) a = selectors.any (resolvesTo peers a) := by
  rw [resolve, covered_sortedPrefixes, any_dedup, List.any_flatMap]
  rfl

def PortRange.Valid (r : PortRange) : Prop :=
  1 ≤ r.first ∧ r.first ≤ r.last ∧ r.last ≤ 65535

theorem parsePort_ok {spec part : String} {n : Nat} (h : parsePort spec part = .ok n) :
    1 ≤ n ∧ n ≤ 65535 := by
  unfold parsePort at h
  cases hn : Text.atoi (Text.trimSpace part) with
  | none =>
    rw [hn] at h
    cases h
  | some i =>
    simp only [hn] at h
    split at h
    · cases h
    · cases h
      omega

theorem parsePortRange_valid {raw : String} {r : PortRange} (h : parsePortRange raw = .ok r) :
    r.Valid := by
  simp only [parsePortRange] at h
  generalize Text.cut '-' (Text.trimSpace raw) = parts at h
  obtain ⟨from', to?⟩ := parts
  rcases bind_eq_ok.1 h with ⟨lo, hlo, h⟩
  cases to? with
  | none =>
    rcases bind_eq_ok.1 h with ⟨hi, hhi, h⟩
    rcases bind_eq_ok.1 h with ⟨_, -, h⟩
    cases hhi
    cases h
    exact ⟨(parsePort_ok hlo).1, Nat.le_refl _, (parsePort_ok hlo).2⟩
  | some to' =>
    rcases bind_eq_ok.1 h with ⟨hi, hhi, h⟩
    rcases bind_eq_ok.1 h with ⟨_, horder, h⟩
    cases h
    exact ⟨(parsePort_ok hlo).1, Nat.not_lt.1 (Base.refuseIf_eq_ok.1 horder),
      (parsePort_ok hhi).2⟩

theorem parsePort_toString (spec : String) {n : Nat} (h1 : 1 ≤ n) (hn : n ≤ 65535) :
    parsePort spec (toString n) = .ok n := by
  rw [parsePort, Text.trimSpace_toString, Text.atoi_toString (by omega)]
  simp only
  rw [if_neg (by omega)]
  simp

theorem parsePortRange_text {r : PortRange} (h : r.Valid) : parsePortRange r.text = .ok r := by
  obtain ⟨h1, hle, hlast⟩ := h
  obtain ⟨first, last⟩ := r
  simp only at h1 hle hlast
  unfold parsePortRange PortRange.text
  by_cases heq : first = last
  · subst heq
    simp only [if_true, Text.trimSpace_toString, Text.cut_toString]
    refine bind_eq_ok.2 ⟨first, parsePort_toString _ h1 hlast, ?_⟩
    refine bind_eq_ok.2 ⟨first, rfl, ?_⟩
    exact bind_eq_ok.2 ⟨(), Base.refuseIf_eq_ok.2 (by omega), rfl⟩
  · simp only [if_neg heq, Text.trimSpace_range, Text.cut_range]
    refine bind_eq_ok.2 ⟨first, parsePort_toString _ h1 (by omega), ?_⟩
    refine bind_eq_ok.2 ⟨last, parsePort_toString _ (by omega) hlast, ?_⟩
    exact bind_eq_ok.2 ⟨(), Base.refuseIf_eq_ok.2 (by omega), rfl⟩

variable {ports : List PortRange} {r : Rule} {peers : List Device} {self d : Device}
  {filter : Wire.PacketFilter} {i : Nat} {rs : List Rule} {doc : Document} {a : Addr}

theorem portsCover_text (h : r.portRanges = .ok ports) (t : Traffic) :
    portsCover (ports.map PortRange.text) t = portsCover r.ports t := by
  obtain ⟨ranges, hranges, rfl⟩ := map_eq_ok.1 h
  have hvalid : ∀ x ∈ ranges, x.Valid := by
    intro x hx
    obtain ⟨spec, -, hspec⟩ := Base.mem_of_mapM hranges hx
    exact parsePortRange_valid hspec
  have hperm := List.perm_insertionSort (fun a b => PortRange.le a b) ranges
  have hread : ∀ n, (ranges.any fun x => (parsePortRange x.text).toOption.any (·.contains n)) =
      ranges.any (·.contains n) := by
    intro n
    refine Base.any_congr_mem fun x hx => ?_
    rw [parsePortRange_text (hvalid x hx)]
    rfl
  have hspecs : ∀ n, ranges.any (·.contains n) =
      r.ports.any fun spec => (parsePortRange spec).toOption.any (·.contains n) := by
    intro n
    refine any_of_mapM (fun spec x hx => ?_) hranges
    rw [hx]
    rfl
  have hempty : ((ranges.insertionSort (PortRange.le · ·)).map PortRange.text).isEmpty =
      r.ports.isEmpty := by
    rw [Bool.eq_iff_iff, List.isEmpty_iff, List.isEmpty_iff, List.map_eq_nil_iff,
      ← Base.mapM_eq_nil_iff hranges]
    exact ⟨fun hnil => List.length_eq_zero_iff.1 (by rw [← hperm.length_eq, hnil]; rfl),
      fun hnil => by rw [hnil]; rfl⟩
  unfold portsCover
  rw [hempty]
  simp only [any_map, Function.comp_def, hperm.any_eq, hread, hspecs]

theorem wordCovers_word (p : Protocol) (t : Traffic) : wordCovers p.word t = p.covers t := by
  cases p <;> simp [wordCovers, Protocol.word]

theorem permits_resolved (hports : r.portRanges = .ok ports) (picked : Bool)
    (resolved srcs dsts : List String) (src dst : Addr) (t : Traffic)
    (hnone : resolved = [] → (covered srcs src && covered dsts dst) = false) :
    permits (if picked ∧ resolved ≠ [] then
        [{ srcPrefixes := srcs, dstPrefixes := dsts, protocol := r.canonicalProtocol.word,
           ports := ports.map PortRange.text, allow := true }] else []) src dst t =
      (picked && covered srcs src && covered dsts dst && r.grants t) := by
  cases picked with
  | false => simp [permits]
  | true =>
    by_cases hr : resolved = []
    · have h := hnone hr
      simp [permits, hr, h]
    · simp [permits, permitsRule, hr, wordCovers_word, portsCover_text hports, Rule.grants,
        Bool.and_assoc]

theorem covered_nil (a : Addr) : covered [] a = false := rfl

theorem compileRule_inbound (hports : r.portRanges = .ok ports) (src dst : Addr) (t : Traffic) :
    permits (compileRule self (sortedPrefixes self.addresses) peers r ports).1 src dst t =
      (self.holds dst && r.lets self peers src t) := by
  have hnone : resolve r.src peers = [] → (covered (resolve r.src peers) src &&
      covered (sortedPrefixes self.addresses) dst) = false := by
    intro h
    rw [h, covered_nil, Bool.false_and]
  have h := permits_resolved hports (matchesAny self r.dst) _ _ _ src dst t hnone
  rw [covered_resolve, covered_sortedPrefixes] at h
  refine Eq.trans h ?_
  rw [Rule.lets, Device.holds]
  cases self.addresses.any (·.contains dst) <;> simp

theorem compileRule_outbound (hports : r.portRanges = .ok ports) (src dst : Addr) (t : Traffic) :
    permits (compileRule self (sortedPrefixes self.addresses) peers r ports).2 src dst t =
      (self.holds src && r.letsOut self peers dst t) := by
  have hnone : resolve r.dst peers = [] → (covered (sortedPrefixes self.addresses) src &&
      covered (resolve r.dst peers) dst) = false := by
    intro h
    rw [h, covered_nil, Bool.and_false]
  have h := permits_resolved hports (matchesAny self r.src) _ _ _ src dst t hnone
  rw [covered_resolve, covered_sortedPrefixes] at h
  refine Eq.trans h ?_
  rw [Rule.letsOut, Device.holds]
  cases self.addresses.any (·.contains src) <;> simp

theorem permits_append (rs rs' : List Wire.FilterRule) (src dst : Addr) (t : Traffic) :
    permits (rs ++ rs') src dst t = (permits rs src dst t || permits rs' src dst t) :=
  List.any_append

theorem compileRules_permits {filter' : Wire.PacketFilter}
    (h : compileRules self (sortedPrefixes self.addresses) peers i rs filter = .ok filter')
    (src dst : Addr) (t : Traffic) :
    permits filter'.inbound src dst t = (permits filter.inbound src dst t ||
        rs.any fun r => self.holds dst && r.lets self peers src t) ∧
      permits filter'.outbound src dst t = (permits filter.outbound src dst t ||
        rs.any fun r => self.holds src && r.letsOut self peers dst t) := by
  induction rs generalizing i filter with
  | nil =>
    cases h
    simp
  | cons r rs ih =>
    cases hports : r.portRanges with
    | error why => simp [compileRules, hports] at h
    | ok ports =>
      simp only [compileRules, hports] at h
      have hrest := ih h
      simp only [permits_append, compileRule_inbound hports, compileRule_outbound hports] at hrest
      rw [hrest.1, hrest.2, any_cons, any_cons, Bool.or_assoc, Bool.or_assoc]
      exact ⟨rfl, rfl⟩

theorem compileRules_of_compile (h : compile doc self peers = .ok filter) :
    doc.validate = .ok () ∧ compileRules self (sortedPrefixes self.addresses) peers 0 doc.rules
      { defaultDeny := true } = .ok filter := by
  unfold compile at h
  split at h
  · cases h
  · rename_i hdoc
    split at h
    · cases h
    · exact ⟨hdoc, h⟩

theorem compile_permits (h : compile doc self peers = .ok filter) (src dst : Addr) (t : Traffic) :
    permits filter.inbound src dst t =
        (self.holds dst && doc.rules.any fun r => r.lets self peers src t) ∧
      permits filter.outbound src dst t =
        (self.holds src && doc.rules.any fun r => r.letsOut self peers dst t) := by
  have hrules := compileRules_permits (compileRules_of_compile h).2 src dst t
  simp only [permits, List.any_nil, Bool.false_or] at hrules
  have hpull : ∀ (b : Bool) (q : Rule → Bool),
      (doc.rules.any fun r => b && q r) = (b && doc.rules.any q) := by
    intro b q
    cases b <;> simp
  rw [hpull, hpull] at hrules
  exact hrules

theorem compile_without_addresses (hdoc : doc.validate = .ok ()) (hself : self.addresses = [])
    (peers : List Device) : compile doc self peers = .error .noAddresses := by
  have hnone : sortedPrefixes self.addresses = [] := by rw [hself]; rfl
  simp only [compile, hdoc, hnone, if_true]

/-- The inbound half of a filter lets a packet arrive exactly when some rule of the document does:
one whose destinations pick the device, whose sources resolve to the packet's, and which is about
its protocol and port. A device without an address has no filter. -/
theorem inbound_permits_iff {doc : Document} (hdoc : doc.validate = .ok ()) (self : Device)
    (peers : List Device) :
    (self.addresses = [] → compile doc self peers = .error .noAddresses) ∧
      (self.addresses ≠ [] → ∃ filter, compile doc self peers = .ok filter ∧
        ∀ src dst t, permits filter.inbound src dst t = true ↔
          self.holds dst = true ∧ ∃ r ∈ doc.rules,
            (∃ s ∈ r.dst, self.matches s = true) ∧
            (∃ s ∈ r.src, resolvesTo peers src s = true) ∧
            r.canonicalProtocol.covers t = true ∧ portsCover r.ports t = true) := by
  refine ⟨fun hself => compile_without_addresses hdoc hself peers, fun hself => ?_⟩
  obtain ⟨filter, hfilter⟩ := compile_ok hdoc hself peers
  refine ⟨filter, hfilter, fun src dst t => ?_⟩
  rw [(compile_permits hfilter src dst t).1]
  simp only [Bool.and_eq_true, any_eq_true, Rule.lets, Rule.grants, matchesAny, and_assoc]

def toPrefix : Document :=
  { version := 1, rules := [{ src := ["*"], dst := ["fd00::/64"], protocol := "tcp", ports := ["22"] }] }

def dualStack (key : String) (v4 : BitVec 32) (v6 : BitVec 128) : Device :=
  { key, addresses := [Prefix.single (.v4 v4), Prefix.single (.v6 v6)], tags := [] }

def laptop : Device := dualStack "laptop" 0x645a0001 0xfd010000000000000000000000000001

def server : Device := dualStack "server" 0x645a0002 0xfd000000000000000000000000000002

theorem inbound_permits_iff_server :
    toPrefix.validate = .ok () ∧ ∃ filter, compile toPrefix server [laptop, server] = .ok filter ∧
      ∀ src dst t, permits filter.inbound src dst t = true ↔
        server.holds dst = true ∧ ∃ r ∈ toPrefix.rules,
          (∃ s ∈ r.dst, server.matches s = true) ∧
          (∃ s ∈ r.src, resolvesTo [laptop, server] src s = true) ∧
          r.canonicalProtocol.covers t = true ∧ portsCover r.ports t = true :=
  have hdoc : toPrefix.validate = .ok () := by decide +kernel
  ⟨hdoc, (inbound_permits_iff hdoc server [laptop, server]).2 (by decide)⟩

/-- A rule as `compileRule` writes it: prefixes and ports that can be read, and ports only for a
protocol that has them. -/
structure WellFormed (r : Wire.FilterRule) : Prop where
  allow : r.allow = true
  src : ∀ raw ∈ r.srcPrefixes, ∃ p, Netip.parsePrefix raw = some p
  dst : ∀ raw ∈ r.dstPrefixes, ∃ p, Netip.parsePrefix raw = some p
  body : ∃ (proto : Protocol) (ports : List PortRange), r.protocol = proto.word ∧
    r.ports = ports.map PortRange.text ∧ (∀ x ∈ ports, x.Valid) ∧
    (ports ≠ [] → proto = .tcp ∨ proto = .udp)

theorem mem_dropRepeats {last text : String} {texts : List String}
    (h : text ∈ dropRepeats last texts) : text ∈ texts := by
  induction texts generalizing last with
  | nil => exact h
  | cons s rest ih =>
    rw [dropRepeats] at h
    split at h
    · exact .tail _ (ih h)
    · rcases List.mem_cons.1 h with rfl | h
      · exact .head _
      · exact .tail _ (ih h)

theorem sortedPrefixes_read {ps : List Prefix} {raw : String} (h : raw ∈ sortedPrefixes ps) :
    ∃ p, Netip.parsePrefix raw = some p := by
  obtain ⟨p, -, rfl⟩ := List.mem_map.1 (mem_dropRepeats h)
  exact ⟨p, Netip.parsePrefix_text p⟩

theorem portRanges_valid (h : r.portRanges = .ok ports) :
    (∀ x ∈ ports, x.Valid) ∧ (ports ≠ [] → r.ports ≠ []) := by
  obtain ⟨ranges, hranges, rfl⟩ := map_eq_ok.1 h
  constructor
  · intro x hx
    obtain ⟨spec, -, hspec⟩ := Base.mem_of_mapM hranges ((List.mem_insertionSort _).1 hx)
    exact parsePortRange_valid hspec
  · intro hne hnil
    rw [(Base.mapM_eq_nil_iff hranges).2 hnil] at hne
    exact hne rfl

theorem compileRule_wellFormed (self : Device) (peers : List Device) (hr : r.validate = .ok ())
    (hports : r.portRanges = .ok ports) (ps : List Prefix) :
    ∀ x ∈ (compileRule self (sortedPrefixes ps) peers r ports).1 ++
      (compileRule self (sortedPrefixes ps) peers r ports).2, WellFormed x := by
  have hbody : ∀ srcs dsts, (∀ raw ∈ srcs, ∃ p, Netip.parsePrefix raw = some p) →
      (∀ raw ∈ dsts, ∃ p, Netip.parsePrefix raw = some p) →
      WellFormed { srcPrefixes := srcs, dstPrefixes := dsts, protocol := r.canonicalProtocol.word,
                   ports := ports.map PortRange.text, allow := true } := by
    intro srcs dsts hsrcs hdsts
    obtain ⟨hvalid, hne⟩ := portRanges_valid hports
    have hproto := fun h => (ports_of_validate hr).2 (hne h)
    generalize r.canonicalProtocol = proto at hproto
    exact ⟨rfl, hsrcs, hdsts, proto, ports, rfl, rfl, hvalid, hproto⟩
  intro x hx
  -- The two directions differ in whose prefixes come first.
  rcases List.mem_append.1 hx with hx | hx
  all_goals
    unfold compileRule at hx
    simp only at hx
    split at hx
    · obtain rfl := List.mem_singleton.1 hx
      exact hbody _ _ (fun _ => sortedPrefixes_read) fun _ => sortedPrefixes_read
    · cases hx

theorem compileRules_wellFormed {ps : List Prefix} {filter' : Wire.PacketFilter}
    (hrs : ∀ r ∈ rs, r.validate = .ok ())
    (h : compileRules self (sortedPrefixes ps) peers i rs filter = .ok filter')
    (hfilter : ∀ x ∈ filter.inbound ++ filter.outbound, WellFormed x) :
    (∀ x ∈ filter'.inbound ++ filter'.outbound, WellFormed x) ∧
      filter'.defaultDeny = filter.defaultDeny := by
  induction rs generalizing i filter with
  | nil =>
    cases h
    exact ⟨hfilter, rfl⟩
  | cons r rs ih =>
    cases hports : r.portRanges with
    | error why => simp [compileRules, hports] at h
    | ok ports =>
      simp only [compileRules, hports] at h
      have hr := compileRule_wellFormed self peers (hrs r (.head _)) hports ps
      have hmore : ∀ x ∈ (filter.inbound ++
            (compileRule self (sortedPrefixes ps) peers r ports).1) ++
          (filter.outbound ++ (compileRule self (sortedPrefixes ps) peers r ports).2),
          WellFormed x := by
        intro x hx
        simp only [List.mem_append] at hx hr hfilter
        rcases hx with (hx | hx) | hx | hx
        · exact hfilter x (.inl hx)
        · exact hr x (.inl hx)
        · exact hfilter x (.inr hx)
        · exact hr x (.inr hx)
      obtain ⟨hrest, hdeny⟩ := ih (fun r' hr' => hrs r' (.tail _ hr')) h hmore
      exact ⟨hrest, hdeny⟩

theorem compile_wellFormed (h : compile doc self peers = .ok filter) :
    (∀ x ∈ filter.inbound ++ filter.outbound, WellFormed x) ∧ filter.defaultDeny = true := by
  obtain ⟨hdoc, hrules⟩ := compileRules_of_compile h
  exact compileRules_wellFormed (Document.validate_rules hdoc) hrules nofun

/-- Whether a selector names one address of a device: a literal prefix by containing it, `*` and a
tag by picking the device. -/
def namesAddress (d : Device) (a : Addr) (s : Selector) : Bool :=
  match Selector.literal? s with
  | some p => p.contains a
  | none => d.matches s

structure OwnAddresses (devices : List Device) : Prop where
  single : ∀ d ∈ devices, ∀ p ∈ d.addresses, p = Prefix.single p.addr
  own : ∀ d ∈ devices, ∀ d' ∈ devices, ∀ p ∈ d.addresses, p ∈ d'.addresses → d = d'

def Rule.bySibling (r : Rule) (s d : Device) (a b : Addr) : Bool :=
  matchesAny s r.src && !r.src.any (namesAddress s a) && r.dst.any (namesAddress d b)

def Rule.toSibling (r : Rule) (s d : Device) (a b : Addr) : Bool :=
  r.src.any (namesAddress s a) && matchesAny d r.dst && !r.dst.any (namesAddress d b)

def Mirrored (doc : Document) (s d : Device) (a b : Addr) (t : Traffic) : Prop :=
  (∃ r ∈ doc.rules, r.grants t = true ∧ r.src.any (namesAddress s a) = true ∧
      r.dst.any (namesAddress d b) = true) ∨
    ((∃ r ∈ doc.rules, r.grants t = true ∧ r.bySibling s d a b = true) ↔
      ∃ r ∈ doc.rules, r.grants t = true ∧ r.toSibling s d a b = true)

theorem resolvesTo_own {devices : List Device} (hown : OwnAddresses devices) (hd : d ∈ devices)
    (ha : Prefix.single a ∈ d.addresses) (s : Selector) :
    resolvesTo devices a s = namesAddress d a s := by
  unfold resolvesTo contribution namesAddress
  cases hlit : Selector.literal? s with
  | some p => simp
  | none =>
    rw [Bool.eq_iff_iff, any_eq_true]
    constructor
    · rintro ⟨p, hp, hpa⟩
      obtain ⟨d', hd', hp⟩ := List.mem_flatMap.1 hp
      split at hp
      · rename_i hmatch
        -- The address is single-host, so it is `a`, and only `d` has that.
        have hsingle := hown.single d' hd' p hp
        rw [hsingle, Prefix.contains_single] at hpa
        rw [hsingle, hpa] at hp
        exact hown.own d' hd' d hd _ hp ha ▸ hmatch
      · cases hp
    · intro hmatch
      refine ⟨Prefix.single a, List.mem_flatMap.2 ⟨d, hd, ?_⟩, ?_⟩
      · rw [if_pos hmatch]
        exact ha
      · exact (Prefix.contains_single a a).2 rfl

theorem overlaps_single {p : Prefix} (h : p.contains a = true) :
    overlaps p (Prefix.single a) = true := by
  have hlen : p.addr.bitLen = a.bitLen := by
    have hfam := Prefix.is4_of_contains h
    cases hp : p.addr <;> cases a <;> simp_all [Addr.is4, Addr.bitLen]
  have hmin : min p.bits (Prefix.single a).bits = p.bits := by
    have hvalid := p.valid
    simp only [Prefix.single]
    omega
  rw [overlaps, hmin]
  exact h

theorem matches_of_namesAddress (ha : Prefix.single a ∈ d.addresses) {s : Selector}
    (h : namesAddress d a s = true) : d.matches s = true := by
  unfold namesAddress Selector.literal? at h
  cases hread : Selector.read s with
  | literal p =>
    simp only [hread] at h
    unfold Device.matches
    simp only [hread]
    exact any_eq_true.2 ⟨_, ha, overlaps_single h⟩
  | everything | tag name | unreadable => simpa only [hread] using h

theorem any_namesAddress_matches (ha : Prefix.single a ∈ d.addresses) (selectors : List Selector)
    (h : selectors.any (namesAddress d a) = true) : matchesAny d selectors = true := by
  obtain ⟨s, hs, hnames⟩ := any_eq_true.1 h
  exact any_eq_true.2 ⟨s, hs, matches_of_namesAddress ha hnames⟩

section Halves

variable {doc : Document} {devices : List Device} {s d : Device} {a b : Addr}
  (hown : OwnAddresses devices) (hs : s ∈ devices) (hd : d ∈ devices)
  (ha : Prefix.single a ∈ s.addresses) (hb : Prefix.single b ∈ d.addresses)

theorem holds_of_mem {d : Device} {b : Addr} (hb : Prefix.single b ∈ d.addresses) :
    d.holds b = true :=
  any_eq_true.2 ⟨_, hb, (Prefix.contains_single b b).2 rfl⟩

include hown hd ha hb

theorem outbound_permits {filter : Wire.PacketFilter} (h : compile doc s devices = .ok filter)
    (t : Traffic) :
    permits filter.outbound a b t = true ↔
      (∃ r ∈ doc.rules, r.grants t = true ∧ r.src.any (namesAddress s a) = true ∧
          r.dst.any (namesAddress d b) = true) ∨
        ∃ r ∈ doc.rules, r.grants t = true ∧ r.bySibling s d a b = true := by
  rw [(compile_permits h a b t).2, holds_of_mem ha, Bool.true_and, any_eq_true,
    ← exists_or]
  refine exists_congr fun r => ?_
  rw [← and_or_left, Rule.letsOut, Rule.bySibling,
    funext fun sel => resolvesTo_own hown hd hb sel]
  refine and_congr_right fun _ => ?_
  have hpick := any_namesAddress_matches ha r.src
  cases hA : r.src.any (namesAddress s a) with
  | true => simp [hpick hA, and_comm]
  | false => simp [and_comm]

omit ha hb hd

include hs hb ha

theorem inbound_permits {filter : Wire.PacketFilter} (h : compile doc d devices = .ok filter)
    (t : Traffic) :
    permits filter.inbound a b t = true ↔
      (∃ r ∈ doc.rules, r.grants t = true ∧ r.src.any (namesAddress s a) = true ∧
          r.dst.any (namesAddress d b) = true) ∨
        ∃ r ∈ doc.rules, r.grants t = true ∧ r.toSibling s d a b = true := by
  rw [(compile_permits h a b t).1, holds_of_mem hb, Bool.true_and, any_eq_true,
    ← exists_or]
  refine exists_congr fun r => ?_
  rw [← and_or_left, Rule.lets, Rule.toSibling,
    funext fun sel => resolvesTo_own hown hs ha sel]
  refine and_congr_right fun _ => ?_
  have hpick := any_namesAddress_matches hb r.dst
  cases hB : r.dst.any (namesAddress d b) with
  | true => simp [hpick hB, and_comm]
  | false => simp [and_comm]

include hd

/-- The two halves agree on a packet exactly when no rule reaches one of its ends by a sibling of
the address it has there, unmatched at the other end. -/
theorem halves_agree_iff_mirrored {out in' : Wire.PacketFilter}
    (hout : compile doc s devices = .ok out) (hin : compile doc d devices = .ok in')
    (t : Traffic) :
    (permits out.outbound a b t = true ↔ permits in'.inbound a b t = true) ↔
      Mirrored doc s d a b t := by
  rw [outbound_permits hown hd ha hb hout t, inbound_permits hown hs ha hb hin t, Mirrored]
  have hcancel : ∀ p q r : Prop, ((p ∨ q) ↔ (p ∨ r)) ↔ (p ∨ (q ↔ r)) := by
    intro p q r
    by_cases hp : p
    · simp [hp]
    · simp [hp]
  exact hcancel _ _ _

end Halves

theorem toPrefix_compiles : toPrefix.validate = .ok () ∧
    (∃ out, compile toPrefix laptop [laptop, server] = .ok out) ∧
    ∃ in', compile toPrefix server [laptop, server] = .ok in' := by
  have hdoc : toPrefix.validate = .ok () := by decide +kernel
  have hlaptop : laptop.addresses ≠ [] := by decide
  have hserver : server.addresses ≠ [] := by decide
  exact ⟨hdoc, compile_ok hdoc hlaptop _, compile_ok hdoc hserver _⟩

theorem ownAddresses_laptop_server : OwnAddresses [laptop, server] :=
  ⟨by decide, by decide⟩

theorem halves_agree_between_v6_addresses :
    ∃ out in' : Wire.PacketFilter, compile toPrefix laptop [laptop, server] = .ok out ∧
      compile toPrefix server [laptop, server] = .ok in' ∧
      (permits out.outbound (.v6 0xfd010000000000000000000000000001)
          (.v6 0xfd000000000000000000000000000002) (.tcp 22) = true ↔
        permits in'.inbound (.v6 0xfd010000000000000000000000000001)
          (.v6 0xfd000000000000000000000000000002) (.tcp 22) = true) := by
  obtain ⟨-, ⟨out, hout⟩, in', hin⟩ := toPrefix_compiles
  refine ⟨out, in', hout, hin, (halves_agree_iff_mirrored ownAddresses_laptop_server (by decide)
    (by decide) (by decide) (by decide) hout hin (.tcp 22)).2 (.inl ?_)⟩
  exact ⟨_, .head _, by decide +kernel⟩

/-- No rule is about the IPv4 address of the server, yet the server's half lets it be reached: the
rule about its IPv6 address picks the whole device. -/
theorem receiver_wider_than_sender :
    ∃ out in' : Wire.PacketFilter, toPrefix.validate = .ok () ∧
      OwnAddresses [laptop, server] ∧
      compile toPrefix laptop [laptop, server] = .ok out ∧
      compile toPrefix server [laptop, server] = .ok in' ∧
      permits out.outbound (.v4 0x645a0001) (.v4 0x645a0002) (.tcp 22) = false ∧
      permits in'.inbound (.v4 0x645a0001) (.v4 0x645a0002) (.tcp 22) = true := by
  obtain ⟨hdoc, ⟨out, hout⟩, in', hin⟩ := toPrefix_compiles
  refine ⟨out, in', hdoc, ownAddresses_laptop_server, hout, hin, ?_, ?_⟩
  · rw [(compile_permits hout _ _ _).2]
    decide +kernel
  · rw [(compile_permits hin _ _ _).1]
    decide +kernel

end Meshp.Acl
