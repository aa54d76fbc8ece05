import Meshp.Acl.Meaning
import Meshp.Nftables.Apply

/-!
# A Policy from Document to Chain

The rendered chain of a compiled policy against the policy itself. Everything the
compiler writes the renderer reads, so a compiled filter always renders; and what
the chain then accepts is what the filter permits, packet by packet, with one
exception. The exception is ICMPv6 behind an extension header, which the policy
matches on the next header field of the fixed header.
-/

namespace Meshp.Nftables

open Acl (Traffic Protocol PortRange WellFormed permits permitsRule portsCover wordCovers)
open Base (bind_eq_ok map_eq_ok refuseIf_eq_ok mapError_eq_ok)
open Netip (parsePrefix)
open Netfilter
open Wire (FilterRule PacketFilter)

def trafficOf (p : Packet) : Traffic :=
  if p.l4proto = 6 then .tcp p.dport
  else if p.l4proto = 17 then .udp p.dport
  else if p.l4proto = (if p.src.is4 then 1 else 58) then .icmp
  else .other p.l4proto

def Behind (p : Packet) : Prop :=
  p.src.is4 = false ∧ p.l4proto = 58 ∧ p.extensions ≠ []

instance (p : Packet) : Decidable (Behind p) :=
  inferInstanceAs (Decidable (_ ∧ _ ∧ _))

def seenAs (p : Packet) : Traffic :=
  if Behind p then .other 58 else trafficOf p

def Undecided (p : Packet) : Prop :=
  p.ct = .new ∨ p.ct = .untracked

theorem parsePort_toString {n : Nat} (h1 : 1 ≤ n) (hn : n ≤ 65535) :
    parsePort (toString n) = .ok n := by
  rw [parsePort, Text.atoi_toString (by omega)]
  simp only
  rw [if_neg (by omega)]
  simp

theorem portOf_text {r : PortRange} (h : r.Valid) :
    ∃ ports, portOf r.text = .ok ports ∧ ∀ n, ports.contains n = r.contains n := by
  obtain ⟨h1, hle, hlast⟩ := h
  obtain ⟨first, last⟩ := r
  simp only at h1 hle hlast
  unfold PortRange.text
  by_cases heq : first = last
  · subst heq
    refine ⟨.one first, ?_, fun n => ?_⟩
    · rw [if_pos rfl, portOf, Text.cut_toString]
      simp only
      rw [parsePort_toString h1 hlast]
      rfl
    · rw [Ports.contains, PortRange.contains, Bool.eq_iff_iff]
      simp
      omega
  · refine ⟨.range first last, ?_, fun n => rfl⟩
    rw [if_neg heq, portOf, Text.cut_range]
    have hfirst : first ≤ 65535 := Nat.le_trans hle hlast
    have hone : 1 ≤ last := Nat.le_trans h1 hle
    refine bind_eq_ok.2 ⟨first, mapError_eq_ok.2 (parsePort_toString h1 hfirst), ?_⟩
    refine bind_eq_ok.2 ⟨last, mapError_eq_ok.2 (parsePort_toString hone hlast), ?_⟩
    exact bind_eq_ok.2 ⟨(), refuseIf_eq_ok.2 (by omega), rfl⟩

theorem portsAdmit_text {ranges : List PortRange} (hvalid : ∀ x ∈ ranges, x.Valid) (n : Nat) :
    portsAdmit (ranges.map PortRange.text) n = (ranges.isEmpty || ranges.any (·.contains n)) := by
  have hany : (ranges.any fun x => (portOf x.text).toOption.any (·.contains n)) =
      ranges.any (·.contains n) := by
    refine Base.any_congr_mem fun x hx => ?_
    obtain ⟨ports, hports, hcontains⟩ := portOf_text (hvalid x hx)
    rw [hports]
    exact hcontains n
  simp only [portsAdmit, List.isEmpty_map, List.any_map, Function.comp_def, hany]

theorem portsCover_ranges {ranges : List PortRange} (hvalid : ∀ x ∈ ranges, x.Valid)
    (t : Traffic) :
    portsCover (ranges.map PortRange.text) t =
      (ranges.isEmpty || t.port?.all fun n => ranges.any (·.contains n)) := by
  have hany : ∀ n, (ranges.any fun x => (Acl.parsePortRange x.text).toOption.any (·.contains n)) =
      ranges.any (·.contains n) := by
    intro n
    refine Base.any_congr_mem fun x hx => ?_
    rw [Acl.parsePortRange_text (hvalid x hx)]
    rfl
  simp only [portsCover, List.isEmpty_map, List.any_map, Function.comp_def, hany]

theorem protocolOf_word (proto : Protocol) : protocolOf proto.word = .ok proto := by
  cases proto <;> rfl

theorem header_icmp (p : Packet) :
    (p.header == if p.src.is4 then 1 else 58) = true ↔
      p.l4proto = (if p.src.is4 then 1 else 58) ∧ ¬Behind p := by
  rw [beq_iff_eq]
  cases hext : p.extensions with
  | nil => simp [Packet.header, Behind, hext]
  | cons e es =>
    have h6 : p.src.is4 = false := by
      by_contra h4
      rw [Bool.not_eq_false] at h4
      rw [p.bare h4] at hext
      cases hext
    have hne : e.number ≠ 58 := by cases e <;> decide
    simp [Packet.header, Behind, hext, h6, hne]

variable {rule : FilterRule}

theorem protocolAdmits_eq (h : WellFormed rule) (p : Packet) :
    protocolAdmits rule p = (wordCovers rule.protocol (seenAs p) && portsCover rule.ports (seenAs p)) := by
  obtain ⟨proto, ranges, hword, hports, hvalid, hproto⟩ := h.body
  have hnone : proto ≠ .tcp → proto ≠ .udp → ranges = [] := by
    intro h1 h2
    by_contra hne
    exact (hproto hne).elim h1 h2
  rw [protocolAdmits, hword, protocolOf_word, hports, Acl.wordCovers_word,
    portsCover_ranges hvalid]
  cases proto with
  | any => simp [hnone, Protocol.covers]
  | tcp =>
    simp only [portsAdmit_text hvalid]
    by_cases h6 : p.l4proto = 6
    · simp [seenAs, Behind, trafficOf, h6, Protocol.covers, Traffic.port?]
    · have hseen : Protocol.tcp.covers (seenAs p) = false := by
        unfold seenAs trafficOf
        simp only [if_neg h6]
        split_ifs <;> rfl
      simp [h6, hseen]
  | udp =>
    simp only [portsAdmit_text hvalid]
    by_cases h17 : p.l4proto = 17
    · simp [seenAs, Behind, trafficOf, h17, Protocol.covers, Traffic.port?]
    · have hseen : Protocol.udp.covers (seenAs p) = false := by
        unfold seenAs trafficOf
        simp only [if_neg h17]
        split_ifs <;> rfl
      simp [h17, hseen]
  | icmp =>
    rw [hnone (by decide) (by decide)]
    simp only [List.isEmpty_nil, Bool.true_or, Bool.and_true]
    rw [Bool.eq_iff_iff, header_icmp]
    by_cases hb : Behind p
    · simp [seenAs, hb, Protocol.covers]
    · by_cases hicmp : p.l4proto = if p.src.is4 then 1 else 58
      · have h6 : p.l4proto ≠ 6 := by rw [hicmp]; split <;> decide
        have h17 : p.l4proto ≠ 17 := by rw [hicmp]; split <;> decide
        have htraffic : trafficOf p = .icmp := by
          rw [trafficOf, if_neg h6, if_neg h17, if_pos hicmp]
        simp [seenAs, hb, htraffic, hicmp, Protocol.covers]
      · have htraffic : Protocol.icmp.covers (trafficOf p) = false := by
          unfold trafficOf
          simp only [if_neg hicmp]
          split_ifs <;> rfl
        simp [seenAs, hb, htraffic, hicmp]

theorem admits_eq (h : WellFormed rule) (p : Packet) :
    admits p rule = permitsRule p.src p.dst (seenAs p) rule := by
  rw [admits, protocolAdmits_eq h, permitsRule, h.allow, Bool.true_and, ← Bool.and_assoc]
  rfl

theorem byFamily_ok {raws : List String} (h : ∀ raw ∈ raws, ∃ p, parsePrefix raw = some p) :
    ∃ f, byFamily raws = .ok f := by
  obtain ⟨ps, hps⟩ : ∃ ps, raws.mapM readPrefix = .ok ps := by
    refine Base.mapM_ok fun raw hraw => ?_
    obtain ⟨p, hp⟩ := h raw hraw
    exact ⟨p, by rw [readPrefix, hp]⟩
  exact ⟨_, bind_eq_ok.2 ⟨ps, hps, rfl⟩⟩

theorem portsOf_ok (h : WellFormed rule) :
    ∃ proto ports, protocolOf rule.protocol = .ok proto ∧ portsOf rule.ports proto = .ok ports := by
  obtain ⟨proto, ranges, hword, hports, hvalid, hproto⟩ := h.body
  obtain ⟨ports, hread⟩ : ∃ ports, rule.ports.mapM portOf = .ok ports := by
    refine Base.mapM_ok fun spec hspec => ?_
    rw [hports] at hspec
    obtain ⟨x, hx, rfl⟩ := List.mem_map.1 hspec
    obtain ⟨ports, hok, -⟩ := portOf_text (hvalid x hx)
    exact ⟨ports, hok⟩
  refine ⟨proto, ports, by rw [hword, protocolOf_word], bind_eq_ok.2 ⟨(), ?_, hread⟩⟩
  rw [refuseIf_eq_ok]
  rintro ⟨hne, htcp, hudp⟩
  have hranges : ranges ≠ [] := fun hnil => hne (by rw [hports, hnil]; rfl)
  exact (hproto hranges).elim htcp hudp

theorem renderRule_ok (h : WellFormed rule) :
    ∃ conds, renderRule rule = .ok conds := by
  obtain ⟨src, hsrc⟩ := byFamily_ok h.src
  obtain ⟨dst, hdst⟩ := byFamily_ok h.dst
  obtain ⟨proto, ports, hproto, hports⟩ := portsOf_ok h
  refine ⟨[.ip, .ip6].flatMap (familyConds src dst proto ports),
    bind_eq_ok.2 ⟨(), refuseIf_eq_ok.2 (by simp [h.allow]), ?_⟩⟩
  refine bind_eq_ok.2 ⟨src, mapError_eq_ok.2 hsrc, bind_eq_ok.2 ⟨dst, mapError_eq_ok.2 hdst, ?_⟩⟩
  exact bind_eq_ok.2 ⟨proto, hproto, bind_eq_ok.2 ⟨ports, hports, rfl⟩⟩

theorem renderRules_ok {rules : List FilterRule} (h : ∀ r ∈ rules, WellFormed r) (chain : String)
    (i : Nat) : ∃ conds, renderRules chain i rules = .ok conds := by
  induction rules generalizing i with
  | nil => exact ⟨[], rfl⟩
  | cons rule rules ih =>
    obtain ⟨first, hfirst⟩ := renderRule_ok (h rule (.head _))
    obtain ⟨rest, hrest⟩ := ih (fun r hr => h r (.tail _ hr)) (i + 1)
    exact ⟨first ++ rest, bind_eq_ok.2 ⟨first, mapError_eq_ok.2 hfirst,
      bind_eq_ok.2 ⟨rest, hrest, rfl⟩⟩⟩

theorem render_compiled {filter : PacketFilter}
    (hwf : ∀ x ∈ filter.inbound ++ filter.outbound, WellFormed x) (iface : String)
    (hiface : interfaceNameOk iface = true) :
    ∃ script t, render iface (some filter) = .ok script ∧ filterTable iface filter = .ok t ∧
      load [] script = some [t] := by
  obtain ⟨inbound, hin⟩ :=
    renderRules_ok (fun r hr => hwf r (List.mem_append_left _ hr)) "input" 0
  obtain ⟨outbound, hout⟩ :=
    renderRules_ok (fun r hr => hwf r (List.mem_append_right _ hr)) "output" 0
  obtain ⟨t, ht⟩ : ∃ t, filterTable iface filter = .ok t :=
    ⟨_, bind_eq_ok.2 ⟨inbound, hin, bind_eq_ok.2 ⟨outbound, hout, rfl⟩⟩⟩
  have htables : policyTables iface (some filter) = .ok [t] := map_eq_ok.2 ⟨t, ht, rfl⟩
  obtain ⟨hone, hacts⟩ := policyTables_acts htables
  exact ⟨_, t, render_eq.2 ⟨hiface, [t], htables, rfl⟩, ht, load_tables [] tableKey hone hacts⟩

theorem judged_undecided {rules : List FilterRule} (h : ∀ r ∈ rules, WellFormed r) {p : Packet}
    (hp : Undecided p) : judged rules true p = permits rules p.src p.dst (seenAs p) := by
  have hany : rules.any (admits p) = permits rules p.src p.dst (seenAs p) :=
    Base.any_congr_mem fun r hr => admits_eq (h r hr) p
  rcases hp with hct | hct <;> simp only [judged, hct, hany, Bool.not_true, Bool.or_false]

def AnyToo (rules : List Acl.Rule) (lets : Acl.Rule → Traffic → Bool) : Prop :=
  (∃ r ∈ rules, lets r .icmp = true) → ∃ r ∈ rules, r.canonicalProtocol = .any ∧ lets r .icmp = true

theorem grants_other (r : Acl.Rule) (n : Nat) :
    r.grants (.other n) = true ↔ r.canonicalProtocol = .any ∧ r.grants .icmp = true := by
  simp only [Acl.Rule.grants, portsCover, Traffic.port?, Option.all_none, Bool.or_true,
    Bool.and_true]
  cases r.canonicalProtocol <;> simp [Protocol.covers]

theorem trafficOf_behind {p : Packet} (h : Behind p) : trafficOf p = .icmp := by
  obtain ⟨h6, hproto, -⟩ := h
  simp [trafficOf, h6, hproto]

theorem seenAs_permits_iff {rules : List Acl.Rule} {lets : Acl.Rule → Traffic → Bool}
    {holds : Bool} {picks : Acl.Rule → Bool} (hlets : ∀ r t, lets r t = (picks r && r.grants t))
    (p : Packet) :
    (((holds && rules.any (lets · (seenAs p))) = true) ↔
        ((holds && rules.any (lets · (trafficOf p))) = true)) ↔
      (Behind p → holds = true → AnyToo rules lets) := by
  by_cases hb : Behind p
  · have hother : (∃ r ∈ rules, lets r (.other 58) = true) ↔
        ∃ r ∈ rules, r.canonicalProtocol = .any ∧ lets r .icmp = true := by
      refine exists_congr fun r => and_congr_right fun _ => ?_
      rw [hlets, hlets, Bool.and_eq_true, Bool.and_eq_true, grants_other]
      exact and_left_comm
    have hicmp : (∃ r ∈ rules, r.canonicalProtocol = .any ∧ lets r .icmp = true) →
        ∃ r ∈ rules, lets r .icmp = true :=
      fun ⟨r, hr, _, h⟩ => ⟨r, hr, h⟩
    cases holds with
    | false => simp
    | true =>
      simp only [seenAs, hb, if_true, trafficOf_behind hb, Bool.true_and, List.any_eq_true,
        hother, AnyToo, true_implies]
      exact ⟨fun h => h.2, fun h => ⟨hicmp, h⟩⟩
  · simp [seenAs, hb]

/-- The rendered chains of a compiled policy accept what the policy permits, except for ICMPv6
behind an extension header that only rules about ICMP let through. -/
theorem rendered_accepts_iff {doc : Acl.Document} {self : Acl.Device} {peers : List Acl.Device}
    {filter : PacketFilter} (h : Acl.compile doc self peers = .ok filter) (iface : String)
    (hiface : interfaceNameOk iface = true) :
    ∃ script rs, render iface (some filter) = .ok script ∧ load [] script = some rs ∧
      (∀ p, Undecided p → p.iif = iface →
        ((rs.passes .input p = true ↔
            permits filter.inbound p.src p.dst (trafficOf p) = true) ↔
          (Behind p → self.holds p.dst = true →
            AnyToo doc.rules fun r t => r.lets self peers p.src t))) ∧
      ∀ p, Undecided p → p.oif = iface →
        ((rs.passes .output p = true ↔
            permits filter.outbound p.src p.dst (trafficOf p) = true) ↔
          (Behind p → self.holds p.src = true →
            AnyToo doc.rules fun r t => r.letsOut self peers p.dst t)) := by
  obtain ⟨hwf, hdeny⟩ := Acl.compile_wellFormed h
  obtain ⟨script, t, hrender, htable, hload⟩ := render_compiled hwf iface hiface
  refine ⟨script, [t], hrender, hload, fun p hp hif => ?_, fun p hp hif => ?_⟩
  · have hpass : Ruleset.passes [t] .input p =
        permits filter.inbound p.src p.dst (seenAs p) := by
      simp [Ruleset.passes, filterTable_passes htable, hif, hdeny,
        judged_undecided (fun r hr => hwf r (List.mem_append_left _ hr)) hp]
    rw [hpass, (Acl.compile_permits h _ _ _).1, (Acl.compile_permits h _ _ _).1]
    exact seenAs_permits_iff (fun r t => rfl) p
  · have hpass : Ruleset.passes [t] .output p =
        permits filter.outbound p.src p.dst (seenAs p) := by
      simp [Ruleset.passes, filterTable_passes htable, hif, hdeny,
        judged_undecided (fun r hr => hwf r (List.mem_append_right _ hr)) hp]
    rw [hpass, (Acl.compile_permits h _ _ _).2, (Acl.compile_permits h _ _ _).2]
    exact seenAs_permits_iff (fun r t => rfl) p

def pingable : Acl.Document :=
  { version := 1, rules := [{ src := ["*"], dst := ["*"], protocol := "icmp" }] }

def pingBehindOptions : Packet where
  iif := "meshp0"
  oif := ""
  src := .v6 0xfd010000000000000000000000000001
  dst := .v6 0xfd000000000000000000000000000002
  oneFamily := rfl
  extensions := [.destination]
  bare := by decide
  l4proto := 58
  dport := 0
  ct := .new

theorem pingable_compiles :
    ∃ filter, Acl.compile pingable Acl.server [Acl.laptop, Acl.server] = .ok filter :=
  have hserver : Acl.server.addresses ≠ [] := by decide
  Acl.compile_ok (by decide +kernel) hserver _

theorem rendered_accepts_iff_pingable :
    ∃ filter, Acl.compile pingable Acl.server [Acl.laptop, Acl.server] = .ok filter ∧
      ∃ script rs, render "meshp0" (some filter) = .ok script ∧ load [] script = some rs ∧
        ∀ p, Undecided p → p.iif = "meshp0" → ¬Behind p →
          (rs.passes .input p = true ↔
            permits filter.inbound p.src p.dst (trafficOf p) = true) := by
  obtain ⟨filter, hfilter⟩ := pingable_compiles
  obtain ⟨script, rs, hrender, hload, hin, -⟩ :=
    rendered_accepts_iff hfilter "meshp0" (by decide)
  exact ⟨filter, hfilter, script, rs, hrender, hload, fun p hp hif hb =>
    (hin p hp hif).2 fun h => absurd h hb⟩

/-- The policy permits the ping and the chain drops it. -/
theorem ping_behind_options_dropped :
    ∃ filter script rs, Acl.compile pingable Acl.server [Acl.laptop, Acl.server] = .ok filter ∧
      render "meshp0" (some filter) = .ok script ∧ load [] script = some rs ∧
      permits filter.inbound pingBehindOptions.src pingBehindOptions.dst
        (trafficOf pingBehindOptions) = true ∧
      rs.passes .input pingBehindOptions = false := by
  obtain ⟨filter, hfilter⟩ := pingable_compiles
  obtain ⟨hwf, hdeny⟩ := Acl.compile_wellFormed hfilter
  obtain ⟨script, t, hrender, htable, hload⟩ := render_compiled hwf "meshp0" (by decide)
  refine ⟨filter, script, [t], hfilter, hrender, hload, ?_, ?_⟩
  · rw [(Acl.compile_permits hfilter _ _ _).1]
    decide +kernel
  · have hseen : permits filter.inbound pingBehindOptions.src pingBehindOptions.dst
        (seenAs pingBehindOptions) = false := by
      rw [(Acl.compile_permits hfilter _ _ _).1]
      decide +kernel
    simp only [Ruleset.passes, List.all_cons, List.all_nil, Bool.and_true,
      filterTable_passes htable, hdeny, judged_undecided (fun r hr =>
        hwf r (List.mem_append_left _ hr)) (.inl rfl : Undecided pingBehindOptions), hseen]
    rfl

end Meshp.Nftables
