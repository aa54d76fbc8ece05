import Meshp.Base.Calls
import Meshp.Netfilter.Chain

/-!
# The Default Route

A device sends everything through the tunnel except the tunnel's own packets,
which carry a mark. Two rules a family do it, ahead of the kernel's own: the main
table without its default route, then, for packets that are not marked, a table
whose only route is the tunnel.
-/

namespace Meshp.Wglink

open Base (Calls)
open Base.Calls (each ensures_all_done ensures_bind ensures_each_done ensures_make ensures_mono
  ensures_of_only ensures_seq exec exec_of_ensures make only_all)
open Netfilter (IpFamily)
open Netip (Addr Prefix)

structure Packet where
  dst : Addr
  mark : UInt32

structure Route where
  table : Nat
  protocol : Nat
  dst : Prefix
  outIface : Nat
  deriving DecidableEq

/-- A routing rule. The mark of a packet is compared only with one that is not zero. -/
structure Rule where
  priority : Nat
  family : IpFamily
  invert : Bool := false
  fwMark : UInt32 := 0
  table : Nat
  suppressPrefixLen : Option Nat := none
  deriving DecidableEq

structure Kernel where
  rules : List Rule
  routes : List Route

def Route.reaches (r : Route) (table : Nat) (dst : Addr) : Bool :=
  r.table = table && r.dst.contains dst

def lookup (routes : List Route) (table : Nat) (dst : Addr) : Option Route :=
  (routes.filter (·.reaches table dst)).argmax (·.dst.bits)

def Rule.takes (r : Rule) (p : Packet) : Bool :=
  r.family.has p.dst && xor r.invert (r.fwMark = 0 || r.fwMark = p.mark)

def Rule.consult (r : Rule) (routes : List Route) (p : Packet) : Option Route :=
  if r.takes p then
    (lookup routes r.table p.dst).filter fun found => r.suppressPrefixLen.all (· < found.dst.bits)
  else none

def Kernel.route (k : Kernel) (p : Packet) : Option Route :=
  k.rules.findSome? (·.consult k.routes p)

inductive Request
  | dial
  | listRoutes
  | addRule (r : Rule)
  | deleteRule (r : Rule)
  | addRoute (r : Route)
  | deleteRoute (r : Route)

/-- What a request does that the kernel does not refuse. `EEXIST`, `ENOENT` and `ESRCH` are no
failures: what is there is not added again, and what is not there need not be deleted. A rule comes
after those of its priority, and a table has one route to a destination. -/
def act : Request → Kernel → Kernel
  | .addRule r, k =>
    if r ∈ k.rules then k
    else { k with rules := k.rules.takeWhile (·.priority ≤ r.priority) ++
      r :: k.rules.dropWhile (·.priority ≤ r.priority) }
  | .deleteRule r, k => { k with rules := k.rules.erase r }
  | .addRoute r, k =>
    if (r.table, r.dst) ∈ k.routes.map (fun r => (r.table, r.dst)) then k
    else { k with routes := k.routes ++ [r] }
  | .deleteRoute r, k => { k with routes := k.routes.erase r }
  | .dial, k => k
  | .listRoutes, k => k

def serve (ok : Request → Bool) (p : Calls Request Bool) (k : Kernel) : Bool × Kernel :=
  exec (fun c k => some (act c k)) ok p k

def mainTable : Nat := 254
def egressTable : Nat := 0x6d657368
def egressMark : UInt32 := 0x6d657368
def routeProtocol : Nat := 61
def suppressPriority : Nat := 32764
def markPriority : Nat := 32765

def mainRule (family : IpFamily) : Rule :=
  { priority := 32766, family, table := mainTable }

def suppressRule (family : IpFamily) : Rule :=
  { priority := suppressPriority, family, table := mainTable, suppressPrefixLen := some 0 }

def markRule (family : IpFamily) (mark : UInt32) : Rule :=
  { priority := markPriority, family, invert := true, fwMark := mark, table := egressTable }

def families : List IpFamily := [.ip, .ip6]

/-- `0.0.0.0/0` and `::/0`. -/
def anywhere : IpFamily → Prefix
  | .ip => ⟨.v4 0, 0, Nat.zero_le _⟩
  | .ip6 => ⟨.v6 0, 0, Nat.zero_le _⟩

/-- The route `addTableDefault` adds. -/
def tableDefault (index : Nat) (family : IpFamily) : Route :=
  ⟨egressTable, routeProtocol, anywhere family, index⟩

def claimRequests (index : Nat) (mark : UInt32) : List Request :=
  .dial :: families.map (.addRoute <| tableDefault index ·) ++
    families.flatMap fun family => [.addRule (suppressRule family), .addRule (markRule family mark)]

/-- `ClaimDefaultRoute`, given the indices of the interfaces. -/
def claimDefaultRoute (links : String → Option Nat) (iface : String) (mark : UInt32) :
    Calls Request Bool :=
  match links iface with
  | none => pure false
  | some index => Calls.all (claimRequests index mark)

/-- `flushEgressTable`, given the routes the kernel lists. -/
def flushEgressTable (listed : List Route) : Calls Request Bool := do
  if ← make .listRoutes then
    each ((listed.filter fun r => r.table = egressTable ∧ r.protocol = routeProtocol).map
      .deleteRoute)
  else pure false

def releaseRules (mark : UInt32) : List Request :=
  families.flatMap fun family => [.deleteRule (markRule family mark),
    .deleteRule (suppressRule family)]

/-- `ReleaseDefaultRoute`. Every step is tried. -/
def releaseDefaultRoute (mark : UInt32) (listed : List Route) : Calls Request Bool := do
  if ← make .dial then
    let ruled ← each (releaseRules mark)
    let flushed ← flushEgressTable listed
    pure (ruled && flushed)
  else pure false

structure Unclaimed (k : Kernel) : Prop where
  rules : k.rules = families.map mainRule
  empty : ∀ r ∈ k.routes, r.table ≠ egressTable

def Kernel.claimed (k : Kernel) (index : Nat) (mark : UInt32) : Kernel where
  rules := families.map suppressRule ++ families.map (markRule · mark) ++ families.map mainRule
  routes := k.routes ++ families.map (tableDefault index)

/-- A packet follows the longest of the main table's routes to it, and leaves by `out` if none of
them is more than a default route. -/
def Diverted (k k' : Kernel) (out : Option Nat) (p : Packet) : Prop :=
  ((∃ r ∈ k.routes, r.reaches mainTable p.dst = true ∧ r.dst.bits ≠ 0) →
    ∃ r ∈ k.routes, r.reaches mainTable p.dst = true ∧ r.dst.bits ≠ 0 ∧
      (∀ s ∈ k.routes, s.reaches mainTable p.dst = true → s.dst.bits ≤ r.dst.bits) ∧
      k'.route p = some r) ∧
  ((∀ r ∈ k.routes, r.reaches mainTable p.dst = true → r.dst.bits = 0) →
    ∃ r, k'.route p = some r ∧ some r.outIface = out)

variable {k : Kernel} {p : Packet} {index : Nat} {mark : UInt32} {routes : List Route}

theorem lookup_mem {table : Nat} {dst : Addr} {r : Route} (h : lookup routes table dst = some r) :
    (r ∈ routes ∧ r.reaches table dst = true) ∧
      ∀ s ∈ routes, s.reaches table dst = true → s.dst.bits ≤ r.dst.bits := by
  refine ⟨List.mem_filter.1 (List.argmax_mem h), fun s hs hdst => ?_⟩
  exact List.le_of_mem_argmax (f := fun r : Route => r.dst.bits) (List.mem_filter.2 ⟨hs, hdst⟩) h

theorem lookup_main (routes : List Route) (index : Nat) (dst : Addr) :
    lookup (routes ++ families.map (tableDefault index)) mainTable dst =
      lookup routes mainTable dst := by
  simp [lookup, families, tableDefault, Route.reaches, mainTable, egressTable]

theorem contains_anywhere (family : IpFamily) (dst : Addr) :
    (anywhere family).contains dst = family.has dst := by
  cases family <;> cases dst <;>
    simp [anywhere, Prefix.contains, Addr.agree, IpFamily.has, Addr.is4, BitVec.ushiftRight_eq_zero]

theorem lookup_egress (hempty : ∀ r ∈ routes, r.table ≠ egressTable) (index : Nat) (dst : Addr) :
    ∃ family, lookup (routes ++ families.map (tableDefault index)) egressTable dst =
      some (tableDefault index family) := by
  have hnone : routes.filter (·.reaches egressTable dst) = [] :=
    List.filter_eq_nil_iff.2 fun r hr => by simp [Route.reaches, hempty r hr]
  rw [lookup, List.filter_append, hnone, List.nil_append]
  cases hdst : dst.is4 with
  | true => exact ⟨.ip, by
      simp [families, tableDefault, Route.reaches, contains_anywhere, IpFamily.has, hdst]⟩
  | false => exact ⟨.ip6, by
      simp [families, tableDefault, Route.reaches, contains_anywhere, IpFamily.has, hdst]⟩

theorem findSome_families {rule : IpFamily → Rule} {found : Option Route}
    (h : ∀ family, (rule family).consult routes p = if family.has p.dst then found else none) :
    (families.map rule).findSome? (·.consult routes p) = found := by
  cases hdst : p.dst.is4 <;>
    simp [families, h, IpFamily.has, hdst, List.findSome?_cons] <;> cases found <;> rfl

theorem consult_main (routes : List Route) (family : IpFamily) : (mainRule family).consult routes p =
    if family.has p.dst then lookup routes mainTable p.dst else none := by
  cases h : lookup routes mainTable p.dst <;> simp [mainRule, Rule.consult, Rule.takes, Option.filter, h]

theorem consult_suppress (routes : List Route) (family : IpFamily) :
    (suppressRule family).consult routes p = if family.has p.dst then
      (lookup routes mainTable p.dst).filter (0 < ·.dst.bits) else none := by
  simp [suppressRule, Rule.consult, Rule.takes]

theorem consult_mark (hmark : mark ≠ 0) (routes : List Route) (family : IpFamily) :
    (markRule family mark).consult routes p = if family.has p.dst then
      (if p.mark = mark then none else lookup routes egressTable p.dst) else none := by
  by_cases h : p.mark = mark
  · simp [markRule, Rule.consult, Rule.takes, h]
  · cases hr : lookup routes egressTable p.dst <;>
      simp [markRule, Rule.consult, Rule.takes, Option.filter, h, Ne.symm h, hmark, hr]

theorem route_unclaimed (h : Unclaimed k) : k.route p = lookup k.routes mainTable p.dst := by
  rw [Kernel.route, h.rules]
  exact findSome_families (consult_main k.routes)

theorem route_claimed (hmark : mark ≠ 0) (k : Kernel) (index : Nat) (p : Packet) :
    (k.claimed index mark).route p =
      ((lookup k.routes mainTable p.dst).filter (0 < ·.dst.bits)).or
        ((if p.mark = mark then none else
          lookup (k.routes ++ families.map (tableDefault index)) egressTable p.dst).or
        (lookup k.routes mainTable p.dst)) := by
  simp only [Kernel.route, Kernel.claimed, List.findSome?_append]
  rw [findSome_families (consult_suppress _), findSome_families (consult_mark hmark _),
    findSome_families (consult_main _), lookup_main, Option.or_assoc]

theorem route_unmarked (hmark : mark ≠ 0) (h : Unclaimed k) (hp : p.mark ≠ mark) :
    Diverted k (k.claimed index mark) (some index) p := by
  rw [Diverted, route_claimed hmark, if_neg hp]
  constructor
  · rintro ⟨s, hs, hdst, hbits⟩
    cases hr : lookup k.routes mainTable p.dst with
    | none =>
      rw [lookup, List.argmax_eq_none] at hr
      exact absurd (List.mem_filter.2 ⟨hs, hdst⟩) (hr ▸ List.not_mem_nil)
    | some r =>
      obtain ⟨⟨hmem, hreaches⟩, hlongest⟩ := lookup_mem hr
      have hpos : 0 < r.dst.bits := by
        have := hlongest s hs hdst
        omega
      exact ⟨r, hmem, hreaches, by omega, hlongest, by simp [Option.filter, hpos]⟩
  · intro hdefault
    have hsuppressed : (lookup k.routes mainTable p.dst).filter (0 < ·.dst.bits) = none := by
      rw [Option.filter_eq_none_iff]
      intro r hr
      obtain ⟨⟨hmem, hdst⟩, -⟩ := lookup_mem hr
      simp [hdefault r hmem hdst]
    obtain ⟨family, htunnel⟩ := lookup_egress h.empty index p.dst
    rw [hsuppressed, htunnel]
    exact ⟨_, rfl, rfl⟩

theorem route_marked (hmark : mark ≠ 0) (h : Unclaimed k) (hp : p.mark = mark) :
    (k.claimed index mark).route p = k.route p := by
  rw [route_claimed hmark, if_pos hp, route_unclaimed h]
  cases lookup k.routes mainTable p.dst with
  | none => rfl
  | some r => cases h : decide (0 < r.dst.bits) <;> simp [Option.filter, h]

theorem act_addRoute (index : Nat) (family : IpFamily)
    (h : ∀ r ∈ k.routes, r.table = egressTable → r.dst ≠ anywhere family) :
    act (.addRoute (tableDefault index family)) k =
      { k with routes := k.routes ++ [tableDefault index family] } := by
  refine if_neg fun hmem => ?_
  obtain ⟨r, hr, heq⟩ := List.mem_map.1 hmem
  exact h r hr (congrArg Prod.fst heq) (congrArg Prod.snd heq)

theorem foldl_claim (h : Unclaimed k) (index : Nat) (mark : UInt32) :
    (claimRequests index mark).foldl (fun k c => act c k) k = k.claimed index mark := by
  obtain ⟨rules, routes⟩ := k
  obtain ⟨rfl, hempty⟩ := h
  have hother : ∀ r ∈ routes ++ [tableDefault index .ip], r.table = egressTable →
      r.dst ≠ anywhere .ip6 := by
    intro r hr htable
    rcases List.mem_append.1 hr with hr | hr
    · exact absurd htable (hempty r hr)
    · rw [List.mem_singleton.1 hr]
      exact of_decide_eq_true rfl
  -- The routes go into an empty table, so neither is there already.
  have hroutes : (Request.dial :: families.map (.addRoute <| tableDefault index ·)).foldl
      (fun k c => act c k) ⟨families.map mainRule, routes⟩ =
      ⟨families.map mainRule, routes ++ families.map (tableDefault index)⟩ := by
    change act (.addRoute (tableDefault index .ip6)) (act (.addRoute (tableDefault index .ip))
      ⟨families.map mainRule, routes⟩) = _
    rw [act_addRoute index .ip fun r hr htable => absurd htable (hempty r hr),
      act_addRoute index .ip6 hother, List.append_assoc]
    rfl
  rw [claimRequests, List.foldl_append, hroutes]
  simp [families, act, Kernel.claimed, markRule, suppressRule, mainRule, markPriority,
    suppressPriority]

theorem foldl_release (h : Unclaimed k) (index : Nat) (mark : UInt32) :
    (((k.claimed index mark).routes.filter fun r =>
      r.table = egressTable ∧ r.protocol = routeProtocol).map Request.deleteRoute).foldl
        (fun k c => act c k)
        ((releaseRules mark).foldl (fun k c => act c k) (k.claimed index mark)) = k := by
  obtain ⟨rules, routes⟩ := k
  obtain ⟨rfl, hempty⟩ := h
  have hrules : (releaseRules mark).foldl (fun k c => act c k)
      (Kernel.claimed ⟨families.map mainRule, routes⟩ index mark) =
      ⟨families.map mainRule, routes ++ families.map (tableDefault index)⟩ := by
    simp [releaseRules, families, act, Kernel.claimed, markRule, suppressRule, mainRule,
      markPriority, suppressPriority]
  have hnone : routes.filter (fun r => r.table = egressTable ∧ r.protocol = routeProtocol) = [] :=
    List.filter_eq_nil_iff.2 fun r hr => by simp [hempty r hr]
  have hnew : ∀ family, tableDefault index family ∉ routes := fun family hr => hempty _ hr rfl
  rw [hrules, Kernel.claimed, List.filter_append, hnone]
  change Kernel.mk _ (((routes ++ [tableDefault index .ip, tableDefault index .ip6]).erase
    (tableDefault index .ip)).erase (tableDefault index .ip6)) = _
  rw [List.erase_append_right _ (hnew _), List.erase_cons_head, List.erase_append_right _ (hnew _),
    List.erase_cons_head, List.append_nil]
  rfl

variable {ok : Request → Bool} {links : String → Option Nat} {iface : String}

theorem serve_claim (h : Unclaimed k)
    (hdone : (serve ok (claimDefaultRoute links iface mark) k).1 = true) :
    ∃ index, links iface = some index ∧
      (serve ok (claimDefaultRoute links iface mark) k).2 = k.claimed index mark := by
  unfold claimDefaultRoute at hdone ⊢
  cases hlink : links iface with
  | none =>
    rw [hlink] at hdone
    cases hdone
  | some index =>
    rw [hlink] at hdone
    refine ⟨index, rfl, ?_⟩
    rw [← foldl_claim h]
    exact exec_of_ensures (ensures_all_done fun _ _ => rfl) hdone

theorem serve_claim_again (hlink : links iface = some index) :
    (serve ok (claimDefaultRoute links iface mark) (k.claimed index mark)).2 =
      k.claimed index mark := by
  have hroute : ∀ family, family ∈ families →
      act (.addRoute (tableDefault index family)) (k.claimed index mark) = k.claimed index mark :=
    fun family hf => if_pos (List.mem_map.2
      ⟨_, List.mem_append_right _ (List.mem_map_of_mem hf), rfl⟩)
  have hpassive : ∀ c ∈ claimRequests index mark,
      act c (k.claimed index mark) = k.claimed index mark := by
    intro c hc
    rcases List.mem_append.1 hc with hc | hc
    · rcases List.mem_cons.1 hc with rfl | hc
      · rfl
      · obtain ⟨family, hf, rfl⟩ := List.mem_map.1 hc
        exact hroute family hf
    · obtain ⟨family, hf, hc⟩ := List.mem_flatMap.1 hc
      have hrule : ∀ r ∈ [suppressRule family, markRule family mark],
          r ∈ (k.claimed index mark).rules := by
        simp only [List.forall_mem_cons, Kernel.claimed, List.mem_append]
        exact ⟨.inl (.inl (List.mem_map_of_mem hf)), .inl (.inr (List.mem_map.2 ⟨_, hf, rfl⟩)), nofun⟩
      obtain ⟨r, hr, rfl⟩ := List.mem_map.1 (show c ∈ [_, _].map Request.addRule from hc)
      exact if_pos (hrule r hr)
  rw [claimDefaultRoute, hlink]
  refine exec_of_ensures (Q := fun _ t => t = k.claimed index mark)
    (ensures_of_only (I := (· = k.claimed index mark)) (only_all hpassive) ?_ rfl)
  rintro c hc s s' rfl hact
  exact (Option.some.inj hact).symm.trans hc

theorem serve_release (h : Unclaimed k)
    (hdone : (serve ok (releaseDefaultRoute mark (k.claimed index mark).routes)
      (k.claimed index mark)).1 = true) :
    (serve ok (releaseDefaultRoute mark (k.claimed index mark).routes)
      (k.claimed index mark)).2 = k := by
  revert hdone
  refine exec_of_ensures (I := fun _ => True) (Q := fun done t => done = true → t = k)
    (ensures_make (fun _ _ hdial => ⟨trivial, ?_⟩) fun _ => ⟨trivial, nofun⟩)
  cases hdial
  refine ensures_seq (ensures_each_done fun _ _ => rfl) fun ruled t hruled => ?_
  refine ensures_bind (ensures_make (fun _ _ hlist => ⟨trivial, ?_⟩)
    fun _ => ⟨trivial, fun h => ?_⟩)
  · cases hlist
    refine ensures_mono (fun _ h => h) (fun flushed t hflushed hdone => ?_)
      (ensures_each_done fun _ _ => rfl)
    obtain ⟨hruled', hflushed'⟩ := Bool.and_eq_true_iff.1 hdone
    cases hruled hruled'
    exact (hflushed hflushed').trans (foldl_release h index mark)
  · simp at h

/-- Marked packets are routed as before, and the others go through the tunnel unless the main table
has more for them than its default route. A second claim changes nothing, and a release leaves
every packet as it was before. -/
theorem claim_routes (hmark : mark ≠ 0) (h : Unclaimed k)
    (hdone : (serve ok (claimDefaultRoute links iface mark) k).1 = true) :
    let k' := (serve ok (claimDefaultRoute links iface mark) k).2
    (∀ p : Packet, p.mark ≠ mark → Diverted k k' (links iface) p) ∧
    (∀ p : Packet, p.mark = mark → k'.route p = k.route p) ∧
    (∀ ok', (serve ok' (claimDefaultRoute links iface mark) k').2 = k') ∧
    ∀ ok', (serve ok' (releaseDefaultRoute mark k'.routes) k').1 = true →
      ∀ p, (serve ok' (releaseDefaultRoute mark k'.routes) k').2.route p = k.route p := by
  obtain ⟨index, hlink, hk'⟩ := serve_claim h hdone
  intro k'
  rw [show k' = k.claimed index mark from hk', hlink]
  refine ⟨fun p hp => route_unmarked hmark h hp, fun p hp => route_marked hmark h hp,
    fun ok' => serve_claim_again hlink, fun ok' hreleased p => ?_⟩
  rw [serve_release h hreleased]

def laptop : Kernel where
  rules := families.map mainRule
  routes := [⟨mainTable, 3, anywhere .ip, 2⟩, ⟨mainTable, 2, ⟨.v4 0xc0a80100, 24, by decide⟩, 2⟩]

theorem claim_routes_laptop :
    let k' := (serve (fun _ => true)
      (claimDefaultRoute (fun iface => if iface = "mesh0" then some 7 else none) "mesh0" egressMark)
      laptop).2
    (k'.route ⟨.v4 0x08080808, 0⟩).map Route.outIface = some 7 ∧
      (k'.route ⟨.v4 0xc0a80105, 0⟩).map Route.outIface = some 2 ∧
      (k'.route ⟨.v4 0x08080808, egressMark⟩).map Route.outIface = some 2 ∧
      ∀ p : Packet, p.mark = egressMark → k'.route p = laptop.route p :=
  ⟨by decide +kernel, by decide +kernel, by decide +kernel,
    (claim_routes (by decide) ⟨rfl, by decide⟩ (by decide +kernel)).2.1⟩

end Meshp.Wglink
