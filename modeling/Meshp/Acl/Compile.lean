import Meshp.Acl.Document
import Meshp.Wire.State

/-!
# Compiling a Policy for One Device

A policy names devices by tag or by prefix, and a device enforces a filter that
names addresses. Compiling is where the one becomes the other: every rule whose
destination this device is turns into an inbound rule from whatever the rule's
sources currently resolve to, and symmetrically outwards.
-/

namespace Meshp.Acl

open Base (bind_eq_ok)
open Netip (Prefix)
open Selector (literal? read)

structure Device where
  key : String
  addresses : List Prefix
  tags : List String
  deriving DecidableEq

def overlaps (p q : Prefix) : Bool :=
  p.addr.agree (min p.bits q.bits) q.addr

def Device.matches (d : Device) (s : Selector) : Bool :=
  match read s with
  | .everything => true
  | .tag name => d.tags.contains name
  | .literal p => d.addresses.any (overlaps p)
  | .unreadable => false

def matchesAny (d : Device) (selectors : List Selector) : Bool :=
  selectors.any d.matches

def prefixLe (a b : Prefix) : Bool :=
  if a.addr = b.addr then a.bits ≤ b.bits else a.addr.compare b.addr = .lt

def dropRepeats : String → List String → List String
  | _, [] => []
  | last, s :: rest => if s = last then dropRepeats last rest else s :: dropRepeats s rest

/-- `sortedPrefixes`: prefixes as text, in a stable order. -/
def sortedPrefixes (prefixes : List Prefix) : List String :=
  dropRepeats "" ((prefixes.insertionSort (prefixLe · ·)).map Prefix.text)

def contribution (peers : List Device) (s : Selector) : List Prefix :=
  match literal? s with
  | some p => [p]
  | none => peers.flatMap fun d => if d.matches s then d.addresses else []

/-- `resolve`: the prefixes some selectors name, each once. -/
def resolve (selectors : List Selector) (peers : List Device) : List String :=
  sortedPrefixes (selectors.flatMap (contribution peers)).dedup

def compileRule (self : Device) (selfPrefixes : List String) (peers : List Device) (r : Rule)
    (ports : List PortRange) : List Wire.FilterRule × List Wire.FilterRule :=
  let sources := resolve r.src peers
  let destinations := resolve r.dst peers
  let rule (src dst : List String) : Wire.FilterRule :=
    { srcPrefixes := src, dstPrefixes := dst, protocol := r.canonicalProtocol.word,
      ports := ports.map PortRange.text, allow := true }
  (if matchesAny self r.dst ∧ sources ≠ [] then [rule sources selfPrefixes] else [],
    if matchesAny self r.src ∧ destinations ≠ [] then [rule selfPrefixes destinations] else [])

/-- The loop over a document's rules, from the one at index `i`. -/
def compileRules (self : Device) (selfPrefixes : List String) (peers : List Device) :
    Nat → List Rule → Wire.PacketFilter → Except Fault Wire.PacketFilter
  | _, [], filter => .ok filter
  | i, r :: rs, filter =>
    match r.portRanges with
    | .error why => .error (.rule i why)
    | .ok ports =>
      let (inbound, outbound) := compileRule self selfPrefixes peers r ports
      compileRules self selfPrefixes peers (i + 1) rs
        { filter with
          inbound := filter.inbound ++ inbound
          outbound := filter.outbound ++ outbound }

/-- `Compile`: the filter a device should enforce. -/
def compile (doc : Document) (self : Device) (peers : List Device) :
    Except Fault Wire.PacketFilter :=
  match doc.validate with
  | .error e => .error e
  | .ok () =>
    if sortedPrefixes self.addresses = [] then .error .noAddresses
    else compileRules self (sortedPrefixes self.addresses) peers 0 doc.rules
      { defaultDeny := true }

theorem validate_of_validateRules {i : Nat} {rs : List Rule} (h : validateRules i rs = .ok ()) :
    ∀ r ∈ rs, r.validate = .ok () := by
  induction rs generalizing i with
  | nil => exact nofun
  | cons r rs ih =>
    simp only [validateRules] at h
    split at h
    · cases h
    · rename_i hr
      exact List.forall_mem_cons.2 ⟨hr, ih h⟩

theorem Document.validate_rules {doc : Document} (h : doc.validate = .ok ()) :
    ∀ r ∈ doc.rules, r.validate = .ok () := by
  unfold Document.validate at h
  split at h
  · cases h
  · exact validate_of_validateRules h

theorem ports_of_validate {r : Rule} (h : r.validate = .ok ()) :
    (∃ ports, r.portRanges = .ok ports) ∧
      (r.ports ≠ [] → r.canonicalProtocol = .tcp ∨ r.canonicalProtocol = .udp) := by
  unfold Rule.validate at h
  rcases bind_eq_ok.1 h with ⟨_, _, h⟩
  rcases bind_eq_ok.1 h with ⟨_, _, h⟩
  rcases bind_eq_ok.1 h with ⟨_, _, h⟩
  rcases bind_eq_ok.1 h with ⟨proto, hproto, h⟩
  rcases bind_eq_ok.1 h with ⟨_, hrefuse, h⟩
  rcases bind_eq_ok.1 h with ⟨ports, hports, _⟩
  refine ⟨⟨ports, hports⟩, fun hne => ?_⟩
  have hno := Base.refuseIf_eq_ok.1 hrefuse
  rw [Rule.canonicalProtocol, hproto]
  by_contra hneither
  rw [not_or] at hneither
  exact hno ⟨hne, hneither⟩

variable {peers peers' : List Device} {self : Device}

theorem compileRules_ok {selfPrefixes : List String} {rs : List Rule}
    (h : ∀ r ∈ rs, ∃ ports, r.portRanges = .ok ports) (i : Nat) (filter : Wire.PacketFilter) :
    ∃ result, compileRules self selfPrefixes peers i rs filter = .ok result := by
  induction rs generalizing i filter with
  | nil => exact ⟨filter, rfl⟩
  | cons r rs ih =>
    rcases h r (.head _) with ⟨ports, hports⟩
    simp only [compileRules, hports]
    exact ih (fun r' hr' => h r' (.tail _ hr')) _ _

theorem text_ne_empty (p : Prefix) : p.text ≠ "" := by
  intro h
  have hlist := congrArg String.toList h
  simp [Prefix.text] at hlist

theorem sortedPrefixes_ne_nil {prefixes : List Prefix} (h : prefixes ≠ []) :
    sortedPrefixes prefixes ≠ [] := by
  unfold sortedPrefixes
  cases hsort : prefixes.insertionSort (prefixLe · ·) with
  | nil =>
    have hlen := List.length_insertionSort (fun a b => prefixLe a b) prefixes
    rw [hsort] at hlen
    exact absurd (List.length_eq_zero_iff.1 hlen.symm) h
  | cons p ps =>
    rw [List.map_cons, dropRepeats, if_neg (text_ne_empty p)]
    exact List.cons_ne_nil _ _

theorem compile_ok {doc : Document} (hdoc : doc.validate = .ok ()) (hself : self.addresses ≠ [])
    (peers : List Device) : ∃ filter, compile doc self peers = .ok filter := by
  unfold compile
  rw [hdoc]
  simp only [sortedPrefixes_ne_nil hself, if_false]
  exact compileRules_ok (fun r hr => (ports_of_validate (Document.validate_rules hdoc r hr)).1) _ _

/-- Whether a selector picks the devices with some tags, by `*` or by tag. -/
def Selector.picks (s : Selector) (tags : List String) : Bool :=
  match read s with
  | .everything => true
  | .tag name => tags.contains name
  | .literal _ => false
  | .unreadable => false

def Document.picks (doc : Document) (tags : List String) : Bool :=
  doc.rules.any fun r => (r.src ++ r.dst).any (·.picks tags)

theorem picks_of_matches {d : Device} {s : Selector} (hlit : literal? s = none)
    (h : d.matches s = true) : s.picks d.tags = true := by
  unfold literal? at hlit
  unfold Device.matches at h
  unfold Selector.picks
  cases hread : read s with
  | everything => rfl
  | tag name =>
    rw [hread] at h
    exact h
  | literal p =>
    rw [hread] at hlit
    cases hlit
  | unreadable =>
    rw [hread] at h
    cases h

theorem contribution_eq_of_filter {s : Selector} {p : List String → Bool}
    (hp : ∀ tags, s.picks tags = true → p tags = true)
    (h : peers'.filter (fun d => p d.tags) = peers.filter (fun d => p d.tags)) :
    contribution peers' s = contribution peers s := by
  -- What a device contributes it contributes as one of the devices `p` keeps.
  have hsome : ∀ ds : List Device, literal? s = none →
      (ds.flatMap fun d => if d.matches s then d.addresses else []) =
        (ds.filter fun d => p d.tags).flatMap fun d => if d.matches s then d.addresses else [] := by
    intro ds hlit
    induction ds with
    | nil => rfl
    | cons d ds ih =>
      rw [List.flatMap_cons, List.filter_cons, ih]
      by_cases hd : p d.tags = true
      · rw [if_pos hd, List.flatMap_cons]
      · have hnot : d.matches s = false := by
          by_contra hm
          rw [Bool.not_eq_false] at hm
          exact hd (hp d.tags (picks_of_matches hlit hm))
        rw [if_neg hd, hnot]
        rfl
  unfold contribution
  cases hlit : literal? s with
  | some p => rfl
  | none =>
    simp only
    rw [hsome peers' hlit, hsome peers hlit, h]

theorem resolve_eq_of_filter {selectors : List Selector} {p : List String → Bool}
    (hp : ∀ s ∈ selectors, ∀ tags, s.picks tags = true → p tags = true)
    (h : peers'.filter (fun d => p d.tags) = peers.filter (fun d => p d.tags)) :
    resolve selectors peers' = resolve selectors peers := by
  unfold resolve
  rw [List.flatMap_congr fun s hs => contribution_eq_of_filter (hp s hs) h]

theorem compile_eq_of_unpicked {doc : Document}
    (h : peers'.filter (fun d => doc.picks d.tags) = peers.filter (fun d => doc.picks d.tags)) :
    compile doc self peers' = compile doc self peers := by
  have hresolve : ∀ r ∈ doc.rules, ∀ selectors, (∀ s ∈ selectors, s ∈ r.src ++ r.dst) →
      resolve selectors peers' = resolve selectors peers := by
    intro r hr selectors hsub
    refine resolve_eq_of_filter (fun s hs tags hpick => ?_) h
    exact List.any_eq_true.2 ⟨r, hr, List.any_eq_true.2 ⟨s, hsub s hs, hpick⟩⟩
  have hrules : ∀ (rs : List Rule), (∀ r ∈ rs, r ∈ doc.rules) → ∀ selfPrefixes i filter,
      compileRules self selfPrefixes peers' i rs filter =
        compileRules self selfPrefixes peers i rs filter := by
    intro rs
    induction rs with
    | nil => exact fun _ _ _ _ => rfl
    | cons r rs ih =>
      intro hsub selfPrefixes i filter
      have hr := hsub r (.head _)
      have hsame : ∀ ports, compileRule self selfPrefixes peers' r ports =
          compileRule self selfPrefixes peers r ports := by
        intro ports
        unfold compileRule
        rw [hresolve r hr r.src fun s hs => List.mem_append_left _ hs,
          hresolve r hr r.dst fun s hs => List.mem_append_right _ hs]
      simp only [compileRules, hsame]
      cases r.portRanges with
      | error why => rfl
      | ok ports => exact ih (fun r' hr' => hsub r' (.tail _ hr')) _ _ _
  unfold compile
  rw [hrules doc.rules fun r hr => hr]

end Meshp.Acl
