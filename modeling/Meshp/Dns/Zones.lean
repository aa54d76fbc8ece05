import Meshp.Base.Rows
import Meshp.Base.Text

/-!
# Whose Name It Is

A device answers names for every network it is in, each a zone with a suffix of
its own. The zones are kept in a map, so a lookup visits them in an order of its
own each time: here they are a list, and what holds of a lookup should hold for
every order of it.
-/

namespace Meshp.Dns

open Netip (Addr)

structure Host where
  name : String
  addrs : List Addr
  deriving DecidableEq

structure Zone where
  suffix : String
  hosts : List Host
  deriving DecidableEq

inductive RCode
  | success
  | nxDomain
  | refused
  deriving DecidableEq

structure Resolution where
  addrs : List Addr := []
  code : RCode
  ambiguous : List String := []
  deriving DecidableEq

/-- `strings.CutSuffix`. -/
def cutSuffix (s suffix : String) : Option String :=
  if suffix.toList <:+ s.toList then
    some (String.ofList (s.toList.take (s.toList.length - suffix.toList.length)))
  else none

def Zone.label? (zone : Zone) (name : String) : Option String :=
  cutSuffix name ("." ++ zone.suffix)

def Zone.answer (zone : Zone) (label : String) : Resolution :=
  if label = "" ∨ '.' ∈ label.toList then { code := .nxDomain }
  else match zone.hosts.find? (·.name = label) with
    | some host => { addrs := host.addrs, code := .success }
    | none => { code := .nxDomain }

/-- `qualifiedLocked`: the first zone with the suffix decides. -/
def qualified (name : String) : List Zone → Resolution
  | [] => { code := .refused }
  | zone :: zones =>
    match zone.label? name with
    | none => qualified name zones
    | some label => zone.answer label

/-- `bareLocked`: an answer, if there is one alone. -/
def bare (label : String) (zones : List Zone) : Resolution :=
  let found := zones.flatMap fun zone =>
    (zone.hosts.filter (·.name = label)).map fun host => (label ++ "." ++ zone.suffix, host.addrs)
  match found with
  | [] => { code := .nxDomain }
  | [(_, addrs)] => { addrs, code := .success }
  | _ => { code := .refused, ambiguous := (found.map Prod.fst).insertionSort (· ≤ ·) }

def canonical (name : String) : String :=
  Text.toLower ((cutSuffix name ".").getD name)

/-- `Lookup`. -/
def lookup (zones : List Zone) (name : String) : Resolution :=
  if canonical name = "" then { code := .nxDomain }
  else if '.' ∈ (canonical name).toList then qualified (canonical name) zones
  else bare (canonical name) zones

def Zone.answering (name : String) (zone : Zone) : List Host :=
  if canonical name = "" then []
  else if '.' ∈ (canonical name).toList then
    match zone.label? (canonical name) with
    | none => []
    | some label => if label = "" ∨ '.' ∈ label.toList then []
      else zone.hosts.filter (·.name = label)
  else zone.hosts.filter (·.name = canonical name)

def Unchosen (zones : List Zone) (name : String) : Prop :=
  (∀ zones', zones'.Perm zones → lookup zones' name = lookup zones name) ∧
    ((lookup zones name).code = .success →
      ∃ host, zones.flatMap (·.answering name) = [host] ∧ (lookup zones name).addrs = host.addrs) ∧
    (2 ≤ (zones.flatMap (·.answering name)).length → (lookup zones name).code = .refused)

variable {zones : List Zone} {name : String}

theorem bare_perm {zones' : List Zone} (label : String) (h : zones'.Perm zones) :
    bare label zones' = bare label zones := by
  unfold bare
  have hfound := h.flatMap_right fun zone => (zone.hosts.filter (·.name = label)).map fun host =>
    (label ++ "." ++ zone.suffix, host.addrs)
  generalize zones'.flatMap _ = found' at hfound ⊢
  generalize zones.flatMap _ = found at hfound ⊢
  match found, hfound with
  | [], hfound => rw [hfound.eq_nil]
  | [one], hfound => rw [hfound.eq_singleton]
  | one :: two :: more, hfound =>
    match found', hfound.length_eq with
    | one' :: two' :: more', _ =>
      simp only [Resolution.mk.injEq, true_and]
      exact Base.sort_eq_of_perm (fun (a b : String) => show a ≤ b ↔ id a ≤ id b from .rfl)
        (hfound.map _) fun _ _ _ _ h => h

theorem unchosen_bare (hbare : '.' ∉ (canonical name).toList) : Unchosen zones name := by
  by_cases hempty : canonical name = ""
  · have hlookup : ∀ zones', lookup zones' name = { code := .nxDomain } := fun _ => if_pos hempty
    have hnone : zones.flatMap (·.answering name) = [] := by
      simp [Zone.answering, hempty]
    simp [Unchosen, hlookup, hnone]
  have hlookup : ∀ zones', lookup zones' name = bare (canonical name) zones' := by
    intro zones'
    rw [lookup, if_neg hempty, if_neg hbare]
  have hanswering : ∀ zone : Zone,
      zone.answering name = zone.hosts.filter (·.name = canonical name) := by
    intro zone
    rw [Zone.answering, if_neg hempty, if_neg hbare]
  simp only [Unchosen, hlookup, hanswering]
  refine ⟨fun zones' h => bare_perm _ h, ?_⟩
  have hfound : (zones.flatMap fun zone => (zone.hosts.filter (·.name = canonical name)).map
      fun host => (canonical name ++ "." ++ zone.suffix, host.addrs)).map Prod.snd =
      (zones.flatMap fun zone => zone.hosts.filter (·.name = canonical name)).map Host.addrs := by
    simp [List.map_flatMap, Function.comp_def]
  unfold bare
  generalize zones.flatMap (fun zone => (zone.hosts.filter (·.name = canonical name)).map
    fun host => (canonical name ++ "." ++ zone.suffix, host.addrs)) = found at hfound ⊢
  generalize zones.flatMap (fun zone => zone.hosts.filter (·.name = canonical name)) = hosts at hfound ⊢
  -- As many were found as answer.
  rcases found with _ | ⟨one, _ | ⟨two, more⟩⟩ <;>
    rcases hosts with _ | ⟨host, _ | ⟨host', hosts⟩⟩ <;> simp_all

def matching (name : String) (zones : List Zone) : List Zone :=
  zones.filter fun zone => (zone.label? (canonical name)).isSome

def firstOf : List Host → Resolution
  | [] => { code := .nxDomain }
  | host :: _ => { addrs := host.addrs, code := .success }

theorem success_firstOf {hosts : List Host} : (firstOf hosts).code = .success ↔ hosts ≠ [] := by
  cases hosts with
  | nil => exact ⟨nofun, fun h => absurd rfl h⟩
  | cons host hosts => exact ⟨nofun, fun _ => rfl⟩

theorem ne_empty (hq : '.' ∈ (canonical name).toList) : canonical name ≠ "" := by
  intro hempty
  rw [hempty] at hq
  cases hq

theorem answering_qualified (hq : '.' ∈ (canonical name).toList) (zone : Zone) :
    zone.answering name = match zone.label? (canonical name) with
      | none => []
      | some label => if label = "" ∨ '.' ∈ label.toList then []
        else zone.hosts.filter (·.name = label) := by
  rw [Zone.answering, if_neg (ne_empty hq), if_pos hq]

theorem firstOf_answering (hq : '.' ∈ (canonical name).toList) {zone : Zone} {label : String}
    (h : zone.label? (canonical name) = some label) :
    zone.answer label = firstOf (zone.answering name) := by
  simp only [answering_qualified hq, h, Zone.answer]
  split_ifs with hnone
  · rfl
  · rw [← List.head?_filter]
    cases zone.hosts.filter (·.name = label) <;> rfl

theorem lookup_qualified (hq : '.' ∈ (canonical name).toList) (zones : List Zone) :
    lookup zones name = match matching name zones with
      | [] => { code := .refused }
      | zone :: _ => firstOf (zone.answering name) := by
  rw [lookup, if_neg (ne_empty hq), if_pos hq]
  induction zones with
  | nil => rfl
  | cons zone zones ih =>
    cases hlabel : zone.label? (canonical name) with
    | none => simpa [qualified, matching, hlabel] using ih
    | some label => simp [qualified, matching, hlabel, firstOf_answering hq hlabel]

theorem flatMap_matching (hq : '.' ∈ (canonical name).toList) (zones : List Zone) :
    zones.flatMap (·.answering name) = (matching name zones).flatMap (·.answering name) := by
  induction zones with
  | nil => rfl
  | cons zone zones ih =>
    cases hlabel : zone.label? (canonical name) with
    | none => simpa [matching, hlabel, answering_qualified hq] using ih
    | some label => simpa [matching, hlabel] using ih

theorem lookup_eq_of_mem (hq : '.' ∈ (canonical name).toList)
    (horder : ∀ zones', zones'.Perm zones → lookup zones' name = lookup zones name) {zone : Zone}
    (hzone : zone ∈ matching name zones) : lookup zones name = firstOf (zone.answering name) := by
  obtain ⟨hmem, hmatch⟩ := List.mem_filter.1 hzone
  rw [← horder _ (List.perm_cons_erase hmem).symm, lookup_qualified hq, matching,
    List.filter_cons, if_pos hmatch]

/-- A lookup chooses nothing exactly if a qualified name has no host that answers, or one host in
the one zone whose suffix it has. -/
theorem unchosen_iff (zones : List Zone) (name : String) :
    Unchosen zones name ↔ ('.' ∈ (canonical name).toList →
      zones.flatMap (·.answering name) = [] ∨
        (matching name zones).length = 1 ∧ (zones.flatMap (·.answering name)).length = 1) := by
  by_cases hq : '.' ∈ (canonical name).toList
  swap
  · exact ⟨fun _ h => absurd h hq, fun _ => unchosen_bare hq⟩
  rw [forall_prop_of_true hq]
  constructor
  · rintro ⟨horder, hone, -⟩
    refine or_iff_not_imp_left.2 fun hsome => ?_
    obtain ⟨host, hhost⟩ := List.exists_mem_of_ne_nil _ hsome
    rw [flatMap_matching hq] at hhost
    obtain ⟨zone, hzone, hanswers⟩ := List.mem_flatMap.1 hhost
    have hcode : (lookup zones name).code = .success := by
      rw [lookup_eq_of_mem hq horder hzone, success_firstOf]
      exact List.ne_nil_of_mem hanswers
    obtain ⟨only, honly, -⟩ := hone hcode
    have hsplit := (List.perm_cons_erase hzone).flatMap_right fun zone => zone.answering name
    have hlength := hsplit.length_eq
    rw [← flatMap_matching hq, honly, List.flatMap_cons, List.length_append] at hlength
    have hpos := List.length_pos_of_mem hanswers
    -- A second zone that matches would have a host of its own that answers.
    have hrest : (matching name zones).erase zone = [] := by
      refine List.eq_nil_iff_forall_not_mem.2 fun zone' hzone' => ?_
      have hfirst := lookup_eq_of_mem hq horder (List.mem_of_mem_erase hzone')
      rw [hfirst, success_firstOf] at hcode
      obtain ⟨host', hhost'⟩ := List.exists_mem_of_ne_nil _ hcode
      have hpos' : 0 < (((matching name zones).erase zone).flatMap fun zone =>
          zone.answering name).length :=
        List.length_pos_of_mem (List.mem_flatMap.2 ⟨zone', hzone', hhost'⟩)
      rw [List.length_singleton] at hlength
      omega
    refine ⟨?_, by rw [honly]; rfl⟩
    rw [(List.perm_cons_erase hzone).length_eq, hrest]
    rfl
  · rintro (hnone | ⟨hone, hsingle⟩)
    · have hempty : ∀ zone ∈ matching name zones, zone.answering name = [] := by
        rw [flatMap_matching hq] at hnone
        exact List.flatMap_eq_nil_iff.1 hnone
      have hlookup : ∀ zones', zones'.Perm zones → lookup zones' name =
          if matching name zones = [] then { code := .refused } else { code := .nxDomain } := by
        intro zones' h
        have hperm : (matching name zones').Perm (matching name zones) := h.filter _
        rw [lookup_qualified hq]
        cases hmatching : matching name zones' with
        | nil => rw [if_pos (hmatching ▸ hperm).symm.eq_nil]
        | cons zone more =>
          have hzone : zone ∈ matching name zones := hperm.subset (hmatching ▸ .head _)
          rw [if_neg (List.ne_nil_of_mem hzone)]
          exact congrArg firstOf (hempty zone hzone)
      have hself := hlookup zones (.refl _)
      refine ⟨fun zones' h => (hlookup zones' h).trans hself.symm, fun hcode => ?_, by simp [hnone]⟩
      rw [hself] at hcode
      split_ifs at hcode
    · obtain ⟨zone, hzone⟩ := List.length_eq_one_iff.1 hone
      have hlookup : ∀ zones', zones'.Perm zones →
          lookup zones' name = firstOf (zone.answering name) := by
        intro zones' h
        have hperm : (matching name zones').Perm [zone] := hzone ▸ h.filter _
        rw [lookup_qualified hq, hperm.eq_singleton]
      obtain ⟨host, hhost⟩ := List.length_eq_one_iff.1 hsingle
      have hanswering : zone.answering name = [host] := by
        rw [flatMap_matching hq, hzone] at hhost
        simpa using hhost
      have hself := hlookup zones (.refl _)
      refine ⟨fun zones' h => (hlookup zones' h).trans hself.symm, fun _ => ⟨host, hhost, ?_⟩, ?_⟩
      · rw [hself, hanswering]
        rfl
      · rw [hhost]
        exact fun h => absurd h (Nat.lt_irrefl 1)

/-- Two customers chose one suffix: the order decides whose file server it is. -/
theorem order_decides :
    let acme : Zone := ⟨"corp.internal", [⟨"files", [.v4 0x645A0001]⟩]⟩
    let other : Zone := ⟨"corp.internal", [⟨"files", [.v4 0x645A0102]⟩]⟩
    lookup [acme, other] "files.corp.internal" = { addrs := [.v4 0x645A0001], code := .success } ∧
      lookup [other, acme] "files.corp.internal" =
        { addrs := [.v4 0x645A0102], code := .success } := by
  decide +kernel

end Meshp.Dns
