import Meshp.Accounts.History
import Meshp.Api.Gate

/-!
# What a Token May Do

A token carries a scope, and may do what is in its scope and in the power of the
person it stands for, as that is when the request is made. It is narrowed to one
network or reaches every network its owner does. In a network nothing compares the
organisation of a token with the network's.
-/

namespace Meshp.Api

open Accounts (ApiToken Deployment Primitives Tenanted apply titles tokenPermissions transparent)
open Authz
open Base (Along run)
open Store (Id trusting)

/-- What a token may do in a network: what its scope and its owner's permissions have in common,
nothing when it is narrowed to another network, and nothing in a network of another organisation. -/
structure Confined (d : Deployment) (t : ApiToken) (n : Id) : Prop where
  shared : t.networkId = none ∨ t.networkId = some n → ∀ p,
    (permissionsInNetwork d (.token t) n).allows p = true ↔
      p.name ∈ t.permissions ∧ (Accounts.permissionsInNetwork d n t.userId).allows p = true
  narrowed : t.networkId ≠ none → t.networkId ≠ some n →
    (permissionsInNetwork d (.token t) n).empty = true
  foreign : (∀ r ∈ d.networks, r.id = n → r.organizationId ≠ t.organizationId) →
    (permissionsInNetwork d (.token t) n).empty = true

variable {d : Deployment} {t : ApiToken} {n : Id}

theorem empty_newSet_nil : (newSet []).empty = true := rfl

theorem empty_of_allows {s : PermissionSet} (h : ∀ p, s.allows p = false) : s.empty = true := by
  rcases s with ⟨all, holds⟩
  have hall : all = false := by
    have hread := h .networkRead
    simp only [PermissionSet.allows, Bool.or_eq_false_iff] at hread
    exact hread.1
  have hnone : holds = ∅ := by
    refine Finset.eq_empty_of_forall_notMem fun p hp => ?_
    have hnot := h p
    simp only [PermissionSet.allows, Bool.or_eq_false_iff, decide_eq_false_iff_not] at hnot
    exact hnot.2 hp
  simp [PermissionSet.empty, hall, hnone]

theorem tokenPermissions_narrowed (hnarrow : t.networkId ≠ none) (hother : t.networkId ≠ some n) :
    permissionsInNetwork d (.token t) n = newSet [] := by
  simp only [permissionsInNetwork, tokenPermissions]
  rw [if_pos ⟨hnarrow, fun h => hother h.symm⟩]

theorem allows_tokenPermissions (hreach : t.networkId = none ∨ t.networkId = some n)
    (p : Permission) :
    (permissionsInNetwork d (.token t) n).allows p = true ↔
      p.name ∈ t.permissions ∧ (Accounts.permissionsInNetwork d n t.userId).allows p = true := by
  have hwide : ¬(t.networkId ≠ none ∧ some n ≠ t.networkId) := by
    rintro ⟨hnarrow, hother⟩
    exact hreach.elim hnarrow fun h => hother h.symm
  simp only [permissionsInNetwork, tokenPermissions]
  rw [if_neg hwide, allows_newSet, List.mem_filter, ofName?_name]
  rfl

theorem permissionsInNetwork_foreign (hd : Tenanted d) (ht : t ∈ d.apiTokens)
    (hforeign : ∀ r ∈ d.networks, r.id = n → r.organizationId ≠ t.organizationId)
    (p : Permission) : (Accounts.permissionsInNetwork d n t.userId).allows p = false := by
  rw [← Bool.not_eq_true]
  intro hallows
  have hheld : p ∈ (Accounts.permissionsInNetwork d n t.userId).holds := by
    simpa [PermissionSet.allows, Accounts.permissionsInNetwork, newSet] using hallows
  obtain ⟨r, hr, ⟨hid, _⟩, b, hb, ⟨horg, _, huser⟩, _⟩ :=
    Accounts.mem_permissionsInNetwork.1 hheld
  -- The binding and the token are the same person's, so of one organisation.
  have hbinding : (t.userId, b.organizationId) ∈ titles d := huser ▸ hd.bindings b hb
  have hsame : b.organizationId = t.organizationId := hd.unique hbinding (hd.tokens t ht)
  exact hforeign r hr hid (horg.symm.trans hsame)

theorem confined_of_tenanted (hd : Tenanted d) (ht : t ∈ d.apiTokens) (n : Id) :
    Confined d t n := by
  refine ⟨allows_tokenPermissions, fun hnarrow hother => ?_, fun hforeign => ?_⟩
  · rw [tokenPermissions_narrowed hnarrow hother]
    exact empty_newSet_nil
  · by_cases hreach : t.networkId = none ∨ t.networkId = some n
    · refine empty_of_allows fun p => ?_
      rw [← Bool.not_eq_true, allows_tokenPermissions hreach]
      intro hboth
      rw [permissionsInNetwork_foreign hd ht hforeign p] at hboth
      cases hboth.2
    · rw [tokenPermissions_narrowed (fun h => hreach (.inl h)) fun h => hreach (.inr h)]
      exact empty_newSet_nil

variable (x : Primitives) (c : Enroll.Checks)

/-- Where every role is granted in the organisation of the person it is granted to, every token is
confined in every network, after any history. -/
theorem permissions_confined (es : List Accounts.Event)
    (h : Along (apply x c) Accounts.Inside {} es) :
    ∀ t ∈ (run (apply x c) {} es).apiTokens, ∀ n,
      Confined (run (apply x c) {} es) t n :=
  fun _ ht n => confined_of_tenanted (Accounts.tenanted_run x c es h) ht n

def visiting (organization : Id) : List Accounts.Event :=
  [.mesh ⟨0, .createOrganization "acme" "Acme"⟩, .mesh ⟨0, .createOrganization "globex" "Globex"⟩,
   .mesh ⟨0, .createNetwork 2 "core" "" [.upTo (.v4 0x0A000000) 24]⟩, .ensureBuiltinRoles,
   .createUser { organization := 1, email := "ann@acme.example", password := "correct horse" } [],
   .bindRole { organization, user := 5, role := "reader" },
   .mintToken 0 5 "watch" ["network.read"] none 0 [7]]

theorem permissions_confined_home :
    Along (apply transparent trusting) Accounts.Inside {} (visiting 1) ∧
      ∀ t ∈ (run (apply transparent trusting) {} (visiting 1)).apiTokens,
        ∀ n, Confined (run (apply transparent trusting) {} (visiting 1)) t n := by
  refine (and_iff_left_of_imp fun hinside => ?_).2 (by decide +kernel)
  exact permissions_confined _ _ (visiting 1) hinside

/-- Granted a role by another organisation, they take their token there. -/
theorem token_reaches_foreign_network :
    ¬∀ t ∈ (run (apply transparent trusting) {} (visiting 2)).apiTokens,
      ∀ n, Confined (run (apply transparent trusting) {} (visiting 2)) t
        n := by
  have hreads : ∃ t ∈ (run (apply transparent trusting) {}
        (visiting 2)).apiTokens,
      (∀ r ∈ (run (apply transparent trusting) {} (visiting 2)).networks,
        r.id = 3 → r.organizationId ≠ t.organizationId) ∧
      (permissionsInNetwork (run (apply transparent trusting) {}
        (visiting 2)) (.token t) 3).empty = false := by
    decide +kernel
  intro hall
  obtain ⟨t, ht, hforeign, hholds⟩ := hreads
  rw [(hall t ht 3).foreign hforeign] at hholds
  cases hholds

end Meshp.Api
