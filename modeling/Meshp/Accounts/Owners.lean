import Meshp.Accounts.History

/-!
# The Last Owner

Whoever holds the owner role across an organisation can grant any other, so an
organisation whose last owner is gone has nobody left who can. Unbinding a role
therefore counts first, and refuses to remove the last. The count and the deletion
lock nothing they read.
-/

namespace Meshp.Accounts.Owners

open Authz (roleOwner)
open Base (Along run)
open Store (Id Time)

inductive Request
  | unbind (organization binding : Id)
  | suspend (now : Time) (organization user : Id) (suspended : Bool)
  | delete (now : Time) (organization user : Id)

inductive Stage
  | waiting
  /-- About to count the grants of a role. -/
  | targeted (role : Id)
  /-- About to delete. -/
  | decided
  | finished
  deriving DecidableEq

/-- `UnbindRole`, one statement further. Only an owner across the organisation is counted. -/
def advanceUnbind (d : Deployment) (organization id : Id) : Stage → Deployment × Stage
  | .waiting =>
    match roleBindingForOrganization d organization id with
    | none => (d, .finished)
    | some (b, r) =>
      (d, if r.slug = roleOwner ∧ b.networkId = none then .targeted b.roleId else .decided)
  | .targeted role =>
    (d, if countOrganizationWideBindingsOfRole d organization role ≤ 1 then .finished
      else .decided)
  | .decided => (Base.attempt (deleteRoleBinding · organization id) d, .finished)
  | .finished => (d, .finished)

def advanceOnce (f : Deployment → Except Refusal Deployment) (d : Deployment) :
    Stage → Deployment × Stage
  | .waiting => (Base.attempt f d, .finished)
  | s => (d, s)

def advance (d : Deployment) : Request → Stage → Deployment × Stage
  | .unbind organization id => advanceUnbind d organization id
  | .suspend now organization user suspended =>
    advanceOnce (fun d => setUserSuspended now d organization user suspended) d
  | .delete now organization user => advanceOnce (fun d => deleteUser now d organization user) d

structure World (ι : Type) where
  d : Deployment
  stage : ι → Stage := fun _ => .waiting

variable {ι : Type} [DecidableEq ι] (requests : ι → Request)

def World.step (w : World ι) (i : ι) : World ι :=
  let next := advance w.d (requests i) (w.stage i)
  { d := next.1, stage := Function.update w.stage i next.2 }

def Owns (d : Deployment) (o : Id) (u : User) : Prop :=
  u.active = true ∧ ∃ b ∈ d.roleBindings,
    (b.userId = u.id ∧ b.organizationId = o ∧ b.networkId = none) ∧
      ∃ r ∈ d.roles, r.id = b.roleId ∧ r.slug = roleOwner

instance decidableOwns (d : Deployment) (o : Id) (u : User) : Decidable (Owns d o u) :=
  inferInstanceAs (Decidable (_ ∧ _))

def HasOwner (d : Deployment) (o : Id) : Prop :=
  ∃ u ∈ d.users, Owns d o u

instance decidableHasOwner (d : Deployment) (o : Id) : Decidable (HasOwner d o) :=
  inferInstanceAs (Decidable (∃ u ∈ d.users, Owns d o u))

structure Keyed (d : Deployment) : Prop where
  bindings : (d.roleBindings.map RoleBinding.id).Nodup
  roles : (d.roles.map Role.id).Nodup

def Spared (d : Deployment) (o organization user : Id) : Prop :=
  ∃ u ∈ d.users, here organization user u = false ∧ Owns d o u

def Plenty (d : Deployment) (organization role : Id) : Prop :=
  1 < countOrganizationWideBindingsOfRole d organization role ∧
    ∀ b ∈ d.roleBindings, b.organizationId = organization → b.roleId = role →
      b.networkId = none → ∃ u ∈ d.users, u.id = b.userId ∧ u.active = true

def Covered (d : Deployment) (organization id : Id) : Prop :=
  ∀ t ∈ roleBindingForOrganization d organization id, t.2.slug = roleOwner →
    t.1.networkId = none → Plenty d organization t.1.roleId

instance decidableCovered (d : Deployment) (organization id : Id) :
    Decidable (Covered d organization id) := by
  unfold Covered Plenty
  infer_instance

def Guarded (o : Id) (w : World ι) (i : ι) : Prop :=
  match requests i with
  | .unbind organization id => w.stage i = .decided → Covered w.d organization id
  | .suspend _ organization user suspended =>
    w.stage i = .waiting → suspended = true → Spared w.d o organization user
  | .delete _ organization user => w.stage i = .waiting → Spared w.d o organization user

instance decidableGuarded (o : Id) (w : World ι) (i : ι) : Decidable (Guarded requests o w i) := by
  unfold Guarded Spared
  split <;> infer_instance

variable {d d' : Deployment} {o : Id}

theorem Owns.kept {u v : User} (h : Owns d o u) (hv : v ∈ d'.users) (hid : v.id = u.id)
    (hactive : v.active = true) (hb : d'.roleBindings = d.roleBindings)
    (hr : d'.roles = d.roles) : HasOwner d' o := by
  obtain ⟨_, b, hmem, ⟨huser, hscope⟩, hrole⟩ := h
  refine ⟨v, hv, hactive, b, hb ▸ hmem, ⟨huser.trans hid.symm, hscope⟩, ?_⟩
  rw [hr]
  exact hrole

theorem mem_updated {p : User → Bool} {f : User → User} {u : User} (hu : u ∈ d.users)
    (hp : p u = false) : u ∈ d.users.map fun u => if p u then f u else u :=
  List.mem_map.2 ⟨u, hu, by rw [hp]; rfl⟩

variable {now : Time} {organization user : Id}

theorem setUserSuspended_ok {suspended : Bool}
    (h : setUserSuspended now d organization user suspended = .ok d') :
    d'.users = (d.users.map fun u => if here organization user u then
        { u with suspendedAt := if suspended then some now else none } else u) ∧
      d'.roleBindings = d.roleBindings ∧ d'.roles = d.roles := by
  obtain ⟨d₁, hupdate, h⟩ := Base.bind_eq_ok.1 h
  have hd₁ := updateUser_ok hupdate
  cases h
  rw [hd₁]
  cases suspended with
  | true | false => exact ⟨rfl, rfl, rfl⟩

theorem deleteUser_ok (h : deleteUser now d organization user = .ok d') :
    d'.users = (d.users.map fun u => if here organization user u then
        { u with deletedAt := some now } else u) ∧
      d'.roleBindings = d.roleBindings ∧ d'.roles = d.roles := by
  obtain ⟨d₁, hupdate, h⟩ := Base.bind_eq_ok.1 h
  have hd₁ := updateUser_ok hupdate
  cases h
  rw [hd₁]
  exact ⟨rfl, rfl, rfl⟩

theorem hasOwner_reinstate (h : HasOwner d o)
    (hok : setUserSuspended now d organization user false = .ok d') : HasOwner d' o := by
  obtain ⟨hu', hb, hr⟩ := setUserSuspended_ok hok
  obtain ⟨u, hu, howns⟩ := h
  by_cases hhere : here organization user u = true
  · refine howns.kept (v := { u with suspendedAt := none }) ?_ rfl ?_ hb hr
    · rw [hu']
      exact List.mem_map.2 ⟨u, hu, by rw [hhere]; rfl⟩
    · have hactive := howns.1
      simp only [User.active, decide_eq_true_eq] at hactive ⊢
      exact ⟨trivial, hactive.2⟩
  · refine howns.kept (v := u) ?_ rfl howns.1 hb hr
    rw [hu']
    exact mem_updated hu (Bool.eq_false_iff.2 hhere)

theorem exists_other {role : Id} (hd : (d.roleBindings.map RoleBinding.id).Nodup)
    (hcount : 1 < countOrganizationWideBindingsOfRole d organization role) (id : Id) :
    ∃ b ∈ d.roleBindings, b.id ≠ id ∧ b.organizationId = organization ∧ b.roleId = role ∧
      b.networkId = none := by
  unfold countOrganizationWideBindingsOfRole at hcount
  -- The counted grants keep their keys apart, so a second one has another key.
  have hsub := (List.filter_sublist (l := d.roleBindings) (p := fun b =>
    decide (b.organizationId = organization ∧ b.roleId = role ∧ b.networkId = none))).map
      RoleBinding.id
  have hkeys := hd.sublist hsub
  generalize hl : (d.roleBindings.filter fun b => decide (b.organizationId = organization ∧
    b.roleId = role ∧ b.networkId = none)) = counted at hcount hkeys
  have hcounted : ∀ b ∈ counted, b ∈ d.roleBindings ∧ b.organizationId = organization ∧
      b.roleId = role ∧ b.networkId = none := by
    intro b hb
    rw [← hl] at hb
    simpa using hb
  match counted, hcount, hkeys with
  | b₁ :: b₂ :: rest, _, hkeys =>
    have hne : b₁.id ≠ b₂.id := by
      intro heq
      simp [heq] at hkeys
    by_cases h₁ : b₁.id = id
    · obtain ⟨hmem, hrest⟩ := hcounted b₂ (by simp)
      exact ⟨b₂, hmem, fun h₂ => hne (h₁.trans h₂.symm), hrest⟩
    · obtain ⟨hmem, hrest⟩ := hcounted b₁ (by simp)
      exact ⟨b₁, hmem, h₁, hrest⟩

theorem roleBindingForOrganization_of_mem (hd : Keyed d) {b : RoleBinding} {r : Role}
    (hb : b ∈ d.roleBindings) (hr : r ∈ d.roles) (hrole : r.id = b.roleId) :
    roleBindingForOrganization d b.organizationId b.id = some (b, r) := by
  have hfound : (d.roleBindings.find? fun b' =>
      decide (b'.id = b.id ∧ b'.organizationId = b.organizationId)) = some b := by
    cases hfind : d.roleBindings.find? fun b' =>
        decide (b'.id = b.id ∧ b'.organizationId = b.organizationId) with
    | none => simpa using List.find?_eq_none.1 hfind b hb
    | some b' =>
      have hkey : b'.id = b.id := by
        have hmatch := List.find?_some hfind
        simp only [decide_eq_true_eq] at hmatch
        exact hmatch.1
      rw [List.inj_on_of_nodup_map hd.bindings (List.mem_of_find?_eq_some hfind) hb hkey]
  have hrow : (d.roles.find? fun r' => decide (r'.id = b.roleId)) = some r := by
    rw [← hrole]
    exact Base.find?_of_nodup hd.roles hr
  simp only [roleBindingForOrganization, hfound, Option.bind_some, hrow, Option.map_some]

theorem hasOwner_delete {id : Id} (hd : Keyed d) (h : HasOwner d o)
    (hcovered : Covered d organization id) (hok : deleteRoleBinding d organization id = .ok d') :
    HasOwner d' o := by
  obtain ⟨u, hu, hactive, b, hb, ⟨huser, horg, hwide⟩, r, hr, hrole, hslug⟩ := h
  rw [deleteRoleBinding_ok hok]
  by_cases hgone : b.id = id ∧ b.organizationId = organization
  · have hfound : roleBindingForOrganization d organization id = some (b, r) := by
      rw [← hgone.1, ← hgone.2]
      exact roleBindingForOrganization_of_mem hd hb hr hrole
    obtain ⟨hcount, hheld⟩ := hcovered _ hfound hslug hwide
    obtain ⟨b', hb', hother, horg', hrole', hwide'⟩ := exists_other hd.bindings hcount id
    obtain ⟨u', hu', huser', hactive'⟩ := hheld b' hb' horg' hrole' hwide'
    refine ⟨u', hu', hactive', b', ?_, ⟨huser'.symm, ?_, hwide'⟩, r, hr, ?_, hslug⟩
    · refine List.mem_filter.2 ⟨hb', ?_⟩
      simp only [decide_eq_true_eq]
      exact fun hsame => hother hsame.1
    · exact horg'.trans (hgone.2.symm.trans horg)
    · exact hrole.trans hrole'.symm
  · refine ⟨u, hu, hactive, b, ?_, ⟨huser, horg, hwide⟩, r, hr, hrole, hslug⟩
    refine List.mem_filter.2 ⟨hb, ?_⟩
    simp only [decide_eq_true_eq]
    exact hgone

structure Owned (o : Id) (d : Deployment) : Prop where
  keyed : Keyed d
  owner : HasOwner d o

theorem Owned.spared {f : User → User} (h : Owned o d) (hspared : Spared d o organization user)
    (hu' : d'.users = d.users.map fun u => if here organization user u then f u else u)
    (hb : d'.roleBindings = d.roleBindings) (hr : d'.roles = d.roles) : Owned o d' := by
  obtain ⟨u, hu, hhere, howns⟩ := hspared
  refine ⟨⟨hb ▸ h.keyed.bindings, hr ▸ h.keyed.roles⟩, ?_⟩
  refine howns.kept (v := u) ?_ rfl howns.1 hb hr
  rw [hu']
  exact mem_updated hu hhere

theorem owned_step (w : World ι) (i : ι) (h : Owned o w.d) (hguard : Guarded requests o w i) :
    Owned o (w.step requests i).d := by
  change Owned o (advance w.d (requests i) (w.stage i)).1
  unfold Guarded at hguard
  generalize requests i = request at hguard ⊢
  generalize w.stage i = stage at hguard ⊢
  cases request with
  | unbind organization id =>
    cases stage with
    | waiting =>
      simp only [advance, advanceUnbind]
      split
      · exact h
      · exact h
    | targeted role => exact h
    | decided =>
      change Owned o (Base.attempt (deleteRoleBinding · organization id) w.d)
      refine Base.attempt_inv (Owned o) _ w.d (fun d' hok => ⟨?_, ?_⟩) h
      · rw [deleteRoleBinding_ok hok]
        exact ⟨h.keyed.bindings.sublist (List.filter_sublist.map _), h.keyed.roles⟩
      · exact hasOwner_delete h.keyed h.owner (hguard rfl) hok
    | finished => exact h
  | suspend now organization user suspended =>
    cases stage with
    | waiting =>
      change Owned o (Base.attempt
        (fun d => setUserSuspended now d organization user suspended) w.d)
      refine Base.attempt_inv (Owned o) _ w.d (fun d' hok => ?_) h
      obtain ⟨hu', hb, hr⟩ := setUserSuspended_ok hok
      cases suspended with
      | true => exact h.spared (hguard rfl rfl) hu' hb hr
      | false =>
        exact ⟨⟨hb ▸ h.keyed.bindings, hr ▸ h.keyed.roles⟩, hasOwner_reinstate h.owner hok⟩
    | _ => exact h
  | delete now organization user =>
    cases stage with
    | waiting =>
      change Owned o (Base.attempt (fun d => deleteUser now d organization user) w.d)
      refine Base.attempt_inv (Owned o) _ w.d (fun d' hok => ?_) h
      obtain ⟨hu', hb, hr⟩ := deleteUser_ok hok
      exact h.spared (hguard rfl) hu' hb hr
    | _ => exact h

/-- In every interleaving whose deletions are covered and whose suspensions spare an owner, an
organisation that has an owner keeps one. -/
theorem owner_remains (d : Deployment) (o : Id) (hd : Keyed d) (h : HasOwner d o) (is : List ι)
    (hguard : Along (World.step requests) (Guarded requests o) { d } is) :
    HasOwner (run (World.step requests) { d } is).d o :=
  (Base.run_inv_along (fun w : World ι => Owned o w.d) (owned_step requests) { d } is ⟨hd, h⟩
    hguard).owner

def pair : Deployment :=
  run (apply transparent Store.trusting) {}
    [.mesh ⟨0, .createOrganization "acme" "Acme"⟩, .ensureBuiltinRoles,
     .createUser { organization := 1, email := "ann@acme.example", password := "correct horse" }
       [],
     .createUser { organization := 1, email := "bob@acme.example", password := "battery staple"
                   role := "owner" } []]

def both : Bool → Request
  | false => .unbind 1 6
  | true => .unbind 1 8

theorem owner_remains_in_turn :
    HasOwner (run (World.step both) { d := pair } [false, false, false, true, true, true]).d 1 :=
  owner_remains both pair 1 ⟨by decide +kernel, by decide +kernel⟩ (by decide +kernel) _
    (by decide +kernel)

/-- Each is counted while the other is still there, and nobody is left. -/
theorem owners_unbound_at_once :
    Keyed pair ∧ HasOwner pair 1 ∧
      ¬HasOwner (run (World.step both) { d := pair } [false, false, true, true, false, true]).d 1 :=
  ⟨⟨by decide +kernel, by decide +kernel⟩, by decide +kernel, by decide +kernel⟩

end Meshp.Accounts.Owners
