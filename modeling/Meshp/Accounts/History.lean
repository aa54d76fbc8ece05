import Meshp.Accounts.Tables
import Meshp.Store.History

/-!
# Histories of People and Roles

What happens to the tables of people is one of the functions that write them, or a
mutation of the mesh beside them, each its own transaction. A token is minted by
somebody signed in, for themselves and in the organisation they belong to;
everything else is given its organisation by whoever asks.
-/

namespace Meshp.Accounts

open Base (Along bind_eq_ok map_eq_ok run)
open Store (Id Time)

section Functions

variable {d d' : Deployment}

theorem updateUser_ok {p : User → Bool} {f : User → User} (h : updateUser d p f = .ok d') :
    d' = { d with users := d.users.map fun u => if p u then f u else u } := by
  unfold updateUser at h
  split at h
  · cases h
    rfl
  · cases h

theorem createRoleBinding_ok {req : BindRequest} {role : Role} {out : Deployment × Binding}
    (h : createRoleBinding d req role = .ok out) :
    out.1 = d ∨ (∃ u ∈ d.users, u.id = req.user) ∧
      out.1 = { d with
        roleBindings := d.roleBindings ++
          [{ id := d.nextAccountId, roleId := role.id, userId := req.user,
             organizationId := req.organization, networkId := req.network }]
        nextAccountId := d.nextAccountId + 1 } := by
  unfold createRoleBinding at h
  split at h
  · cases h
    exact .inl rfl
  · split at h
    · cases h
    · rename_i hrows
      cases h
      exact .inr ⟨not_not.1 fun hu => hrows (.inl hu), rfl⟩

theorem bindRole_ok {req : BindRequest} {out : Deployment × Binding}
    (h : bindRole d req = .ok out) :
    out.1 = d ∨ (∃ u ∈ d.users, u.id = req.user) ∧ ∃ role : Role,
      out.1 = { d with
        roleBindings := d.roleBindings ++
          [{ id := d.nextAccountId, roleId := role.id, userId := req.user,
             organizationId := req.organization, networkId := req.network }]
        nextAccountId := d.nextAccountId + 1 } := by
  unfold bindRole at h
  split at h
  · cases h
  · rename_i role _
    obtain ⟨_, _, h⟩ := bind_eq_ok.1 h
    rcases createRoleBinding_ok h with hsame | ⟨hu, hnew⟩
    · exact .inl hsame
    · exact .inr ⟨hu, role, hnew⟩

theorem deleteRoleBinding_ok {organization id : Id}
    (h : deleteRoleBinding d organization id = .ok d') :
    d' = { d with
      roleBindings := d.roleBindings.filter fun b =>
        ¬(b.id = id ∧ b.organizationId = organization) } := by
  unfold deleteRoleBinding at h
  split at h
  · cases h
    rfl
  · cases h

theorem unbindRole_ok {organization id : Id} (h : unbindRole d organization id = .ok d') :
    d' = { d with
      roleBindings := d.roleBindings.filter fun b =>
        ¬(b.id = id ∧ b.organizationId = organization) } := by
  unfold unbindRole at h
  split at h
  · cases h
  · split at h
    · cases h
    · exact deleteRoleBinding_ok h

theorem insertUser_ok {x : Primitives} {req : CreateUserRequest} {salt : List UInt8}
    {out : Deployment × User} (h : insertUser x d req salt = .ok out) :
    out.2.id = d.nextAccountId ∧ out.2.organizationId = req.organization ∧
      out.1 = { d with users := d.users ++ [out.2], nextAccountId := d.nextAccountId + 1 } := by
  unfold insertUser at h
  simp only at h
  split at h
  · cases h
  · split at h
    · cases h
    · cases h
      exact ⟨rfl, rfl, rfl⟩

theorem createUser_ok {x : Primitives} {req : CreateUserRequest} {salt : List UInt8}
    {out : Deployment × User × Binding} (h : createUser x d req salt = .ok out) :
    ∃ d₁, insertUser x d req salt = .ok (d₁, out.2.1) ∧
      bindRole d₁ { organization := req.organization, user := out.2.1.id
                    role := firstRole d req } = .ok (out.1, out.2.2) := by
  unfold createUser at h
  obtain ⟨_, h⟩ := Base.refuseIf_bind_eq_ok.1 h
  obtain ⟨_, _, h⟩ := bind_eq_ok.1 h
  obtain ⟨⟨d₁, user⟩, hinsert, h⟩ := bind_eq_ok.1 h
  obtain ⟨⟨d₂, binding⟩, hbind, h⟩ := bind_eq_ok.1 h
  cases h
  exact ⟨d₁, hinsert, hbind⟩

theorem insertToken_ok {now : Time} {req : MintTokenRequest} {tokenHash : List UInt8}
    {out : Deployment × ApiToken} (h : insertToken now d req tokenHash = .ok out) :
    out.2.userId = req.owner ∧ out.2.organizationId = req.organization ∧
      out.1 = { d with
        apiTokens := d.apiTokens ++ [out.2], nextAccountId := d.nextAccountId + 1 } := by
  unfold insertToken at h
  simp only at h
  split at h
  · cases h
  · split at h
    · cases h
    · cases h
      exact ⟨rfl, rfl, rfl⟩

theorem mintToken_ok {now : Time} {req : MintTokenRequest} {tokenHash : List UInt8}
    {out : Deployment × ApiToken} (h : mintToken now d req tokenHash = .ok out) :
    insertToken now d req tokenHash = .ok out := by
  unfold mintToken at h
  obtain ⟨_, h⟩ := Base.refuseIf_bind_eq_ok.1 h
  obtain ⟨_, h⟩ := Base.refuseIf_bind_eq_ok.1 h
  obtain ⟨_, _, h⟩ := bind_eq_ok.1 h
  obtain ⟨_, h⟩ := Base.refuseIf_bind_eq_ok.1 h
  obtain ⟨_, _, h⟩ := bind_eq_ok.1 h
  exact h

theorem revokeToken_ok {now : Time} {organization token : Id} {owner : Option Id}
    (h : revokeToken now d organization token owner = .ok d') :
    ∃ f : ApiToken → ApiToken, (∀ t, (f t).userId = t.userId ∧
        (f t).organizationId = t.organizationId) ∧
      d' = { d with apiTokens := d.apiTokens.map f } := by
  unfold revokeToken at h
  split at h
  · cases h
  · split at h
    · cases h
    · split at h
      · cases h
        refine ⟨id, fun _ => ⟨rfl, rfl⟩, ?_⟩
        rw [List.map_id]
      · cases h
        refine ⟨_, fun t => ?_, rfl⟩
        split
        · exact ⟨rfl, rfl⟩
        · exact ⟨rfl, rfl⟩

end Functions

inductive Event
  | mesh (s : Store.Stamped)
  | ensureBuiltinRoles
  | createUser (req : CreateUserRequest) (salt : List UInt8)
  | bindRole (req : BindRequest)
  | unbindRole (organization binding : Id)
  | setUserSuspended (now : Time) (organization user : Id) (suspended : Bool)
  | deleteUser (now : Time) (organization user : Id)
  | setPassword (user : Id) (plain : String) (salt : List UInt8)
  | mintToken (now : Time) (owner : Id) (name : String) (scope : List String)
      (network : Option Id) (expiresIn : Int) (tokenHash : List UInt8)
  | revokeToken (now : Time) (organization token : Id) (owner : Option Id)

/-- `handleMintToken`: for the person signed in, in the organisation they belong to. -/
def mintOwnToken (now : Time) (d : Deployment) (owner : Id) (name : String) (scope : List String)
    (network : Option Id) (expiresIn : Int) (tokenHash : List UInt8) :
    Except Refusal Deployment :=
  match d.users.find? fun u => u.id = owner ∧ u.active with
  | none => .error .noSuchUser
  | some u =>
    (mintToken now d { organization := u.organizationId, owner := u.id, name, scope, network
                       expiresIn } tokenHash).map Prod.fst

variable (x : Primitives) (c : Enroll.Checks)

def mutate (d : Deployment) : Event → Except Refusal Deployment
  | .mesh s => .ok { d with toMesh := Store.apply c d.toMesh s }
  | .ensureBuiltinRoles => .ok (Accounts.ensureBuiltinRoles d)
  | .createUser req salt => (Accounts.createUser x d req salt).map Prod.fst
  | .bindRole req => (Accounts.bindRole d req).map Prod.fst
  | .unbindRole organization binding => Accounts.unbindRole d organization binding
  | .setUserSuspended now organization user suspended =>
    Accounts.setUserSuspended now d organization user suspended
  | .deleteUser now organization user => Accounts.deleteUser now d organization user
  | .setPassword user plain salt => Accounts.setPassword x d user plain salt
  | .mintToken now owner name scope network expiresIn tokenHash =>
    mintOwnToken now d owner name scope network expiresIn tokenHash
  | .revokeToken now organization token owner =>
    Accounts.revokeToken now d organization token owner

def apply (d : Deployment) (e : Event) : Deployment :=
  Base.attempt (fun d => mutate x c d e) d

def User.title (u : User) : Id × Id := (u.id, u.organizationId)

def titles (d : Deployment) : List (Id × Id) :=
  d.users.map User.title

theorem mem_titles {d : Deployment} {user organization : Id} :
    (user, organization) ∈ titles d ↔
      ∃ u ∈ d.users, u.id = user ∧ u.organizationId = organization := by
  simp only [titles, User.title, List.mem_map, Prod.mk.injEq]

structure Tenanted (d : Deployment) : Prop where
  below : ∀ t ∈ titles d, t.1 < d.nextAccountId
  distinct : ((titles d).map Prod.fst).Nodup
  bindings : ∀ b ∈ d.roleBindings, (b.userId, b.organizationId) ∈ titles d
  tokens : ∀ t ∈ d.apiTokens, (t.userId, t.organizationId) ∈ titles d

theorem Tenanted.unique {d : Deployment} (h : Tenanted d) {user o o' : Id}
    (ho : (user, o) ∈ titles d) (ho' : (user, o') ∈ titles d) : o = o' :=
  congrArg Prod.snd (List.inj_on_of_nodup_map h.distinct ho ho' rfl)

structure Changed (d d' : Deployment) : Prop where
  people : titles d' = titles d ∨
    ∃ o, titles d' = titles d ++ [(d.nextAccountId, o)] ∧ d.nextAccountId < d'.nextAccountId
  next : d.nextAccountId ≤ d'.nextAccountId
  bindings : ∀ b ∈ d'.roleBindings, b ∈ d.roleBindings ∨ (b.userId, b.organizationId) ∈ titles d'
  tokens : ∀ t ∈ d'.apiTokens, (∃ t₀ ∈ d.apiTokens, t.userId = t₀.userId ∧
    t.organizationId = t₀.organizationId) ∨ (t.userId, t.organizationId) ∈ titles d'

variable {d d' : Deployment}

theorem Changed.of_eq (hp : titles d' = titles d) (hn : d'.nextAccountId = d.nextAccountId)
    (hb : ∀ b ∈ d'.roleBindings, b ∈ d.roleBindings) (ht : d'.apiTokens = d.apiTokens) :
    Changed d d' :=
  ⟨.inl hp, hn.ge, fun b h => .inl (hb b h), fun t h => .inl ⟨t, ht ▸ h, rfl, rfl⟩⟩

theorem Changed.subset (h : Changed d d') : titles d ⊆ titles d' := by
  intro t ht
  rcases h.people with hsame | ⟨o, hnew, _⟩
  · rwa [hsame]
  · rw [hnew]
    exact List.mem_append_left _ ht

theorem Tenanted.changed (hd : Tenanted d) (h : Changed d d') : Tenanted d' := by
  refine ⟨?_, ?_, fun b hb => ?_, fun t ht => ?_⟩
  · intro t ht
    rcases h.people with hsame | ⟨o, hnew, hlt⟩
    · rw [hsame] at ht
      exact Nat.lt_of_lt_of_le (hd.below t ht) h.next
    · rw [hnew, List.mem_append, List.mem_singleton] at ht
      rcases ht with ht | rfl
      · exact Nat.lt_of_lt_of_le (hd.below t ht) h.next
      · exact hlt
  · rcases h.people with hsame | ⟨o, hnew, _⟩
    · rw [hsame]
      exact hd.distinct
    · rw [hnew]
      exact Base.nodup_map_concat hd.distinct fun t ht => Nat.ne_of_lt (hd.below t ht)
  · rcases h.bindings b hb with hold | hnew
    · exact h.subset (hd.bindings b hold)
    · exact hnew
  · rcases h.tokens t ht with ⟨t₀, ht₀, huser, horg⟩ | hnew
    · rw [huser, horg]
      exact h.subset (hd.tokens t₀ ht₀)
    · exact hnew

theorem updateUser_changed {p : User → Bool} {f : User → User} (hf : ∀ u, (f u).title = u.title)
    (h : updateUser d p f = .ok d') : Changed d d' := by
  rw [updateUser_ok h]
  refine .of_eq ?_ rfl (fun b hb => hb) rfl
  simp only [titles, List.map_map]
  refine List.map_congr_left fun u _ => ?_
  change (if p u then f u else u).title = u.title
  split
  · exact hf u
  · rfl

theorem bindRole_changed {req : BindRequest} {out : Deployment × Binding}
    (hin : ∀ u ∈ d.users, u.id = req.user → u.organizationId = req.organization)
    (h : bindRole d req = .ok out) : Changed d out.1 := by
  rcases bindRole_ok h with hsame | ⟨⟨u, hu, hid⟩, role, hnew⟩
  · rw [hsame]
    exact .of_eq rfl rfl (fun b hb => hb) rfl
  · rw [hnew]
    refine ⟨.inl rfl, Nat.le_succ _, fun b hb => ?_, fun t ht => .inl ⟨t, ht, rfl, rfl⟩⟩
    rcases Base.mem_concat.1 hb with hb | rfl
    · exact .inl hb
    · exact .inr (mem_titles.2 ⟨u, hu, hid, hin u hu hid⟩)

theorem createUser_tenanted {req : CreateUserRequest} {salt : List UInt8}
    {out : Deployment × User × Binding} (hd : Tenanted d)
    (h : createUser x d req salt = .ok out) : Tenanted out.1 := by
  obtain ⟨d₁, hinsert, hbind⟩ := createUser_ok h
  obtain ⟨hid, horg, hd₁⟩ := insertUser_ok hinsert
  simp only at hid horg hd₁
  have hinserted : Changed d d₁ := by
    rw [hd₁]
    refine ⟨.inr ⟨req.organization, ?_, Nat.lt_succ_self _⟩, Nat.le_succ _, fun b hb => .inl hb,
      fun t ht => .inl ⟨t, ht, rfl, rfl⟩⟩
    simp only [titles, List.map_append, List.map_singleton, User.title, hid, horg]
  have htenanted : Tenanted d₁ := hd.changed hinserted
  refine htenanted.changed (bindRole_changed (fun u hu hu' => ?_) hbind)
  refine htenanted.unique (mem_titles.2 ⟨u, hu, hu', rfl⟩) (mem_titles.2 ⟨out.2.1, ?_, rfl, horg⟩)
  rw [hd₁]
  exact List.mem_append_right _ (List.mem_singleton_self _)

theorem upsertBuiltinRole_changed (d : Deployment) (b : Authz.Builtin) :
    Changed d (upsertBuiltinRole d b) := by
  unfold upsertBuiltinRole
  split
  · exact .of_eq rfl rfl (fun _ hb => hb) rfl
  · exact ⟨.inl rfl, Nat.le_succ _, fun _ hb => .inl hb, fun t ht => .inl ⟨t, ht, rfl, rfl⟩⟩

theorem ensureBuiltinRoles_tenanted (hd : Tenanted d) : Tenanted (ensureBuiltinRoles d) :=
  Base.run_inv Tenanted (fun d b hd => hd.changed (upsertBuiltinRole_changed d b)) d
    Authz.builtins hd

theorem endSessions_changed (d : Deployment) (user : Id) : Changed d (endSessions d user) :=
  .of_eq rfl rfl (fun _ hb => hb) rfl

theorem mintOwnToken_changed {now : Time} {owner : Id} {name : String} {scope : List String}
    {network : Option Id} {expiresIn : Int} {tokenHash : List UInt8}
    (h : mintOwnToken now d owner name scope network expiresIn tokenHash = .ok d') :
    Changed d d' := by
  unfold mintOwnToken at h
  split at h
  · cases h
  · rename_i u hu
    obtain ⟨out, hmint, rfl⟩ := map_eq_ok.1 h
    obtain ⟨huser, horg, hnew⟩ := insertToken_ok (mintToken_ok hmint)
    rw [hnew]
    refine ⟨.inl rfl, Nat.le_succ _, fun b hb => .inl hb, fun t ht => ?_⟩
    rcases List.mem_append.1 ht with ht | ht
    · exact .inl ⟨t, ht, rfl, rfl⟩
    · rw [List.mem_singleton.1 ht, huser, horg]
      exact .inr (mem_titles.2 ⟨u, List.mem_of_find?_eq_some hu, rfl, rfl⟩)

def Inside (d : Deployment) : Event → Prop
  | .bindRole req => ∀ u ∈ d.users, u.id = req.user → u.organizationId = req.organization
  | _ => True

instance decidableInside (d : Deployment) (e : Event) : Decidable (Inside d e) := by
  unfold Inside
  cases e <;> infer_instance

theorem tenanted_mutate (e : Event) (hd : Tenanted d) (hin : Inside d e)
    (h : mutate x c d e = .ok d') : Tenanted d' := by
  cases e with
  | mesh s =>
    cases h
    exact hd.changed (.of_eq rfl rfl (fun b hb => hb) rfl)
  | ensureBuiltinRoles =>
    cases h
    exact ensureBuiltinRoles_tenanted hd
  | createUser req salt =>
    obtain ⟨out, hout, rfl⟩ := map_eq_ok.1 h
    exact createUser_tenanted x hd hout
  | bindRole req =>
    obtain ⟨out, hout, rfl⟩ := map_eq_ok.1 h
    exact hd.changed (bindRole_changed hin hout)
  | unbindRole organization binding =>
    rw [unbindRole_ok h]
    exact hd.changed (.of_eq rfl rfl (fun b hb => List.mem_of_mem_filter hb) rfl)
  | setUserSuspended now organization user suspended =>
    obtain ⟨d₁, hupdate, h⟩ := bind_eq_ok.1 h
    have hd₁ : Tenanted d₁ :=
      hd.changed (updateUser_changed (f := fun u => { u with
        suspendedAt := if suspended then some now else none }) (fun _ => rfl) hupdate)
    cases h
    split
    · exact hd₁.changed (endSessions_changed d₁ user)
    · exact hd₁
  | deleteUser now organization user =>
    obtain ⟨d₁, hupdate, h⟩ := bind_eq_ok.1 h
    cases h
    have hd₁ : Tenanted d₁ :=
      hd.changed (updateUser_changed (f := fun u => { u with deletedAt := some now })
        (fun _ => rfl) hupdate)
    exact hd₁.changed (endSessions_changed d₁ user)
  | setPassword user plain salt =>
    obtain ⟨_, _, h⟩ := bind_eq_ok.1 h
    obtain ⟨d₁, hupdate, h⟩ := bind_eq_ok.1 h
    cases h
    have hd₁ : Tenanted d₁ :=
      hd.changed (updateUser_changed (f := fun u => { u with
        passwordHash := some (hash x plain salt) }) (fun _ => rfl) hupdate)
    exact hd₁.changed (endSessions_changed d₁ user)
  | mintToken now owner name scope network expiresIn tokenHash =>
    exact hd.changed (mintOwnToken_changed h)
  | revokeToken now organization token owner =>
    obtain ⟨f, hf, hd'⟩ := revokeToken_ok h
    rw [hd']
    refine hd.changed ⟨.inl rfl, Nat.le_refl _, fun b hb => .inl hb, fun t ht => ?_⟩
    obtain ⟨t₀, ht₀, rfl⟩ := List.mem_map.1 ht
    exact .inl ⟨t₀, ht₀, hf t₀⟩

theorem tenanted_empty : Tenanted {} :=
  ⟨nofun, List.nodup_nil, nofun, nofun⟩

theorem tenanted_run (es : List Event) (h : Along (apply x c) Inside {} es) :
    Tenanted (run (apply x c) {} es) :=
  Base.run_inv_along Tenanted
    (fun d e hd hin => Base.attempt_inv Tenanted _ d (fun _ hok => tenanted_mutate x c e hd hin hok)
      hd) {} es tenanted_empty h

end Meshp.Accounts
