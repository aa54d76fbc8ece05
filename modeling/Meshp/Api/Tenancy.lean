import Meshp.Api.Gate

/-!
# What a Tenant Sees of the Others

Two endpoints name no tenant in their path: the networks, and the organisations.
What they answer is meant to be the caller's own, except for the administrative
secret, which belongs to no organisation and sees everything.
-/

namespace Meshp.Api

open Authz
open Base (filter_concat_of_neg)
open Accounts (Deployment Primitives RoleBinding User ownerPermissions transparent)
open Store (Id Network Organization Time)

structure NetworkSummary where
  id : Id
  slug : String
  name : String
  organizationId : Id
  organizationSlug : String
  stateVersion : Nat
  createdAt : Time
  activeDeviceCount : Nat

structure OrganizationSummary where
  id : Id
  slug : String
  name : String
  createdAt : Time
  networkCount : Nat

variable (x : Primitives) (cfg : Config) (now : Time) (d : Deployment)

def networkSummary (n : Network) (o : Organization) : NetworkSummary where
  id := n.id
  slug := n.slug
  name := n.name
  organizationId := n.organizationId
  organizationSlug := o.slug
  stateVersion := n.stateVersion
  createdAt := d.createdAt n.id
  activeDeviceCount :=
    ((d.memberships.filter (·.networkId = n.id)).filter (·.state = .active)).length

def networkRows (networks : List Network) : List NetworkSummary :=
  (networks.filter (·.deletedAt = none)).flatMap fun n =>
    (d.organizations.filter (·.id = n.organizationId)).map (networkSummary d n)

/-- `ORDER BY o.slug, n.slug`. -/
def inOrder (a b : NetworkSummary) : Bool :=
  let le := cfg.collation.le
  if le b.organizationSlug a.organizationSlug then
    le a.organizationSlug b.organizationSlug && le a.slug b.slug
  else le a.organizationSlug b.organizationSlug

def listAllNetworks : List NetworkSummary :=
  (networkRows d d.networks).insertionSort fun a b => inOrder cfg a b

/-- `ListNetworksForOrganizationWithCounts`. -/
def listNetworksForOrganization (o : Id) : List NetworkSummary :=
  (networkRows d (d.networks.filter (·.organizationId = o))).insertionSort fun a b =>
    inOrder cfg a b

/-- `handleListNetworks`: a person's own organisation, and otherwise all. -/
def handleListNetworks (c : Option Caller) : List NetworkSummary :=
  match c with
  | some (.user u) => listNetworksForOrganization cfg d u.organizationId
  | _ => listAllNetworks cfg d

def organizationSummary (o : Organization) : OrganizationSummary where
  id := o.id
  slug := o.slug
  name := o.name
  createdAt := d.createdAt o.id
  networkCount :=
    ((d.networks.filter (·.organizationId = o.id)).filter (·.deletedAt = none)).length

/-- `ListOrganizations`. -/
def listAllOrganizations : List OrganizationSummary :=
  ((d.organizations.filter (·.deletedAt = none)).map (organizationSummary d)).insertionSort
    fun a b => cfg.collation.le a.slug b.slug

/-- `handleListOrganizations`: all but the caller's own are taken out, when it has one. -/
def handleListOrganizations (c : Option Caller) : List OrganizationSummary :=
  match c.bind callerOrganization with
  | some mine => (listAllOrganizations cfg d).filter (·.id = mine)
  | none => listAllOrganizations cfg d

/-- `GET /api/v1/networks`. -/
def listNetworks (s : Sender) : Except Fault (List NetworkSummary) :=
  (gate x cfg now d s .listNetworks).map (handleListNetworks cfg d)

/-- `GET /api/v1/organizations`. -/
def listOrganizations (s : Sender) : Except Fault (List OrganizationSummary) :=
  (gate x cfg now d s .listOrganizations).map (handleListOrganizations cfg d)

/-- Every row of an organisation is the same in both deployments: its own, its networks and their
members, its people and their credentials, and its grants with the roles they grant. -/
structure AgreeOn (o : Id) (d d' : Deployment) : Prop where
  organizations : d'.organizations.filter (·.id = o) = d.organizations.filter (·.id = o)
  networks : d'.networks.filter (·.organizationId = o) = d.networks.filter (·.organizationId = o)
  memberships : ∀ n ∈ d.networks, n.organizationId = o →
    d'.memberships.filter (·.networkId = n.id) = d.memberships.filter (·.networkId = n.id)
  users : d'.users.filter (·.organizationId = o) = d.users.filter (·.organizationId = o)
  userSessions : ∀ u ∈ d.users, u.organizationId = o →
    d'.userSessions.filter (·.userId = u.id) = d.userSessions.filter (·.userId = u.id)
  apiTokens : d'.apiTokens.filter (·.organizationId = o) =
    d.apiTokens.filter (·.organizationId = o)
  roleBindings : d'.roleBindings.filter (·.organizationId = o) =
    d.roleBindings.filter (·.organizationId = o)
  roles : ∀ b ∈ d.roleBindings, b.organizationId = o →
    d'.roles.filter (·.id = b.roleId) = d.roles.filter (·.id = b.roleId)
  createdAt : d'.createdAt o = d.createdAt o
  networkCreatedAt : ∀ n ∈ d.networks, n.organizationId = o →
    d'.createdAt n.id = d.createdAt n.id

variable {x cfg now d} {d' : Deployment} {o : Id}

theorem filter_within {α : Type} {rows rows' : List α} {mine p : α → Bool}
    (h : rows'.filter mine = rows.filter mine) :
    (rows'.filter fun a => p a && mine a) = rows.filter fun a => p a && mine a := by
  rw [← List.filter_filter, ← List.filter_filter, h]

theorem listPermissionsInOrganization_agree (h : AgreeOn o d d') (user : Id) :
    Accounts.listPermissionsInOrganization d' o user =
      Accounts.listPermissionsInOrganization d o user := by
  have hshape : ∀ rows : List RoleBinding,
      (rows.filter fun b => b.userId = user ∧ b.organizationId = o ∧ b.networkId = none) =
        rows.filter fun b => decide (b.userId = user ∧ b.networkId = none) &&
          decide (b.organizationId = o) := by
    intro rows
    refine List.filter_congr fun b _ => ?_
    rw [Bool.eq_iff_iff]
    simp only [Bool.and_eq_true, decide_eq_true_eq]
    tauto
  unfold Accounts.listPermissionsInOrganization
  rw [hshape, hshape, filter_within h.roleBindings]
  refine List.flatMap_congr fun b hb => ?_
  rcases List.mem_filter.1 hb with ⟨hmem, hsel⟩
  have hbo : b.organizationId = o := by
    simp only [Bool.and_eq_true, decide_eq_true_eq] at hsel
    exact hsel.2
  rw [h.roles b hmem hbo]

theorem permissionsInOrganization_agree (h : AgreeOn o d d') {c : Caller}
    (hc : callerOrganization c = some o) :
    permissionsInOrganization d' c o = permissionsInOrganization d c o := by
  cases c with
  | bootstrap => rfl
  | user u =>
    simp only [permissionsInOrganization, Accounts.permissionsInOrganization,
      listPermissionsInOrganization_agree h]
  | token t =>
    have hto : t.organizationId = o := by simpa [callerOrganization] using hc
    have howner : ownerPermissions d' t none = ownerPermissions d t none := by
      simp only [ownerPermissions, Accounts.permissionsInOrganization, hto,
        listPermissionsInOrganization_agree h]
    simp only [permissionsInOrganization, Accounts.tokenPermissions, howner]

theorem listNetworks_eq {s : Sender} {c : Caller} (hc : identify x cfg now d s = some c)
    (ho : callerOrganization c = some o) :
    listNetworks x cfg now d s =
      (requires (permissionsInOrganization d c o) .organizationNetworksRead).map fun _ =>
        handleListNetworks cfg d (some c) := by
  have hadmits : Endpoint.listNetworks.guard.admits d c =
      requires (permissionsInOrganization d c o) .organizationNetworksRead := by
    simp only [Endpoint.guard, Guard.admits, ho]
  have hopen : Endpoint.listNetworks.guard ≠ .unguarded := by decide
  have hlimit : Endpoint.listNetworks.guard ≠ .throttled := by decide
  rw [listNetworks, gate_eq hc hopen hlimit, gateAs_safe c rfl, hadmits]
  cases requires (permissionsInOrganization d c o) .organizationNetworksRead with
  | error f => rfl
  | ok u => rfl

theorem listOrganizations_eq {s : Sender} {c : Caller} (hc : identify x cfg now d s = some c) :
    listOrganizations x cfg now d s = .ok (handleListOrganizations cfg d (some c)) := by
  have hopen : Endpoint.listOrganizations.guard ≠ .unguarded := by decide
  have hlimit : Endpoint.listOrganizations.guard ≠ .throttled := by decide
  rw [listOrganizations, gate_eq hc hopen hlimit, gateAs_safe c rfl]
  rfl

theorem listNetworksForOrganization_agree (h : AgreeOn o d d') :
    listNetworksForOrganization cfg d' o = listNetworksForOrganization cfg d o := by
  have hrows : networkRows d' (d'.networks.filter (·.organizationId = o)) =
      networkRows d (d.networks.filter (·.organizationId = o)) := by
    unfold networkRows
    rw [h.networks]
    refine List.flatMap_congr fun n hn => ?_
    have hmine := List.mem_filter.1 (List.mem_filter.1 hn).1
    have hno : n.organizationId = o := by simpa using hmine.2
    rw [hno, h.organizations]
    refine List.map_congr_left fun r _ => ?_
    simp only [networkSummary, h.memberships n hmine.1 hno, h.networkCreatedAt n hmine.1 hno]
  simp only [listNetworksForOrganization, hrows]

theorem ownOrganization_agree (h : AgreeOn o d d') :
    (listAllOrganizations cfg d').filter (·.id = o) =
      (listAllOrganizations cfg d).filter (·.id = o) := by
  have htotal : Std.Total fun a b : OrganizationSummary =>
      cfg.collation.le a.slug b.slug = true := ⟨fun a b => cfg.collation.total _ _⟩
  have htrans : IsTrans OrganizationSummary fun a b =>
      cfg.collation.le a.slug b.slug = true := ⟨fun a b c => cfg.collation.trans _ _ _⟩
  have hrows : ∀ e : Deployment, (((e.organizations.filter (·.deletedAt = none)).map
      (organizationSummary e)).filter (·.id = o)) =
        ((e.organizations.filter (·.id = o)).filter (·.deletedAt = none)).map
          (organizationSummary e) := by
    intro e
    rw [List.filter_map, List.filter_filter, List.filter_filter]
    congr 1
    refine List.filter_congr fun r _ => ?_
    exact Bool.and_comm _ _
  unfold listAllOrganizations
  rw [Base.filter_sort, Base.filter_sort, hrows, hrows, h.organizations]
  congr 1
  refine List.map_congr_left fun r hr => ?_
  have hro : r.id = o := by simpa using (List.mem_filter.1 (List.mem_filter.1 hr).1).2
  simp only [organizationSummary, hro, h.createdAt, h.networks]

def unusedOrganization (d : Deployment) (o : Id) : Id :=
  (o :: d.organizations.map Organization.id ++ d.networks.map Network.organizationId).foldr max 0
    + 1

theorem lt_unused {i : Id} (hi : i ∈ o :: d.organizations.map Organization.id ++
    d.networks.map Network.organizationId) : i < unusedOrganization d o := by
  have hle : ∀ l : List Id, i ∈ l → i ≤ l.foldr max 0 := by
    intro l
    induction l with
    | nil => exact nofun
    | cons j l ih =>
      intro h
      rcases List.mem_cons.1 h with rfl | h
      · exact le_max_left _ _
      · exact le_max_of_le_right (ih h)
  exact Nat.lt_succ_of_le (hle _ hi)

def theirs (d : Deployment) (o : Id) : Network :=
  { id := d.nextId, organizationId := unusedOrganization d o, slug := "theirs", name := "theirs" }

def withTenant (d : Deployment) (o : Id) : Deployment :=
  { d with
    organizations := d.organizations ++
      [{ id := unusedOrganization d o, slug := "other", name := "Other" }]
    networks := d.networks ++ [theirs d o] }

theorem agreeOn_withTenant (d : Deployment) (o : Id) : AgreeOn o d (withTenant d o) := by
  have hne : unusedOrganization d o ≠ o :=
    (Nat.ne_of_lt (lt_unused (List.mem_append_left _ (.head _)))).symm
  refine ⟨?_, ?_, fun _ _ _ => rfl, rfl, fun _ _ _ => rfl, rfl, rfl, fun _ _ _ => rfl, rfl,
    fun _ _ _ => rfl⟩
  · exact filter_concat_of_neg _ (decide_eq_false hne)
  · exact filter_concat_of_neg _ (decide_eq_false hne)

theorem length_listAllNetworks_withTenant (cfg : Config) (d : Deployment) (o : Id) :
    (listAllNetworks cfg (withTenant d o)).length = (listAllNetworks cfg d).length + 1 := by
  have hfresh : ∀ n ∈ d.networks, n.organizationId ≠ unusedOrganization d o := fun n hn =>
    Nat.ne_of_lt (lt_unused (List.mem_append_right _ (List.mem_map_of_mem hn)))
  have hnew : d.organizations.filter (·.id = unusedOrganization d o) = [] := by
    rw [List.filter_eq_nil_iff]
    intro r hr
    have hlt := lt_unused (d := d) (o := o)
      (List.mem_append_left _ (.tail _ (List.mem_map_of_mem hr)))
    simpa using Nat.ne_of_lt hlt
  have hold : networkRows (withTenant d o) d.networks = networkRows d d.networks := by
    unfold networkRows
    refine List.flatMap_congr fun n hn => ?_
    have hno := (hfresh n (List.mem_filter.1 hn).1).symm
    have horgs : (withTenant d o).organizations.filter (·.id = n.organizationId) =
        d.organizations.filter (·.id = n.organizationId) :=
      filter_concat_of_neg _ (decide_eq_false hno)
    rw [horgs]
    rfl
  have hrows : networkRows (withTenant d o) (withTenant d o).networks =
      networkRows d d.networks ++ networkRows (withTenant d o) [theirs d o] := by
    rw [← hold]
    simp only [networkRows, withTenant, List.filter_append, List.flatMap_append]
  have hone : (networkRows (withTenant d o) [theirs d o]).length = 1 := by
    simp [networkRows, withTenant, theirs, hnew]
  simp only [listAllNetworks, List.length_insertionSort, hrows, List.length_append, hone]

/-- A person or a token of an organisation is answered from the rows of that organisation alone,
unless it is a token that may list networks. -/
theorem responses_confined_iff (x : Primitives) (cfg : Config) (now : Time) (d : Deployment)
    (s : Sender) (c : Caller) (o : Id) (hc : identify x cfg now d s = some c)
    (ho : callerOrganization c = some o) :
    (∀ d' : Deployment, AgreeOn o d d' → identify x cfg now d' s = some c →
      listNetworks x cfg now d' s = listNetworks x cfg now d s ∧
        listOrganizations x cfg now d' s = listOrganizations x cfg now d s) ↔
      ¬(c.isPerson = false ∧
        (permissionsInOrganization d c o).allows .organizationNetworksRead = true) := by
  constructor
  · rintro hsame ⟨hmachine, hheld⟩
    -- One more tenant changes nothing of this one's, and its network is listed.
    have hagree := agreeOn_withTenant d o
    have heq := (hsame (withTenant d o) hagree hc).1
    have hpass : requires (permissionsInOrganization d c o) .organizationNetworksRead = .ok () :=
      Base.refuseIf_eq_ok.2 (by rw [hheld]; decide)
    rw [listNetworks_eq (d := withTenant d o) hc ho, listNetworks_eq hc ho,
      permissionsInOrganization_agree hagree ho, hpass] at heq
    have hall : ∀ e : Deployment, handleListNetworks cfg e (some c) = listAllNetworks cfg e := by
      intro e
      cases c with
      | user u => cases hmachine
      | token t => rfl
      | bootstrap => rfl
    have hlists : listAllNetworks cfg (withTenant d o) = listAllNetworks cfg d := by
      rw [← hall, ← hall]
      exact Except.ok.inj heq
    have hlen := length_listAllNetworks_withTenant cfg d o
    rw [hlists] at hlen
    omega
  · intro hnot d' hagree hc'
    constructor
    · rw [listNetworks_eq hc' ho, listNetworks_eq hc ho, permissionsInOrganization_agree hagree ho]
      cases c with
      | bootstrap => cases ho
      | user u =>
        cases ho
        simp only [handleListNetworks, listNetworksForOrganization_agree hagree]
      | token t =>
        -- Refused, and with the same words.
        have hrefused : (permissionsInOrganization d (.token t) o).allows
            .organizationNetworksRead = false := by
          cases hheld : (permissionsInOrganization d (.token t) o).allows
            .organizationNetworksRead with
          | false => rfl
          | true => exact absurd ⟨rfl, hheld⟩ hnot
        simp only [requires, Base.refuseIf, if_pos hrefused, Except.map]
    · rw [listOrganizations_eq hc', listOrganizations_eq hc]
      simp only [handleListOrganizations, Option.bind_some, ho, ownOrganization_agree hagree]

def plainly : Config where
  adminToken := ""
  collation :=
    { le := fun a b => decide (a.toList.length ≤ b.toList.length)
      total := fun a b => by simpa using Nat.le_total a.toList.length b.toList.length
      trans := fun a b c hab hbc => by
        simp only [decide_eq_true_eq] at hab hbc ⊢
        exact hab.trans hbc }

def machineSecret : String := "meshp_api_aaaaaaaaaaaaaaaaaaaaaaaaaaaaaaaa"

def somebody : User :=
  { id := 1, organizationId := 1, email := "a@acme", name := "", passwordHash := none }

def acme : Deployment where
  organizations := [{ id := 1, slug := "acme", name := "Acme" }]
  networks := [{ id := 2, organizationId := 1, slug := "core", name := "core" }]
  nextId := 3
  users := [somebody]
  userSessions := [{ tokenHash := transparent.sha256 "cookie", userId := 1
                     idleExpiresAt := 10, expiresAt := 10 }]
  roles := [{ id := 2, organizationId := none, slug := roleReader, name := "Reader"
              permissions := readerPermissions.map Permission.name }]
  roleBindings := [{ id := 3, roleId := 2, userId := 1, organizationId := 1, networkId := none }]
  apiTokens := [{ id := 4, tokenHash := transparent.sha256 machineSecret, userId := 1
                  organizationId := 1, name := "ci", permissions := ["organization.networks.read"]
                  networkId := none, expiresAt := 10 }]
  nextAccountId := 5

def machine : Sender where
  authorization := "Bearer " ++ machineSecret

def browser : Sender where
  cookie := "cookie"

theorem responses_confined_acme :
    identify transparent plainly 0 acme browser = some (.user somebody) ∧
      ∀ d' : Deployment, AgreeOn 1 acme d' →
        identify transparent plainly 0 d' browser = some (.user somebody) →
        listNetworks transparent plainly 0 d' browser =
            listNetworks transparent plainly 0 acme browser ∧
          listOrganizations transparent plainly 0 d' browser =
            listOrganizations transparent plainly 0 acme browser := by
  refine (and_iff_left_of_imp fun hc => ?_).2 (by decide +kernel)
  exact (responses_confined_iff _ _ _ _ _ (.user somebody) 1 hc rfl).2 fun h => nomatch h.1

/-- The machine is told of another tenant's network. -/
theorem another_tenant_listed :
    AgreeOn 1 acme (withTenant acme 1) ∧
      (identify transparent plainly 0 acme machine).bind callerOrganization = some 1 ∧
      identify transparent plainly 0 (withTenant acme 1) machine =
        identify transparent plainly 0 acme machine ∧
      ((listNetworks transparent plainly 0 acme machine).toOption.map
        (·.map NetworkSummary.organizationId)) = some [1] ∧
      ((listNetworks transparent plainly 0 (withTenant acme 1) machine).toOption.map
        (·.map NetworkSummary.organizationId)) = some [1, 2] := by
  refine ⟨agreeOn_withTenant acme 1, ?_, ?_, ?_, ?_⟩ <;> decide +kernel

end Meshp.Api
