import Meshp.Authz.Permission
import Meshp.Store.Mesh

/-!
# People, Roles and Credentials

The tables that say who may act, beside the mesh they act on, and the functions
that write them. A person belongs to one organisation; a role binding grants a
role in one organisation, possibly narrowed to one of its networks; a session and
an API token stand for a person, and a token for no more than it was minted with.
-/

namespace Meshp.Accounts

open Authz
open Base (refuseIf)
open Store (Id Time Mesh)

/-- What is computed from text: `strings.ToLower`, which the database's `lower` is taken to agree
with, `sha256.Sum256`, and `argon2.IDKey` of a password, a salt, passes, memory, threads and a key
length. -/
structure Primitives where
  lower : String → String
  lower_lower : ∀ s, lower (lower s) = lower s
  sha256 : String → List UInt8
  idKey : (plain : String) → (salt : List UInt8) → (time memory threads keyLength : Nat) →
    List UInt8
  length_idKey : ∀ plain salt time memory threads keyLength,
    (idKey plain salt time memory threads keyLength).length = keyLength

structure Encoded where
  memory : Nat
  time : Nat
  threads : Nat
  salt : List UInt8
  key : List UInt8
  deriving DecidableEq

/-- What `parse` makes of a stored hash. -/
inductive PasswordHash
  | argon2id (encoded : Encoded)
  | unreadable (text : String)
  deriving DecidableEq

def defaultMemoryKiB : Nat := 64 * 1024

def defaultTime : Nat := 2

def defaultThreads : Nat := 1

def keyLength : Nat := 32

section Password

variable (x : Primitives)

/-- `password.Hash`, with the salt it draws. -/
def hash (plain : String) (salt : List UInt8) : PasswordHash :=
  .argon2id
    { memory := defaultMemoryKiB, time := defaultTime, threads := defaultThreads, salt
      key := x.idKey plain salt defaultTime defaultMemoryKiB defaultThreads keyLength }

def verify : PasswordHash → String → Bool
  | .argon2id e, plain => x.idKey plain e.salt e.time e.memory e.threads e.key.length = e.key
  | .unreadable _, _ => false

def needsRehash : PasswordHash → Bool
  | .argon2id e =>
    e.memory ≠ defaultMemoryKiB ∨ e.time ≠ defaultTime ∨ e.threads ≠ defaultThreads
  | .unreadable _ => true

end Password

structure User where
  id : Id
  organizationId : Id
  email : String
  name : String
  /-- Absent for somebody who signs in some other way. -/
  passwordHash : Option PasswordHash
  suspendedAt : Option Time := none
  deletedAt : Option Time := none
  deriving DecidableEq

def User.active (u : User) : Bool :=
  u.suspendedAt = none ∧ u.deletedAt = none

structure Role where
  id : Id
  /-- Absent for the roles every organisation shares. -/
  organizationId : Option Id
  slug : String
  name : String
  permissions : List String

structure RoleBinding where
  id : Id
  roleId : Id
  userId : Id
  organizationId : Id
  /-- Absent for a grant across the organisation. -/
  networkId : Option Id

structure UserSession where
  tokenHash : List UInt8
  userId : Id
  idleExpiresAt : Time
  expiresAt : Time

structure ApiToken where
  id : Id
  tokenHash : List UInt8
  userId : Id
  organizationId : Id
  name : String
  permissions : List String
  networkId : Option Id
  expiresAt : Time
  revokedAt : Option Time := none
  deriving DecidableEq

structure SignInFailures where
  emailHash : List UInt8
  failures : Nat
  firstFailedAt : Time
  lastFailedAt : Time

structure Deployment extends Mesh where
  users : List User := []
  roles : List Role := []
  roleBindings : List RoleBinding := []
  userSessions : List UserSession := []
  apiTokens : List ApiToken := []
  signInFailures : List SignInFailures := []
  /-- The next identifier no row of these tables has had. -/
  nextAccountId : Id := 1
  /-- When each row of the mesh was created. -/
  createdAt : Id → Time := fun _ => 0

inductive Refusal
  | invalid (message : String)
  | userExists (email : String)
  | noSuchUser
  | noSuchRole (slug : String)
  | noSuchBinding (id : Id)
  | lastOwner
  | noSuchToken
  | tokenNameTaken (name : String)
  | constraint (name : String)

variable (x : Primitives) (now : Time) (d : Deployment)

/-- `ListPermissionsInNetwork`: the roles of somebody's bindings in a network's organisation, across
it or narrowed to that network. -/
def listPermissionsInNetwork (network user : Id) : List (List String) :=
  (d.networks.filter fun n => n.id = network ∧ n.deletedAt = none).flatMap fun n =>
    (d.roleBindings.filter fun b => b.organizationId = n.organizationId ∧
        (b.networkId = none ∨ b.networkId = some n.id) ∧ b.userId = user).flatMap fun b =>
      (d.roles.filter fun r => r.id = b.roleId).map Role.permissions

/-- `ListPermissionsInOrganization`: only bindings across the organisation. -/
def listPermissionsInOrganization (organization user : Id) : List (List String) :=
  (d.roleBindings.filter fun b => b.userId = user ∧ b.organizationId = organization ∧
      b.networkId = none).flatMap fun b =>
    (d.roles.filter fun r => r.id = b.roleId).map Role.permissions

def permissionsInNetwork (network user : Id) : PermissionSet :=
  newSet (listPermissionsInNetwork d network user).flatten

def permissionsInOrganization (organization user : Id) : PermissionSet :=
  newSet (listPermissionsInOrganization d organization user).flatten

def Grants (b : RoleBinding) (p : Permission) : Prop :=
  ∃ r ∈ d.roles, r.id = b.roleId ∧ p.name ∈ r.permissions

variable {d}

theorem mem_permissionsInNetwork {network user : Id} {p : Permission} :
    p ∈ (permissionsInNetwork d network user).holds ↔
      ∃ n ∈ d.networks, (n.id = network ∧ n.deletedAt = none) ∧
        ∃ b ∈ d.roleBindings, (b.organizationId = n.organizationId ∧
          (b.networkId = none ∨ b.networkId = some n.id) ∧ b.userId = user) ∧ Grants d b p := by
  unfold permissionsInNetwork listPermissionsInNetwork Grants
  simp only [mem_holds_newSet, List.mem_flatten, List.mem_flatMap, List.mem_filter, List.mem_map,
    decide_eq_true_eq]
  constructor
  · rintro ⟨_, ⟨n, ⟨hn, hid⟩, b, ⟨hb, hscope⟩, r, ⟨hr, hrole⟩, rfl⟩, hp⟩
    exact ⟨n, hn, hid, b, hb, hscope, r, hr, hrole, hp⟩
  · rintro ⟨n, hn, hid, b, hb, hscope, r, hr, hrole, hp⟩
    exact ⟨_, ⟨n, ⟨hn, hid⟩, b, ⟨hb, hscope⟩, r, ⟨hr, hrole⟩, rfl⟩, hp⟩

variable (d)

def ownerPermissions (token : ApiToken) : Option Id → PermissionSet
  | some n => permissionsInNetwork d n token.userId
  | none => permissionsInOrganization d token.organizationId token.userId

/-- `TokenPermissions`, in a network or, with none, across the token's organisation. A token
narrowed to a network holds nothing anywhere else. -/
def tokenPermissions (token : ApiToken) (network : Option Id) : PermissionSet :=
  if token.networkId ≠ none ∧ network ≠ token.networkId then newSet []
  else newSet (token.permissions.filter fun name =>
    (ofName? name).any (ownerPermissions d token network).allows)

/-- `GetRoleForOrganizationBySlug`: the organisation's own role of that name wins over the shared
one. -/
def roleForOrganizationBySlug (organization : Id) (slug : String) : Option Role :=
  (d.roles.find? fun r => r.organizationId = some organization ∧ r.slug = slug).or
    (d.roles.find? fun r => r.organizationId = none ∧ r.slug = slug)

structure BindRequest where
  organization : Id
  user : Id
  role : String
  network : Option Id := none

/-- `Binding`: the grant a caller is told about. One that was already there has no identifier of its
own in the answer. -/
structure Binding where
  id : Option Id
  user : Id
  role : Role
  network : Option Id

def bindNetwork (organization : Id) : Option Id → Except Refusal Unit
  | none => .ok ()
  | some n =>
    match d.networks.find? fun r => r.id = n ∧ r.deletedAt = none with
    | none => .error (.invalid "that network is not in this organisation")
    | some r =>
      refuseIf (r.organizationId ≠ organization)
        (.invalid "that network is not in this organisation")

/-- `CreateRoleBinding`: nothing is inserted over the same grant. A user or an organisation that is
no row is a foreign key violation, and both are told as a user that is not there. -/
def createRoleBinding (req : BindRequest) (role : Role) : Except Refusal (Deployment × Binding) :=
  if ∃ b ∈ d.roleBindings, b.roleId = role.id ∧ b.userId = req.user ∧
      b.organizationId = req.organization ∧ b.networkId = req.network then
    .ok (d, { id := none, user := req.user, role, network := req.network })
  else if ¬(∃ u ∈ d.users, u.id = req.user) ∨ ¬∃ o ∈ d.organizations, o.id = req.organization then
    .error .noSuchUser
  else .ok
    ({ d with
        roleBindings := d.roleBindings ++
          [{ id := d.nextAccountId, roleId := role.id, userId := req.user,
             organizationId := req.organization, networkId := req.network }]
        nextAccountId := d.nextAccountId + 1 },
      { id := some d.nextAccountId, user := req.user, role, network := req.network })

def bindRole (req : BindRequest) : Except Refusal (Deployment × Binding) :=
  match roleForOrganizationBySlug d req.organization req.role with
  | none => .error (.noSuchRole req.role)
  | some role => do
    bindNetwork d req.organization req.network
    createRoleBinding d req role

/-- `GetRoleBindingForOrganization`: one grant of the organisation, and its role. -/
def roleBindingForOrganization (organization id : Id) : Option (RoleBinding × Role) :=
  (d.roleBindings.find? fun b => b.id = id ∧ b.organizationId = organization).bind fun b =>
    (d.roles.find? (·.id = b.roleId)).map (b, ·)

def countOrganizationWideBindingsOfRole (organization role : Id) : Nat :=
  (d.roleBindings.filter fun b => b.organizationId = organization ∧ b.roleId = role ∧
    b.networkId = none).length

/-- `DeleteRoleBinding`, refused when there was nothing to delete. -/
def deleteRoleBinding (organization id : Id) : Except Refusal Deployment :=
  if ∃ b ∈ d.roleBindings, b.id = id ∧ b.organizationId = organization then
    .ok { d with
      roleBindings := d.roleBindings.filter fun b =>
        ¬(b.id = id ∧ b.organizationId = organization) }
  else .error (.noSuchBinding id)

/-- `UnbindRole`: the last grant of the owner role across an organisation stays. -/
def unbindRole (organization id : Id) : Except Refusal Deployment :=
  match roleBindingForOrganization d organization id with
  | none => .error (.noSuchBinding id)
  | some (b, r) =>
    if r.slug = roleOwner ∧ b.networkId = none ∧
        countOrganizationWideBindingsOfRole d organization b.roleId ≤ 1 then
      .error .lastOwner
    else deleteRoleBinding d organization id

def upsertBuiltinRole (b : Builtin) : Deployment :=
  if ∃ r ∈ d.roles, r.organizationId = none ∧ r.slug = b.slug then
    { d with
      roles := d.roles.map fun r =>
        if r.organizationId = none ∧ r.slug = b.slug then
          { r with name := b.name, permissions := b.permissions.map Permission.name }
        else r }
  else
    { d with
      roles := d.roles ++
        [{ id := d.nextAccountId, organizationId := none, slug := b.slug, name := b.name
           permissions := b.permissions.map Permission.name }]
      nextAccountId := d.nextAccountId + 1 }

/-- `EnsureBuiltinRoles`, run at every start. -/
def ensureBuiltinRoles : Deployment :=
  builtins.foldl upsertBuiltinRole d

/-- `checkPasswordStrength`: characters at the low end, bytes at the high. -/
def checkPasswordStrength (plain : String) : Except Refusal Unit := do
  refuseIf (plain.toList.length < 12)
    (.invalid ("a password needs at least 12 characters; a passphrase of a few words is " ++
      "easier to type and harder to guess"))
  refuseIf (1024 < plain.utf8ByteSize) (.invalid "that password is too long")

structure CreateUserRequest where
  organization : Id
  email : String
  name : String := ""
  password : String
  /-- Empty takes the default. -/
  role : String := ""

def normalEmail (email : String) : String :=
  x.lower (Text.trimSpace email)

/-- `ListUsersForOrganization`, without its order. -/
def usersOf (organization : Id) : List User :=
  d.users.filter fun u => u.organizationId = organization ∧ u.deletedAt = none

/-- `CreateUser`'s insertion. -/
def insertUser (req : CreateUserRequest) (salt : List UInt8) : Except Refusal (Deployment × User) :=
  let email := normalEmail x req.email
  let user : User :=
    { id := d.nextAccountId, organizationId := req.organization, email, name := req.name
      passwordHash := some (hash x req.password salt) }
  if ∃ u ∈ d.users, u.organizationId = req.organization ∧ u.email = email then
    .error (.userExists email)
  else if ¬∃ o ∈ d.organizations, o.id = req.organization then
    .error (.constraint "users_organization_id_fkey")
  else .ok ({ d with users := d.users ++ [user], nextAccountId := d.nextAccountId + 1 }, user)

def firstRole (req : CreateUserRequest) : String :=
  if req.role ≠ "" then req.role
  else if usersOf d req.organization = [] then roleOwner
  else roleAdministrator

/-- `CreateUser`, with the salt it draws. -/
def createUser (req : CreateUserRequest) (salt : List UInt8) :
    Except Refusal (Deployment × User × Binding) := do
  let email := normalEmail x req.email
  refuseIf ('@' ∉ email.toList ∨ email.toList.any fun c => c ∈ [' ', '\t', '\r', '\n'])
    (.invalid (Text.quote email ++ " is not an email address"))
  checkPasswordStrength req.password
  let (d', user) ← insertUser x d req salt
  let (d'', binding) ← bindRole d'
    { organization := req.organization, user := user.id, role := firstRole d req }
  pure (d'', user, binding)

/-- An update of the rows of `users` that match, refused when none does. -/
def updateUser (p : User → Bool) (f : User → User) : Except Refusal Deployment :=
  if d.users.any p then .ok { d with users := d.users.map fun u => if p u then f u else u }
  else .error .noSuchUser

/-- `DeleteUserSessionsForUser`. -/
def endSessions (user : Id) : Deployment :=
  { d with userSessions := d.userSessions.filter (·.userId ≠ user) }

/-- A row `SetUserSuspended` and `SoftDeleteUser` match. -/
def here (organization user : Id) (u : User) : Bool :=
  u.id = user ∧ u.organizationId = organization ∧ u.deletedAt = none

/-- `SetUserSuspended`: suspending ends every session they hold. -/
def setUserSuspended (organization user : Id) (suspended : Bool) : Except Refusal Deployment := do
  let d' ← updateUser d (here organization user) fun u =>
    { u with suspendedAt := if suspended then some now else none }
  pure (if suspended then endSessions d' user else d')

/-- `DeleteUser`: the row stays, and their sessions go. -/
def deleteUser (organization user : Id) : Except Refusal Deployment := do
  let d' ← updateUser d (here organization user) fun u => { u with deletedAt := some now }
  pure (endSessions d' user)

def setUserPasswordHash (user : Id) (h : PasswordHash) : Except Refusal Deployment :=
  updateUser d (fun u => u.id = user ∧ u.deletedAt = none) fun u => { u with passwordHash := some h }

/-- `SetPassword`, with the salt it draws. -/
def setPassword (user : Id) (plain : String) (salt : List UInt8) : Except Refusal Deployment := do
  checkPasswordStrength plain
  let d' ← setUserPasswordHash d user (hash x plain salt)
  pure (endSessions d' user)

/-- `GetUserSession`: whose live session this is. -/
def getUserSession (tokenHash : List UInt8) : Option User :=
  (d.userSessions.find? fun s =>
      s.tokenHash = tokenHash ∧ now < s.idleExpiresAt ∧ now < s.expiresAt).bind fun s =>
    d.users.find? fun u => u.id = s.userId ∧ u.active

/-- `GetAPITokenByHash`: a live token of an active person. -/
def getApiTokenByHash (tokenHash : List UInt8) : Option ApiToken :=
  d.apiTokens.find? fun t => t.tokenHash = tokenHash ∧ t.revokedAt = none ∧ now < t.expiresAt ∧
    ∃ u ∈ d.users, u.id = t.userId ∧ u.active

structure MintTokenRequest where
  organization : Id
  owner : Id
  name : String
  scope : List String
  network : Option Id := none
  /-- In microseconds; not positive takes the default. -/
  expiresIn : Int := 0

/-- `DefaultTokenLife`: ninety days. -/
def defaultTokenLife : Nat := 90 * 24 * 3600 * 1000000

/-- `MaxTokenLife`: a year. -/
def maxTokenLife : Nat := 365 * 24 * 3600 * 1000000

def tokenLife (expiresIn : Int) : Nat :=
  if expiresIn ≤ 0 then defaultTokenLife else expiresIn.toNat

def mintHeld (req : MintTokenRequest) : PermissionSet :=
  match req.network with
  | some n => permissionsInNetwork d n req.owner
  | none => permissionsInOrganization d req.organization req.owner

/-- `CreateAPIToken`. A live token holds its name among its owner's. -/
def insertToken (req : MintTokenRequest) (tokenHash : List UInt8) :
    Except Refusal (Deployment × ApiToken) :=
  let token : ApiToken :=
    { id := d.nextAccountId, tokenHash, userId := req.owner, organizationId := req.organization
      name := Text.trimSpace req.name, permissions := req.scope, networkId := req.network
      expiresAt := now + tokenLife req.expiresIn }
  if ∃ t ∈ d.apiTokens, t.tokenHash = tokenHash ∨
      t.userId = req.owner ∧ t.name = token.name ∧ t.revokedAt = none then
    .error (.tokenNameTaken token.name)
  else if ¬∃ u ∈ d.users, u.id = req.owner then .error (.constraint "api_tokens_user_id_fkey")
  else .ok ({ d with apiTokens := d.apiTokens ++ [token], nextAccountId := d.nextAccountId + 1 },
    token)

/-- `MintToken`, with the hash of the secret it draws. -/
def mintToken (req : MintTokenRequest) (tokenHash : List UInt8) :
    Except Refusal (Deployment × ApiToken) := do
  refuseIf (Text.trimSpace req.name = "")
    (.invalid "a token needs a name; it is how you will know which one to revoke")
  refuseIf (req.scope = [])
    (.invalid "say what the token may do; see GET /api/v1/permissions for the catalogue")
  req.scope.forM fun name => refuseIf (known name = false)
    (.invalid (Text.quote name ++ " is not a permission; see GET /api/v1/permissions"))
  refuseIf (maxTokenLife < tokenLife req.expiresIn)
    (.invalid "a token may live at most 365 days; there is no unexpiring token, on purpose")
  req.scope.forM fun name => refuseIf ((ofName? name).any (mintHeld d req).allows = false)
    (.invalid ("you do not hold " ++ name ++ " here, so a token of yours could never use it"))
  insertToken now d req tokenHash

/-- `RevokeToken`: of an organisation, or with an owner only of theirs. Revoking again changes
nothing. -/
def revokeToken (organization token : Id) (owner : Option Id) : Except Refusal Deployment :=
  match d.apiTokens.find? fun t => t.id = token ∧ t.organizationId = organization with
  | none => .error .noSuchToken
  | some t =>
    if owner ≠ none ∧ owner ≠ some t.userId then .error .noSuchToken
    else if t.revokedAt ≠ none then .ok d
    else .ok { d with
      apiTokens := d.apiTokens.map fun t =>
        if t.id = token ∧ t.organizationId = organization ∧ t.revokedAt = none then
          { t with revokedAt := some now }
        else t }

def transparent : Primitives where
  lower s := s
  lower_lower _ := rfl
  sha256 s := s.toList.map fun ch => UInt8.ofNat ch.toNat
  idKey plain salt _ _ _ keyLength :=
    ((plain.toList.map fun ch => UInt8.ofNat ch.toNat) ++ salt).takeD keyLength 0
  length_idKey _ _ _ _ _ keyLength := List.takeD_length keyLength _ 0

end Meshp.Accounts
