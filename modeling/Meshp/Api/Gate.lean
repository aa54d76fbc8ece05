import Meshp.Accounts.SignIn
import Meshp.Store.History

/-!
# Who Is Asking, and Whether They May

Every endpoint names what it takes to reach it: nothing, any identified caller,
the deployment's own secret, or a permission held in the network it names, across
the organisation it names, or across the caller's own. The gate identifies the
caller, refuses a browser's write that came from another site, and then asks what
the guard asks.
-/

namespace Meshp.Api

open Authz
open Accounts (ApiToken Deployment Primitives User)
open Base (refuseIf)
open Netip (Prefix)
open Store (Id Time)

/-- `caller`: who a request is. -/
inductive Caller
  | user (u : User)
  | token (t : ApiToken)
  /-- The administrative secret. -/
  | bootstrap
  deriving DecidableEq

def Caller.isPerson : Caller → Bool
  | .user _ => true
  | _ => false

def callerOrganization : Caller → Option Id
  | .user u => some u.organizationId
  | .token t => some t.organizationId
  | .bootstrap => none

structure Collation where
  le : String → String → Bool
  total : ∀ a b, le a b = true ∨ le b a = true
  trans : ∀ a b c, le a b = true → le b c = true → le a c = true

structure Config where
  /-- Empty when there is none. -/
  adminToken : String
  collation : Collation

structure Sender where
  /-- The session cookie's value, empty when there is none. -/
  cookie : String := ""
  /-- The `Authorization` header. -/
  authorization : String := ""
  /-- What `sameOrigin` says of it. -/
  sameOrigin : Bool := true
  /-- What the rate limiter says of it. -/
  underLimit : Bool := true

/-- `bearer`: what follows the scheme, if anything does. -/
def bearer (authorization : String) : String :=
  let scheme := "Bearer ".toList
  if scheme.isPrefixOf authorization.toList then
    String.ofList (authorization.toList.drop scheme.length)
  else ""

/-- `APITokenPrefix`. -/
def apiTokenScheme : List Char := "meshp_api_".toList

/-- `secret.LooksLike`, for an API token. -/
def looksLikeToken (presented : String) : Bool :=
  apiTokenScheme.isPrefixOf (Text.trimSpace presented).toList

def decodedLength (n : Nat) : Nat :=
  5 * (n / 8) + match n % 8 with
    | 2 => 1
    | 4 => 2
    | 5 => 3
    | 7 => 4
    | _ => 0

/-- Characters of `encoding`'s alphabet. -/
def isBase32 (c : Char) : Bool :=
  ('a' ≤ c && c ≤ 'z') || ('2' ≤ c && c ≤ '7')

/-- `secret.Hash`, for an API token: twenty bytes of lower case base32 behind the scheme. Line
breaks inside are skipped by the decoder and hashed all the same. -/
def hashToken (x : Primitives) (presented : String) : Option (List UInt8) :=
  let plaintext := Text.trimSpace presented
  let encoded := (plaintext.toList.drop apiTokenScheme.length).filter fun c => c ≠ '\r' ∧ c ≠ '\n'
  if apiTokenScheme.isPrefixOf plaintext.toList ∧ encoded.all isBase32 ∧
      decodedLength encoded.length = 20 then
    some (x.sha256 plaintext)
  else none

section Identify

variable (x : Primitives) (cfg : Config) (now : Time) (d : Deployment)

def sessionUser (cookie : String) : Option User :=
  if cookie = "" then none else Accounts.getUserSession now d (x.sha256 cookie)

def findToken (presented : String) : Option ApiToken :=
  (hashToken x presented).bind (Accounts.getApiTokenByHash now d)

/-- `identify`: a person first, then the secret, then a token. -/
def identify (s : Sender) : Option Caller :=
  match sessionUser x now d s.cookie with
  | some u => some (.user u)
  | none =>
    let presented := bearer s.authorization
    if cfg.adminToken ≠ "" ∧ presented = cfg.adminToken then some .bootstrap
    else if looksLikeToken presented then (findToken x now d presented).map .token
    else none

end Identify

def permissionsInNetwork (d : Deployment) (c : Caller) (n : Id) : PermissionSet :=
  match c with
  | .bootstrap => .everything
  | .token t => Accounts.tokenPermissions d t (some n)
  | .user u => Accounts.permissionsInNetwork d n u.id

/-- `permissionsInOrganization`: a token asked about another organisation than its own holds nothing
there. -/
def permissionsInOrganization (d : Deployment) (c : Caller) (o : Id) : PermissionSet :=
  match c with
  | .bootstrap => .everything
  | .token t =>
    if t.organizationId ≠ o then newSet [] else Accounts.tokenPermissions d t none
  | .user u => Accounts.permissionsInOrganization d o u.id

/-- `guardKind`, with the scope and the permission where one is checked. -/
inductive Guard
  /-- Unauthenticated and rate limited. -/
  | throttled
  /-- Unauthenticated. -/
  | unguarded
  | signedIn
  | bootstrap
  | network (n : Id) (p : Permission)
  | organization (o : Id) (p : Permission)
  | callerOrganization (p : Permission)
  deriving DecidableEq

/-- `routes`: every endpoint, with its path's arguments and its body as far as a table changes by
it, and what it draws at random. -/
inductive Endpoint
  | challenge
  | redeem (req : Enroll.RedeemRequest)
  | sessionChallenge
  | session
  | createToken (n : Id) (tokenHash : List UInt8) (tags : List String) (maxUses : Nat)
      (expiresAt : Time)
  | listTokens (n : Id)
  | revokeToken (n token : Id)
  | listMemberships (n : Id)
  | revokeMembership (n membership : Id)
  | listDNSRecords (n : Id)
  | createDNSRecord (req : Store.CreateDNSRecordRequest)
  | deleteDNSRecord (n record : Id)
  | getPolicy (n : Id)
  | publishPolicy (n : Id) (doc : Acl.Document)
  | testPolicy (n : Id)
  | listPolicyVersions (n : Id)
  | createOrganization (slug name : String)
  | listRelays
  | setRelayState (relay : String)
  | listOrganizations
  | createUser (req : Accounts.CreateUserRequest) (salt : List UInt8)
  | listUsers (o : Id)
  | setUserSuspended (o user : Id) (suspended : Bool)
  | setUserPassword (o user : Id) (password : String) (salt : List UInt8)
  | forgetDevice (o device : Id)
  | deleteUser (o user : Id)
  | listRoles (o : Id)
  | listUserRoles (o user : Id)
  | grantRole (req : Accounts.BindRequest)
  | revokeRole (o user binding : Id)
  | whoAmI
  | changeOwnPassword (current new : String) (salt : List UInt8) (draws : Accounts.Draws)
  | listPermissions
  | listOwnPermissions (n : Option Id)
  | mintToken (name : String) (scope : List String) (network : Option Id) (expiresIn : Int)
      (tokenHash : List UInt8)
  | listOwnTokens
  | revokeOwnToken (token : Id)
  | listOrganizationTokens (o : Id)
  | revokeOrganizationToken (o token : Id)
  | createNetwork (o : Option Id) (slug name : String) (pools : List Prefix)
  | listNetworks
  | networkOverview (n : Id)
  | listAuditEvents (n : Id)
  | uiLogin (email password organization : String) (draws : Accounts.Draws)
  | uiLogout
  | getEgressFailClosed (n : Id)
  | setEgressFailClosed (n : Id) (enforced : Bool)
  | listRouteGroups (n : Id)
  | createRouteGroup (req : Store.CreateRouteGroupRequest)
  | deleteRouteGroup (n : Id) (slug : String)
  | advertise (req : Store.AdvertiseRequest)
  | withdraw (n : Id) (slug : String) (membership : Id)
  | setRouteGroupFailover (n : Id) (slug : String) (policy : Store.FailoverPolicy)

def Endpoint.guard : Endpoint → Guard
  | .challenge => .throttled
  | .redeem _ => .throttled
  | .sessionChallenge => .throttled
  | .session => .unguarded
  | .createToken n .. => .network n .networkEnrollmentTokensWrite
  | .listTokens n => .network n .networkEnrollmentTokensRead
  | .revokeToken n _ => .network n .networkEnrollmentTokensWrite
  | .listMemberships n => .network n .networkDevicesRead
  | .revokeMembership n _ => .network n .networkDevicesRevoke
  | .listDNSRecords n => .network n .networkDNSRead
  | .createDNSRecord req => .network req.networkId .networkDNSWrite
  | .deleteDNSRecord n _ => .network n .networkDNSWrite
  | .getPolicy n => .network n .networkACLRead
  | .publishPolicy n _ => .network n .networkACLWrite
  | .testPolicy n => .network n .networkACLWrite
  | .listPolicyVersions n => .network n .networkACLRead
  | .createOrganization .. => .bootstrap
  | .listRelays => .bootstrap
  | .setRelayState _ => .bootstrap
  | .listOrganizations => .signedIn
  | .createUser req _ => .organization req.organization .organizationUsersWrite
  | .listUsers o => .organization o .organizationUsersRead
  | .setUserSuspended o .. => .organization o .organizationUsersWrite
  | .setUserPassword o .. => .organization o .organizationUsersWrite
  | .forgetDevice o _ => .organization o .organizationDevicesForget
  | .deleteUser o _ => .organization o .organizationUsersWrite
  | .listRoles o => .organization o .organizationRolesRead
  | .listUserRoles o _ => .organization o .organizationRolesRead
  | .grantRole req => .organization req.organization .organizationRolesBind
  | .revokeRole o .. => .organization o .organizationRolesBind
  | .whoAmI => .signedIn
  | .changeOwnPassword .. => .signedIn
  | .listPermissions => .signedIn
  | .listOwnPermissions _ => .signedIn
  | .mintToken .. => .signedIn
  | .listOwnTokens => .signedIn
  | .revokeOwnToken _ => .signedIn
  | .listOrganizationTokens o => .organization o .organizationTokensRead
  | .revokeOrganizationToken o _ => .organization o .organizationTokensWrite
  | .createNetwork .. => .callerOrganization .organizationNetworksCreate
  | .listNetworks => .callerOrganization .organizationNetworksRead
  | .networkOverview n => .network n .networkRead
  | .listAuditEvents n => .network n .networkAuditRead
  | .uiLogin .. => .throttled
  | .uiLogout => .unguarded
  | .getEgressFailClosed n => .network n .networkEgressRead
  | .setEgressFailClosed n _ => .network n .networkEgressWrite
  | .listRouteGroups n => .network n .networkRoutesRead
  | .createRouteGroup req => .network req.networkId .networkRoutesWrite
  | .deleteRouteGroup n _ => .network n .networkRoutesWrite
  | .advertise req => .network req.networkId .networkRoutesWrite
  | .withdraw n .. => .network n .networkRoutesWrite
  | .setRouteGroupFailover n .. => .network n .networkRoutesFailover

/-- `safeMethod`: the endpoints reached by `GET`. -/
def Endpoint.safe : Endpoint → Bool
  | .session => true
  | .listTokens _ => true
  | .listMemberships _ => true
  | .listDNSRecords _ => true
  | .getPolicy _ => true
  | .listPolicyVersions _ => true
  | .listRelays => true
  | .listOrganizations => true
  | .listUsers _ => true
  | .listRoles _ => true
  | .listUserRoles .. => true
  | .whoAmI => true
  | .listPermissions => true
  | .listOwnPermissions _ => true
  | .listOwnTokens => true
  | .listOrganizationTokens _ => true
  | .listNetworks => true
  | .networkOverview _ => true
  | .listAuditEvents _ => true
  | .getEgressFailClosed _ => true
  | .listRouteGroups _ => true
  | _ => false

structure Fault where
  status : Nat
  code : String
  message : String

def unauthenticated (cfg : Config) : Fault :=
  if cfg.adminToken = "" then
    ⟨401, "unauthorized", "sign in, or set MESHP_ADMIN_TOKEN to bootstrap the first account"⟩
  else ⟨401, "unauthorized", "sign in, or present a valid administrative token"⟩

/-- `refuse`: the permission that was missing is named, unless nothing is held. -/
def refuse (held : PermissionSet) (want : Permission) : Fault :=
  if held.empty then
    ⟨403, "forbidden",
      "you hold no role here, so you may do nothing; ask somebody who can grant one"⟩
  else
    ⟨403, "forbidden",
      "this needs the " ++ want.name ++ " permission, which you do not hold here"⟩

def requires (held : PermissionSet) (want : Permission) : Except Fault Unit :=
  refuseIf (held.allows want = false) (refuse held want)

def Guard.admits (d : Deployment) (c : Caller) : Guard → Except Fault Unit
  | .throttled => .ok ()
  | .unguarded => .ok ()
  | .signedIn => .ok ()
  | .bootstrap =>
    refuseIf (c ≠ .bootstrap) ⟨403, "forbidden",
      "this needs the administrative token; it is deployment administration " ++
        "rather than something a role can grant"⟩
  | .network n p => requires (permissionsInNetwork d c n) p
  | .organization o p => requires (permissionsInOrganization d c o) p
  | .callerOrganization p =>
    match Api.callerOrganization c with
    | none => .ok ()
    | some o => requires (permissionsInOrganization d c o) p

def gateAs (d : Deployment) (s : Sender) (e : Endpoint) (c : Caller) : Except Fault Caller := do
  refuseIf (c.isPerson ∧ e.safe = false ∧ s.sameOrigin = false)
    ⟨403, "cross_origin", "this request did not come from this site"⟩
  e.guard.admits d c
  pure c

/-- `gate`: who may proceed, with nobody in particular where nobody is asked who they are. -/
def gate (x : Primitives) (cfg : Config) (now : Time) (d : Deployment) (s : Sender)
    (e : Endpoint) : Except Fault (Option Caller) :=
  match e.guard with
  | .unguarded => .ok none
  | .throttled =>
    if s.underLimit then .ok none
    else .error ⟨429, "rate_limited", "too many attempts; slow down"⟩
  | _ =>
    match identify x cfg now d s with
    | none => .error (unauthenticated cfg)
    | some c => (gateAs d s e c).map some

theorem gate_eq {x : Primitives} {cfg : Config} {now : Time} {d : Deployment} {s : Sender}
    {e : Endpoint} {c : Caller} (hc : identify x cfg now d s = some c)
    (hopen : e.guard ≠ .unguarded) (hlimit : e.guard ≠ .throttled) :
    gate x cfg now d s e = (gateAs d s e c).map some := by
  unfold gate
  split
  · exact absurd ‹_› hopen
  · exact absurd ‹_› hlimit
  · rw [hc]

theorem gateAs_safe {d : Deployment} {s : Sender} {e : Endpoint} (c : Caller) (h : e.safe = true) :
    gateAs d s e c = (e.guard.admits d c).map fun _ => c := by
  have hsafe : ¬(c.isPerson ∧ e.safe = false ∧ s.sameOrigin = false) := by
    rintro ⟨_, hunsafe, _⟩
    rw [h] at hunsafe
    cases hunsafe
  unfold gateAs
  rw [refuseIf, if_neg hsafe]
  cases e.guard.admits d c with
  | error f => rfl
  | ok u => rfl

end Meshp.Api
