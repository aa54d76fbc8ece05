import Meshp.Base.Rows

/-!
# What a Caller May Do

A permission is a name, and a role is a bag of names. The names a table holds are
text an operator may have written, so they are read against the catalogue, and one
that is not in it grants nothing.
-/

namespace Meshp.Authz

inductive Permission
  | networkRead
  | networkAuditRead
  | networkDevicesRead
  | networkDevicesRevoke
  | networkEnrollmentTokensRead
  | networkEnrollmentTokensWrite
  | networkDNSRead
  | networkDNSWrite
  | networkACLRead
  | networkACLWrite
  | networkEgressRead
  | networkEgressWrite
  | networkRoutesRead
  | networkRoutesWrite
  | networkRoutesFailover
  | organizationNetworksRead
  | organizationNetworksCreate
  | organizationUsersRead
  | organizationUsersWrite
  | organizationRolesRead
  | organizationTokensRead
  | organizationTokensWrite
  | organizationRolesBind
  | organizationDevicesForget
  deriving DecidableEq

def Permission.name : Permission → String
  | .networkRead => "network.read"
  | .networkAuditRead => "network.audit.read"
  | .networkDevicesRead => "network.devices.read"
  | .networkDevicesRevoke => "network.devices.revoke"
  | .networkEnrollmentTokensRead => "network.enrollment_tokens.read"
  | .networkEnrollmentTokensWrite => "network.enrollment_tokens.write"
  | .networkDNSRead => "network.dns.read"
  | .networkDNSWrite => "network.dns.write"
  | .networkACLRead => "network.acl.read"
  | .networkACLWrite => "network.acl.write"
  | .networkEgressRead => "network.egress.read"
  | .networkEgressWrite => "network.egress.write"
  | .networkRoutesRead => "network.routes.read"
  | .networkRoutesWrite => "network.routes.write"
  | .networkRoutesFailover => "network.routes.failover"
  | .organizationNetworksRead => "organization.networks.read"
  | .organizationNetworksCreate => "organization.networks.create"
  | .organizationUsersRead => "organization.users.read"
  | .organizationUsersWrite => "organization.users.write"
  | .organizationRolesRead => "organization.roles.read"
  | .organizationTokensRead => "organization.tokens.read"
  | .organizationTokensWrite => "organization.tokens.write"
  | .organizationRolesBind => "organization.roles.bind"
  | .organizationDevicesForget => "organization.devices.forget"

/-- `Catalogue`: every permission, in the order they are served. -/
def catalogue : List Permission :=
  [.networkRead, .networkAuditRead, .networkDevicesRead, .networkDevicesRevoke,
   .networkEnrollmentTokensRead, .networkEnrollmentTokensWrite, .networkDNSRead,
   .networkDNSWrite, .networkACLRead, .networkACLWrite, .networkEgressRead,
   .networkEgressWrite, .networkRoutesRead, .networkRoutesWrite, .networkRoutesFailover,
   .organizationNetworksRead, .organizationNetworksCreate, .organizationUsersRead,
   .organizationUsersWrite, .organizationRolesRead, .organizationTokensRead,
   .organizationTokensWrite, .organizationRolesBind, .organizationDevicesForget]

def ofName? (name : String) : Option Permission :=
  catalogue.find? fun p => p.name = name

def known (name : String) : Bool :=
  (ofName? name).isSome

/-- `IsRead`: the name ends in `.read`. -/
def isRead (p : Permission) : Bool :=
  ".read".toList.isSuffixOf p.name.toList

theorem mem_catalogue (p : Permission) : p ∈ catalogue := by
  cases p <;> decide

theorem nodup_names : (catalogue.map Permission.name).Nodup := by
  decide +kernel

theorem ofName?_name (p : Permission) : ofName? p.name = some p :=
  Base.find?_of_nodup nodup_names (mem_catalogue p)

theorem ofName?_eq_some {name : String} {p : Permission} :
    ofName? name = some p ↔ p.name = name := by
  constructor
  · intro h
    simpa using List.find?_some h
  · intro h
    rw [← h, ofName?_name]

/-- `Set`: what one caller may do. -/
structure PermissionSet where
  /-- Everything, including what does not exist yet. -/
  all : Bool
  holds : Finset Permission

namespace PermissionSet

/-- `All`. -/
def everything : PermissionSet := ⟨true, ∅⟩

def allows (s : PermissionSet) (p : Permission) : Bool :=
  s.all || decide (p ∈ s.holds)

def empty (s : PermissionSet) : Bool :=
  !s.all && decide (s.holds = ∅)

end PermissionSet

/-- `NewSet`: a name the catalogue does not have is ignored. -/
def newSet (names : List String) : PermissionSet :=
  ⟨false, (names.filterMap ofName?).toFinset⟩

@[simp]
theorem mem_holds_newSet {names : List String} {p : Permission} :
    p ∈ (newSet names).holds ↔ p.name ∈ names := by
  simp only [newSet, List.mem_toFinset, List.mem_filterMap, ofName?_eq_some]
  constructor
  · rintro ⟨name, hname, rfl⟩
    exact hname
  · intro h
    exact ⟨p.name, h, rfl⟩

@[simp]
theorem allows_newSet {names : List String} {p : Permission} :
    (newSet names).allows p = true ↔ p.name ∈ names := by
  rw [PermissionSet.allows, show (newSet names).all = false from rfl, Bool.false_or,
    decide_eq_true_iff, mem_holds_newSet]

structure Builtin where
  slug : String
  name : String
  permissions : List Permission

def roleReader : String := "reader"

def roleOperator : String := "operator"

def roleAdministrator : String := "administrator"

def roleOwner : String := "owner"

/-- `readerPermissions`: every permission that only reads. -/
def readerPermissions : List Permission :=
  catalogue.filter isRead

def operatorPermissions : List Permission :=
  readerPermissions ++ [.networkDevicesRevoke, .networkEnrollmentTokensWrite,
    .networkRoutesFailover]

def administratorPermissions : List Permission :=
  operatorPermissions ++ [.networkDNSWrite, .networkACLWrite, .networkEgressWrite,
    .networkRoutesWrite, .organizationNetworksCreate, .organizationDevicesForget]

/-- `Builtins`, each built from the one before it. -/
def builtins : List Builtin :=
  [⟨roleReader, "Reader", readerPermissions⟩,
   ⟨roleOperator, "Operator", operatorPermissions⟩,
   ⟨roleAdministrator, "Administrator", administratorPermissions⟩,
   ⟨roleOwner, "Owner", catalogue⟩]

end Meshp.Authz
