import Meshp.Enroll.Redeem
import Meshp.Store.Mutations

/-!
# Histories of the Mesh

Everything that happens to a deployment's mesh is one of the mutations, each
its own transaction, at some time. A history is a list of them, and the mesh it
leaves is what attempting them in order leaves; one that is refused changes
nothing.
-/

namespace Meshp.Store

open Netip (Prefix)

inductive Event
  | createOrganization (slug name : String)
  | createNetwork (org : Id) (slug name : String) (pools : List Prefix)
  | createEnrollmentToken (n : Id) (tokenHash : List UInt8) (tags : List String) (maxUses : Nat)
      (expiresAt : Time)
  | redeem (req : Enroll.RedeemRequest)
  | revokeMembership (n id : Id)
  | forgetDevice (org device : Id)
  | publishPolicy (n : Id) (doc : Acl.Document)
  | createRouteGroup (req : CreateRouteGroupRequest)
  | advertise (req : AdvertiseRequest)
  | withdraw (n : Id) (slug : String) (membership : Id)
  | deleteRouteGroup (n : Id) (slug : String)
  | setRouteGroupFailover (n : Id) (slug : String) (policy : FailoverPolicy)
  | setEgressFailClosed (n : Id) (enforced : Bool)
  | createDNSRecord (req : CreateDNSRecordRequest)
  | deleteDNSRecord (n id : Id)
  | observeAdvertiser (n advertiser : Id) (concluded : HealthState)
  | pruneNetwork (n : Id) (olderThan : Time)

structure Stamped where
  now : Time
  event : Event

variable (c : Enroll.Checks)

def mutate (s : Stamped) (m : Mesh) : Except Refusal Mesh :=
  match s.event with
  | .createOrganization slug name => Store.createOrganization m slug name
  | .createNetwork org slug name pools => Store.createNetwork m org slug name pools
  | .createEnrollmentToken n tokenHash tags maxUses expiresAt =>
    Store.createEnrollmentToken m n tokenHash tags maxUses expiresAt
  | .redeem req => Enroll.redeem c s.now m req
  | .revokeMembership n id => Store.revokeMembership s.now m n id
  | .forgetDevice org device => Store.forgetDevice s.now m org device
  | .publishPolicy n doc => Store.publishPolicy s.now m n doc
  | .createRouteGroup req => Store.createRouteGroup s.now m req
  | .advertise req => Store.advertise s.now m req
  | .withdraw n slug membership => Store.withdraw s.now m n slug membership
  | .deleteRouteGroup n slug => Store.deleteRouteGroup s.now m n slug
  | .setRouteGroupFailover n slug policy => Store.setRouteGroupFailover s.now m n slug policy
  | .setEgressFailClosed n enforced => Store.setEgressFailClosed s.now m n enforced
  | .createDNSRecord req => Store.createDNSRecord s.now m req
  | .deleteDNSRecord n id => Store.deleteDNSRecord s.now m n id
  | .observeAdvertiser n advertiser concluded =>
    Store.observeAdvertiser s.now m n advertiser concluded
  | .pruneNetwork n olderThan => .ok (Store.pruneNetwork m n olderThan)

def apply (m : Mesh) (s : Stamped) : Mesh :=
  Base.attempt (mutate c s) m

def history (ss : List Stamped) : Mesh :=
  Base.run (apply c) {} ss

/-! ### A deployment small enough to evaluate

One organisation, one network of two hundred and fifty-six addresses and one
token for it. Whoever presents the token is taken at their word. -/

def bytes (s : String) : List UInt8 :=
  s.toList.map fun ch => UInt8.ofNat ch.toNat

def trusting : Enroll.Checks where
  hashToken s := .ok (bytes s)
  challengeOk _ _ _ _ := true
  identityOk _ _ _ := true

def founding (tags : List String) : List Stamped :=
  [⟨0, .createOrganization "acme" "Acme"⟩,
   ⟨0, .createNetwork 1 "core" "" [⟨.v4 0x0A000000, 24, by decide⟩]⟩,
   ⟨0, .createEnrollmentToken 2 (bytes "t") tags 10 100⟩]

/-- Device number `w` presents the token. -/
def joining (now : Time) (w : UInt8) : Stamped :=
  ⟨now, .redeem
    { token := "t", identityPublicKey := List.replicate 32 w, challenge := [], signature := []
      wireGuardPublicKey := Keys.keyText (List.replicate 32 w), name := "host", hostname := "" }⟩

def founder (tags : List String) : Membership :=
  { id := 6, deviceId := 5, networkId := 2, interfaceName := "meshp0"
    addressV4 := some (.v4 0x0A000001), addressV6 := none, state := .active, tags
    dnsLabel := "host" }

end Meshp.Store
