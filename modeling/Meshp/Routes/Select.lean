import Meshp.Store.Schema

/-!
# Ordering a Group's Advertisers for One Device

The control plane decides which advertisers a device may use and in what order;
the device decides which of them are alive. An advertiser that is disabled, or
observably failing, is not offered. The rest are ordered by health, then by the
operator's priority, and devices are spread over equals by a score drawn from the
pair of device and advertiser. The score is a parameter: a positive floating point
number drawn from a hash, of which only the order is used.
-/

namespace Meshp.Routes

open Store (AdminState HealthState SelectionMode)

/-- `rendezvousScore` of a device, an advertiser and a weight. -/
abbrev Scorer (S : Type) := String → String → Int → S

variable {S : Type}

structure Advertiser where
  id : String
  peerPublicKey : String
  priority : Int
  weight : Int
  admin : AdminState
  health : HealthState
  region : String
  city : String
  displayName : String
  deriving DecidableEq

structure Request where
  deviceKey : String
  current : String := ""
  mode : SelectionMode
  advertisers : List Advertiser

structure Candidate (S : Type) where
  advertiser : Advertiser
  score : S
  healthRank : Nat
  draining : Bool

/-- `healthClass`: a working advertiser outranks a questionable one, and one that is failing is not
offered. -/
def healthClass : HealthState → Option Nat
  | .healthy => some 0
  | .degraded => some 1
  | .unknown => some 2
  | .unhealthy => none
  | .offline => none

def rank (score : Scorer S) (req : Request) (a : Advertiser) : Option (Candidate S) :=
  if a.admin = .disabled then none
  else match healthClass a.health with
    | none => none
    | some healthRank =>
      if a.admin = .draining ∧ a.id ≠ req.current then none
      else
        some
          { advertiser := a
            score := score req.deviceKey a.id (if a.weight ≤ 0 then 1 else a.weight)
            healthRank
            draining := decide (a.admin = .draining) }

def outranks [LinearOrder S] (a b : Candidate S) : Bool :=
  if a.draining ≠ b.draining then !a.draining
  else if a.healthRank ≠ b.healthRank then a.healthRank < b.healthRank
  else if a.advertiser.priority ≠ b.advertiser.priority then
    a.advertiser.priority < b.advertiser.priority
  else if a.score ≠ b.score then b.score < a.score
  else a.advertiser.id < b.advertiser.id

def pinned (req : Request) : Option Advertiser :=
  if req.mode = .pinned ∧ req.current ≠ "" then
    req.advertisers.find? fun a => a.id = req.current ∧ a.admin ≠ .disabled
  else none

/-- `Select`: the candidates a device may use, best first. -/
def select [LinearOrder S] (score : Scorer S) (req : Request) : List Advertiser :=
  match pinned req with
  | some a => [a]
  | none =>
    ((req.advertisers.filterMap (rank score req)).insertionSort fun a b => !outranks b a).map
      Candidate.advertiser

end Meshp.Routes
