import Meshp.Wire.State

/-!
# Which Advertiser a Device Is Using

The server orders a group's candidates and the device decides how far down the
list to be. It starts at the head, moves one place down when the one in use has
failed often enough in a row, and goes back to the head when the one in use has
worked often enough and the move is old enough.
-/

namespace Meshp.Routeprobe

abbrev Time := Nat

def defaultFailThreshold : Nat := 3

def defaultRecoverThreshold : Nat := 10

/-- `DefaultMinHold`, in seconds. -/
def defaultMinHold : Nat := 60

/-- One second of a `Time`. -/
def second : Nat := 10 ^ 9

/-- What is remembered of a group. No advertiser in use is the empty name, and a move that was never
timed has no time. -/
structure GroupState where
  currentID : String := ""
  consecutiveFail : Nat := 0
  consecutiveOK : Nat := 0
  switchedAt : Option Time := none
  preferredID : String := ""

structure Result where
  reachable : Bool
  rttMs : Int := 0
  failed : List String := []

structure Decision where
  report : Bool := false
  switched : String := ""
  reason : String := ""
  current : String := ""
  consecutiveFailures : Nat := 0

structure ReachabilityReport where
  routeGroupId : String
  advertiserId : String
  reachable : Bool
  rttMs : Nat
  consecutiveFailures : Nat
  failedProbeTargets : List String
  switchedFromAdvertiserId : String
  switchReason : String
  deriving DecidableEq

def orDefault (v d : Nat) : Nat :=
  if v = 0 then d else v

def failThreshold (a : Wire.RouteGroupAssignment) : Nat :=
  orDefault a.localFailover.failThreshold defaultFailThreshold

def recoverThreshold (a : Wire.RouteGroupAssignment) : Nat :=
  orDefault a.localFailover.recoverThreshold defaultRecoverThreshold

def minHold (a : Wire.RouteGroupAssignment) : Nat :=
  orDefault a.localFailover.minHoldSeconds defaultMinHold * second

/-- `mayMove`: whether the device chooses for itself. -/
def mayMove (a : Wire.RouteGroupAssignment) : Bool :=
  a.localFailover.enabled

/-- What `Current` leaves of a group's state, for an assignment with a candidate to be had. One that
has disappeared from the list is abandoned at once. -/
def settle (now : Time) (a : Wire.RouteGroupAssignment) (s : GroupState) : GroupState :=
  match a.candidates with
  | [] => s
  | first :: _ =>
    let s := { s with preferredID := first.advertiserId }
    if a.mode = .pinned then { s with currentID := first.advertiserId }
    else if s.currentID = "" then
      { s with currentID := first.advertiserId, switchedAt := some now }
    else if a.candidates.any (·.advertiserId = s.currentID) then s
    else
      { s with
        currentID := first.advertiserId
        switchedAt := some now
        consecutiveFail := 0
        consecutiveOK := 0 }

/-- `fallback`: the candidate after the current one. The last one failing is no reason to start
over. -/
def fallback (candidates : List Wire.RouteCandidate) (current : String) : String :=
  match candidates.dropWhile (·.advertiserId ≠ current) with
  | _ :: next :: _ => next.advertiserId
  | _ => ""

def moveTo (now : Time) (s : GroupState) (id : String) : GroupState :=
  { s with currentID := id, switchedAt := some now, consecutiveFail := 0, consecutiveOK := 0 }

def holding (now : Time) (a : Wire.RouteGroupAssignment) (s : GroupState) : Bool :=
  match s.switchedAt with
  | none => false
  | some t => (now : Int) - (t : Int) < minHold a

def GroupState.worked (s : GroupState) : GroupState :=
  { s with consecutiveFail := 0, consecutiveOK := s.consecutiveOK + 1 }

def GroupState.failed (s : GroupState) : GroupState :=
  { s with consecutiveOK := 0, consecutiveFail := s.consecutiveFail + 1 }

/-- `observeLocked`: fold a probe's result into the state of a group that has a candidate in use. -/
def observeLocked (now : Time) (a : Wire.RouteGroupAssignment) (s : GroupState) (r : Result) :
    GroupState × Decision :=
  let first := s.consecutiveFail = 0 ∧ s.consecutiveOK = 0
  let decision : Decision := { current := s.currentID, report := first }
  let worked := s.worked
  let failed := s.failed
  let failure := { decision with consecutiveFailures := failed.consecutiveFail }
  -- A device told not to move keeps counting, and says once that it would have.
  if !mayMove a then
    if r.reachable then (worked, decision)
    else if failed.consecutiveFail = failThreshold a then
      (failed,
        { failure with
          report := true
          reason := "the advertiser in use stopped answering probes, and this group's policy " ++
            "says not to move" })
    else (failed, failure)
  else if !r.reachable then
    if failed.consecutiveFail < failThreshold a then (failed, failure)
    else if fallback a.candidates s.currentID = "" then (failed, failure)
    else
      (moveTo now failed (fallback a.candidates s.currentID),
        { failure with
          switched := s.currentID
          reason := "the advertiser in use stopped answering probes"
          current := fallback a.candidates s.currentID
          report := true })
  else if s.currentID = s.preferredID then (worked, decision)
  else if worked.consecutiveOK < recoverThreshold a then (worked, decision)
  else if holding now a s then (worked, decision)
  else
    (moveTo now worked s.preferredID,
      { decision with
        switched := s.currentID
        reason := "the preferred advertiser is answering again"
        current := s.preferredID
        report := true })

inductive Settled (now : Time) (a : Wire.RouteGroupAssignment) (first : String) (s : GroupState) :
    GroupState → Prop
  | held (h : s.currentID ≠ "") (hmode : a.mode ≠ .pinned) :
      Settled now a first s { s with preferredID := first }
  | pinned (hmode : a.mode = .pinned) :
      Settled now a first s { s with preferredID := first, currentID := first }
  | chosen (h : s.currentID = "") (hmode : a.mode ≠ .pinned) :
      Settled now a first s
        { s with preferredID := first, currentID := first, switchedAt := some now }
  | abandoned (h : s.currentID ≠ "") (hmode : a.mode ≠ .pinned) (hfirst : first ≠ s.currentID) :
      Settled now a first s
        { currentID := first, preferredID := first, switchedAt := some now }

theorem settle_settled (now : Time) {a : Wire.RouteGroupAssignment} {first : Wire.RouteCandidate}
    {rest : List Wire.RouteCandidate} (ha : a.candidates = first :: rest) (s : GroupState) :
    Settled now a first.advertiserId s (settle now a s) := by
  simp only [settle, ha]
  by_cases hmode : a.mode = .pinned
  · rw [if_pos hmode]
    exact .pinned hmode
  · rw [if_neg hmode]
    by_cases hnone : s.currentID = ""
    · rw [if_pos hnone]
      exact .chosen hnone hmode
    · rw [if_neg hnone]
      by_cases hlisted : (first :: rest).any (·.advertiserId = s.currentID) = true
      · rw [if_pos hlisted]
        exact .held hnone hmode
      · rw [if_neg hlisted]
        refine .abandoned hnone hmode fun hfirst => hlisted ?_
        rw [List.any_cons, decide_eq_true hfirst, Bool.true_or]

inductive Outcome (now : Time) (a : Wire.RouteGroupAssignment) (s : GroupState) (r : Result) :
    GroupState × Decision → Prop
  | worked (d : Decision) (hr : r.reachable = true) (hswitched : d.switched = "")
      (hcurrent : d.current = s.currentID) : Outcome now a s r (s.worked, d)
  | failed (d : Decision) (hr : r.reachable = false) (hswitched : d.switched = "")
      (hcurrent : d.current = s.currentID) : Outcome now a s r (s.failed, d)
  | fellBack (d : Decision) (hr : r.reachable = false) (hmove : mayMove a = true)
      (hcount : failThreshold a ≤ s.consecutiveFail + 1)
      (hnext : fallback a.candidates s.currentID ≠ "")
      (hswitched : d.switched = s.currentID)
      (hcurrent : d.current = fallback a.candidates s.currentID) :
      Outcome now a s r (moveTo now s.failed (fallback a.candidates s.currentID), d)
  | returned (d : Decision) (hr : r.reachable = true) (hmove : mayMove a = true)
      (haway : s.currentID ≠ s.preferredID)
      (hcount : recoverThreshold a ≤ s.consecutiveOK + 1) (hhold : holding now a s = false)
      (hswitched : d.switched = s.currentID) (hcurrent : d.current = s.preferredID) :
      Outcome now a s r (moveTo now s.worked s.preferredID, d)

theorem observeLocked_outcome (now : Time) (a : Wire.RouteGroupAssignment) (s : GroupState)
    (r : Result) : Outcome now a s r (observeLocked now a s r) := by
  simp only [observeLocked]
  cases hmove : mayMove a with
  | false =>
    cases hr : r.reachable with
    | true => exact .worked _ hr rfl rfl
    | false =>
      simp only [Bool.not_false, if_true, Bool.false_eq_true, if_false]
      split
      · exact .failed _ hr rfl rfl
      · exact .failed _ hr rfl rfl
  | true =>
    cases hr : r.reachable with
    | false =>
      simp only [Bool.not_true, Bool.false_eq_true, Bool.not_false, if_true, if_false]
      split
      · exact .failed _ hr rfl rfl
      · rename_i hcount
        split
        · exact .failed _ hr rfl rfl
        · rename_i hnext
          exact .fellBack _ hr hmove (Nat.le_of_not_lt hcount) hnext rfl rfl
    | true =>
      simp only [Bool.not_true, Bool.false_eq_true, if_false]
      split
      · exact .worked _ hr rfl rfl
      · rename_i haway
        split
        · exact .worked _ hr rfl rfl
        · rename_i hcount
          split
          · exact .worked _ hr rfl rfl
          · rename_i hhold
            exact .returned _ hr hmove haway (Nat.le_of_not_lt hcount)
              (by simpa using hhold) rfl rfl

/-- `millis`: a round trip as the field holds it. -/
def millis (r : Result) : Nat :=
  if r.rttMs ≤ 0 then 0 else min r.rttMs.toNat (2 ^ 32 - 1)

/-- `recordLocked`: the report that replaces an unsent one. A move not yet reported is carried over
while the device is still where it moved to. -/
def recordLocked (group : String) (d : Decision) (r : Result)
    (previous : Option ReachabilityReport) : ReachabilityReport :=
  let report : ReachabilityReport :=
    { routeGroupId := group
      advertiserId := d.current
      reachable := r.reachable
      rttMs := millis r
      consecutiveFailures := d.consecutiveFailures % 2 ^ 32
      failedProbeTargets := r.failed
      switchedFromAdvertiserId := d.switched
      switchReason := d.reason }
  match previous with
  | none => report
  | some p =>
    if d.switched = "" ∧ p.switchedFromAdvertiserId ≠ "" ∧ p.advertiserId = d.current then
      { report with
        switchedFromAdvertiserId := p.switchedFromAdvertiserId
        switchReason := p.switchReason }
    else report

structure Tracked where
  state : Option GroupState := none
  unsent : Option ReachabilityReport := none

abbrev Chooser := String → Tracked

/-- `Current`: the candidate to use for an assignment, and what is remembered of the choice. -/
def Tracked.current (now : Time) (a : Wire.RouteGroupAssignment) (t : Tracked) :
    Tracked × Option Wire.RouteCandidate :=
  if a.candidates = [] then (t, none)
  else
    let s := settle now a (t.state.getD {})
    ({ t with state := some s }, a.candidates.find? (·.advertiserId = s.currentID))

/-- `Observe`: fold a probe's result in, and queue what is worth reporting. -/
def Tracked.observe (now : Time) (a : Wire.RouteGroupAssignment) (r : Result) (t : Tracked) :
    Tracked × Decision :=
  match t.state with
  | none => (t, {})
  | some s =>
    if s.currentID = "" then (t, {})
    else
      let (s, d) := observeLocked now a s r
      ({ state := some s
         unsent := if d.report then some (recordLocked a.routeGroupId d r t.unsent)
           else t.unsent }, d)

end Meshp.Routeprobe
