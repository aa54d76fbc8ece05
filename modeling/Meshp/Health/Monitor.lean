import Meshp.Store.Schema

/-!
# Whether an Advertiser Is Fit to Carry Traffic

A monitor follows one advertiser. It fuses up to three signals into a verdict,
counts verdicts of a kind in a row, and changes its mind when a count reaches a
threshold, when a device that routes through the advertiser says it works, or when
nothing has been heard for too long.
-/

namespace Meshp.Health

open Store (HealthState)

abbrev Time := Nat

/-- One second of a `Time`. -/
def second : Nat := 10 ^ 9

inductive Signal
  | none
  | ok
  | fail
  deriving DecidableEq

structure Report where
  selfReport : Signal := .none
  controlProbe : Signal := .none
  clientObserved : Signal := .none

inductive Verdict
  | none
  | ok
  | fail
  | mixed
  deriving DecidableEq

def Report.verdict (r : Report) : Verdict :=
  let signals := [r.selfReport, r.controlProbe, r.clientObserved]
  if r.clientObserved = .fail then .fail
  else if signals.count .ok = 0 ∧ signals.count .fail = 0 then .none
  else if signals.count .fail = 0 then .ok
  else if signals.count .ok = 0 then .fail
  else .mixed

structure Policy where
  failThreshold : Int
  recoverThreshold : Int
  degradeThreshold : Int
  cooldown : Int
  offlineAfter : Int

def defaultPolicy : Policy :=
  { failThreshold := 3, recoverThreshold := 10, degradeThreshold := 3
    cooldown := 5 * 60 * second, offlineAfter := 90 * second }

def Policy.withDefaults (p : Policy) : Policy :=
  let orElse (v d : Int) : Int := if v ≤ 0 then d else v
  { failThreshold := orElse p.failThreshold defaultPolicy.failThreshold
    recoverThreshold := orElse p.recoverThreshold defaultPolicy.recoverThreshold
    degradeThreshold := orElse p.degradeThreshold defaultPolicy.degradeThreshold
    cooldown :=
      if p.cooldown < 0 then 0 else if p.cooldown = 0 then defaultPolicy.cooldown else p.cooldown
    offlineAfter := orElse p.offlineAfter defaultPolicy.offlineAfter }

theorem withDefaults_offlineAfter (p : Policy) : 0 < p.withDefaults.offlineAfter := by
  simp only [Policy.withDefaults]
  split
  · decide
  · omega

theorem withDefaults_failThreshold (p : Policy) : 0 < p.withDefaults.failThreshold := by
  simp only [Policy.withDefaults]
  split
  · decide
  · omega

/-- What a monitor knows, and what is stored of it. A time that was never set is absent. -/
structure Snapshot where
  state : HealthState := .unknown
  consecutiveOK : Nat := 0
  consecutiveFail : Nat := 0
  consecutivePartial : Nat := 0
  lastImprovedAt : Option Time := none
  lastReportAt : Option Time := none
  deriving DecidableEq

structure Transition where
  fromState : HealthState
  toState : HealthState
  changed : Bool := false
  reason : String
  suppressed : Bool := false

/-- `rank`: from worst to best, and nothing for a state that is no information at all. -/
def rank : HealthState → Int
  | .offline => 0
  | .unhealthy => 1
  | .degraded => 2
  | .healthy => 3
  | .unknown => -1

theorem rank_nonneg_iff (s : HealthState) : 0 ≤ rank s ↔ s ≠ .unknown := by
  cases s <;> decide

def durationText (d : Int) : String :=
  let s := (d.natAbs + second / 2) / second
  let text :=
    if s < 60 then toString s ++ "s"
    else if s < 3600 then toString (s / 60) ++ "m" ++ toString (s % 60) ++ "s"
    else toString (s / 3600) ++ "h" ++ toString (s % 3600 / 60) ++ "m" ++ toString (s % 60) ++ "s"
  if d < 0 ∧ s ≠ 0 then "-" ++ text else text

/-- `desiredLocked`: the state the evidence points at, and why. -/
def desired (p : Policy) (m : Snapshot) (v : Verdict) (r : Report) : HealthState × String :=
  let unmoved := (m.state, "insufficient evidence to change state")
  match v with
  | .fail =>
    if p.failThreshold ≤ m.consecutiveFail then
      (.unhealthy, toString m.consecutiveFail ++ " consecutive failed checks")
    else unmoved
  | .mixed =>
    if p.degradeThreshold ≤ m.consecutivePartial then
      (.degraded,
        toString m.consecutivePartial ++ " consecutive checks with disagreeing signals")
    else unmoved
  | .ok =>
    if r.clientObserved = .ok then
      (.healthy, "the devices routing through it report reaching it")
    else if p.recoverThreshold ≤ m.consecutiveOK then
      (.healthy, toString m.consecutiveOK ++ " consecutive successful checks")
    else unmoved
  | .none => unmoved

def since (now : Time) : Option Time → Option Int
  | none => none
  | some t => some ((now : Int) - (t : Int))

def silent (p : Policy) (m : Snapshot) (now : Time) : Bool :=
  (since now m.lastReportAt).any (p.offlineAfter ≤ ·)

def aim (p : Policy) (m : Snapshot) (want : HealthState) (now : Time) : HealthState :=
  if silent p m now then .offline else want

def Improving (s want : HealthState) : Prop :=
  0 ≤ rank s ∧ rank s < rank want

instance decidableImproving (s want : HealthState) : Decidable (Improving s want) :=
  inferInstanceAs (Decidable (_ ∧ _))

def cooling (p : Policy) (m : Snapshot) (now : Time) : Option Int :=
  (since now m.lastImprovedAt).filter (· < p.cooldown)

def commit (m : Snapshot) (want : HealthState) (now : Time) : Snapshot :=
  { state := want
    consecutiveOK := if want = .offline then 0 else m.consecutiveOK
    consecutiveFail := if want = .offline then 0 else m.consecutiveFail
    consecutivePartial := if want = .offline then 0 else m.consecutivePartial
    lastImprovedAt :=
      if Improving m.state want ∨ rank m.state < 0 then some now else m.lastImprovedAt
    lastReportAt := m.lastReportAt }

/-- `transitionLocked`: apply the offline rule and the cooldown, then commit. -/
def transition (p : Policy) (m : Snapshot) (want : HealthState) (reason : String) (now : Time) :
    Snapshot × Transition :=
  let reason :=
    if silent p m now then "no report for " ++ durationText ((since now m.lastReportAt).getD 0)
    else reason
  let want := aim p m want now
  if want = m.state then (m, { fromState := m.state, toState := m.state, reason })
  else if Improving m.state want ∧ 0 < p.cooldown ∧ (cooling p m now).isSome then
    -- The counters keep climbing; only the promotion is put off.
    (m,
      { fromState := m.state
        toState := m.state
        reason := reason ++ ", but improvement suppressed for another " ++
          durationText (p.cooldown - (cooling p m now).getD 0)
        suppressed := true })
  else
    (commit m want now, { fromState := m.state, toState := want, changed := true, reason })

def counted (m : Snapshot) (v : Verdict) : Snapshot :=
  match v with
  | .ok =>
    { m with consecutiveOK := m.consecutiveOK + 1, consecutiveFail := 0, consecutivePartial := 0 }
  | .fail =>
    { m with consecutiveFail := m.consecutiveFail + 1, consecutiveOK := 0
             consecutivePartial := 0 }
  | .mixed =>
    { m with consecutivePartial := m.consecutivePartial + 1, consecutiveOK := 0
             consecutiveFail := 0 }
  | .none => m

/-- `Observe`: one round. A round in which nothing was measured is not contact. -/
def observe (p : Policy) (now : Time) (m : Snapshot) (r : Report) : Snapshot × Transition :=
  let v := r.verdict
  if v = .none then transition p m m.state "no signal" now
  else
    let m := counted { m with lastReportAt := some now } v
    let (want, reason) := desired p m v r
    transition p m want reason now

/-- `Tick`: time passes without a round. -/
def tick (p : Policy) (now : Time) (m : Snapshot) : Snapshot × Transition :=
  transition p m m.state "tick" now

inductive Moved (p : Policy) (m : Snapshot) (w : HealthState) (now : Time) :
    Snapshot × Transition → Prop
  | same (reason : String) (h : w = m.state) :
      Moved p m w now (m, { fromState := m.state, toState := m.state, reason })
  | held (reason : String) (t : Time) (himp : Improving m.state w)
      (ht : m.lastImprovedAt = some t) (hcool : (now : Int) - t < p.cooldown) :
      Moved p m w now
        (m, { fromState := m.state, toState := m.state, reason, suppressed := true })
  | committed (reason : String) (h : w ≠ m.state)
      (hcool : Improving m.state w → 0 < p.cooldown →
        ∀ t, m.lastImprovedAt = some t → p.cooldown ≤ (now : Int) - t) :
      Moved p m w now
        (commit m w now, { fromState := m.state, toState := w, changed := true, reason })

variable {m : Snapshot} {now : Time} {p : Policy}

theorem cooling_isSome :
    (cooling p m now).isSome ↔ ∃ t, m.lastImprovedAt = some t ∧ (now : Int) - t < p.cooldown := by
  unfold cooling
  cases hlast : m.lastImprovedAt with
  | none => simp [since]
  | some t =>
    by_cases hlt : (now : Int) - t < p.cooldown
    · simp [since, hlt]
    · simp [since, Option.filter, hlt]

theorem transition_moved (p : Policy) (m : Snapshot) (want : HealthState) (reason : String)
    (now : Time) : Moved p m (aim p m want now) now (transition p m want reason now) := by
  simp only [transition]
  by_cases hsame : aim p m want now = m.state
  · rw [if_pos hsame]
    exact .same _ hsame
  · rw [if_neg hsame]
    by_cases hheld :
        Improving m.state (aim p m want now) ∧ 0 < p.cooldown ∧ (cooling p m now).isSome
    · rw [if_pos hheld]
      rcases cooling_isSome.1 hheld.2.2 with ⟨t, ht, hcool⟩
      exact .held _ t hheld.1 ht hcool
    · rw [if_neg hheld]
      refine .committed _ hsame fun himp hpos t ht => ?_
      by_contra hlt
      exact hheld ⟨himp, hpos, cooling_isSome.2 ⟨t, ht, by omega⟩⟩

theorem not_silent (hp : 0 < p.offlineAfter) (hm : m.lastReportAt = some now) :
    silent p m now = false := by
  simp only [silent, hm, since, Option.any_some, Int.sub_self, decide_eq_false_iff_not]
  omega

theorem aim_of_silent (h : silent p m now = true) (want : HealthState) :
    aim p m want now = .offline :=
  if_pos h

theorem aim_of_not_silent (h : silent p m now = false) (want : HealthState) :
    aim p m want now = want :=
  if_neg (by simp [h])

def heard (m : Snapshot) (now : Time) (v : Verdict) : Snapshot :=
  counted { m with lastReportAt := some now } v

theorem heard_state (m : Snapshot) (now : Time) (v : Verdict) :
    (heard m now v).state = m.state := by
  cases v <;> rfl

theorem heard_lastImprovedAt (m : Snapshot) (now : Time) (v : Verdict) :
    (heard m now v).lastImprovedAt = m.lastImprovedAt := by
  cases v <;> rfl

theorem heard_lastReportAt (m : Snapshot) (now : Time) (v : Verdict) :
    (heard m now v).lastReportAt = some now := by
  cases v <;> rfl

theorem aim_heard (hp : 0 < p.offlineAfter) (m : Snapshot) (now : Time) (v : Verdict)
    (want : HealthState) : aim p (heard m now v) want now = want :=
  aim_of_not_silent (not_silent hp (heard_lastReportAt m now v)) want

theorem observe_moved (hp : 0 < p.offlineAfter) (now : Time) (m : Snapshot) {r : Report}
    (hr : r.verdict ≠ .none) :
    Moved p (heard m now r.verdict) (desired p (heard m now r.verdict) r.verdict r).1 now
      (observe p now m r) := by
  have hmoved := transition_moved p (heard m now r.verdict)
    (desired p (heard m now r.verdict) r.verdict r).1
    (desired p (heard m now r.verdict) r.verdict r).2 now
  rw [aim_heard hp] at hmoved
  simp only [observe, if_neg hr]
  exact hmoved

theorem observe_nothing (p : Policy) (now : Time) (m : Snapshot) {r : Report}
    (hr : r.verdict = .none) : Moved p m (aim p m m.state now) now (observe p now m r) := by
  simp only [observe, if_pos hr]
  exact transition_moved p m m.state "no signal" now

theorem moved_changed_iff {w : HealthState} {out : Snapshot × Transition} (h : Moved p m w now out) :
    out.2.changed = true ↔ out.1.state ≠ m.state := by
  cases h with
  | same reason h | held reason t himp ht hcool => exact ⟨nofun, fun h => absurd rfl h⟩
  | committed reason hne hcool => exact ⟨fun _ => hne, fun _ => rfl⟩

theorem observe_changed_iff (hp : 0 < p.offlineAfter) (now : Time) (m : Snapshot) (r : Report) :
    (observe p now m r).2.changed = true ↔ (observe p now m r).1.state ≠ m.state := by
  by_cases hr : r.verdict = .none
  · exact moved_changed_iff (observe_nothing p now m hr)
  · rw [moved_changed_iff (observe_moved hp now m hr), heard_state]

theorem verdict_client_fail : ({ clientObserved := .fail } : Report).verdict = .fail := rfl

theorem verdict_client_ok : ({ clientObserved := .ok } : Report).verdict = .ok := rfl

theorem desired_fail (p : Policy) (m : Snapshot) (r : Report) :
    (desired p m .fail r).1 =
      if p.failThreshold ≤ m.consecutiveFail then .unhealthy else m.state := by
  simp only [desired]
  split
  · rfl
  · rfl

end Meshp.Health
