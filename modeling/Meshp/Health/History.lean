import Meshp.Base.Run
import Meshp.Health.Monitor

/-!
# What a Monitor Does over a History

A monitor is called again and again: with a round of observation, with the news
that time has passed, and now and then to be stored and brought back in another
process. A history is any list of such calls.
-/

namespace Meshp.Health

open Base (run)
open Store (HealthState)

structure Monitor where
  policy : Policy
  held : Snapshot

def newMonitor (p : Policy) : Monitor :=
  { policy := p.withDefaults, held := {} }

def Monitor.snapshot (m : Monitor) : Snapshot :=
  m.held

def Monitor.restore (m : Monitor) (s : Snapshot) : Monitor :=
  { m with held := s }

/-- A call on a monitor. `reload` is `Snapshot` followed by `Restore` into a fresh one. -/
inductive Call
  | observe (now : Time) (r : Report)
  | tick (now : Time)
  | reload

def Call.time : Call → Option Time
  | .observe now _ => some now
  | .tick now => some now
  | .reload => none

def Call.carries : Call → Bool
  | .observe _ r => r.verdict ≠ .none
  | .tick _ => false
  | .reload => false

/-- What a call on a monitor configured with `p` leaves, and the transition it returns. -/
def Monitor.call (p : Policy) (m : Monitor) : Call → Monitor × Option Transition
  | .observe now r =>
    let out := Health.observe m.policy now m.held r
    ({ m with held := out.1 }, some out.2)
  | .tick now =>
    let out := Health.tick m.policy now m.held
    ({ m with held := out.1 }, some out.2)
  | .reload => ((newMonitor p).restore m.snapshot, none)

def step (p : Policy) (m : Monitor) (c : Call) : Monitor :=
  (m.call p c).1

variable {p : Policy} {m : Snapshot}

theorem step_policy {m : Monitor} (c : Call) (hm : m.policy = p.withDefaults) :
    (step p m c).policy = p.withDefaults := by
  cases c with
  | observe now r => exact hm
  | tick now => exact hm
  | reload => rfl

theorem run_policy (p : Policy) (calls : List Call) :
    (run (step p) (newMonitor p) calls).policy = p.withDefaults :=
  Base.run_inv (fun m : Monitor => m.policy = p.withDefaults) (fun _ c hm => step_policy c hm) _
    calls rfl

theorem step_reload {m : Monitor} (hm : m.policy = p.withDefaults) : step p m .reload = m := by
  rw [← show m.restore m.snapshot = m from rfl]
  simp only [step, Monitor.call, newMonitor, Monitor.restore, Monitor.snapshot, hm]

def Transition.improves (t : Transition) : Bool :=
  t.changed && decide (rank t.fromState < rank t.toState)

def improvementsFrom (p : Policy) : Monitor → List Call → List Time
  | _, [] => []
  | m, c :: cs =>
    (if ((m.call p c).2.any Transition.improves) then c.time.toList else []) ++
      improvementsFrom p (step p m c) cs

def Anchored (m : Snapshot) : Prop :=
  m.state = .unknown → m.lastImprovedAt = none

/-- One transition, as the cooldown sees it: it improves nothing and moves no anchor, or it
improves, late enough, and becomes the anchor. -/
structure Spaced (p : Policy) (m : Snapshot) (now : Time) (out : Snapshot × Transition) : Prop where
  anchored : Anchored out.1
  kept : out.2.improves = false → out.1.lastImprovedAt = m.lastImprovedAt
  moved : out.2.improves = true → out.1.lastImprovedAt = some now
  apart : out.2.improves = true → ∀ t, m.lastImprovedAt = some t → p.cooldown ≤ (now : Int) - t

theorem moved_spaced (hp : 0 < p.cooldown) {w : HealthState} {now : Time}
    {out : Snapshot × Transition} (hm : Anchored m) (hw : w = .unknown → m.state = .unknown)
    (h : Moved p m w now out) : Spaced p m now out := by
  cases h with
  | same reason h | held reason t himp ht hcool => exact ⟨hm, fun _ => rfl, nofun, nofun⟩
  | committed reason hne hcool =>
    have hknown : w ≠ .unknown := fun h => hne (h.trans (hw h).symm)
    have hiff : (Improving m.state w ∨ rank m.state < 0) ↔ rank m.state < rank w := by
      have := (rank_nonneg_iff w).2 hknown
      unfold Improving
      omega
    refine ⟨fun h => absurd h hknown, fun h => ?_, fun h => ?_, fun h t ht => ?_⟩
    · simp only [Transition.improves, Bool.true_and, decide_eq_false_iff_not] at h
      simp only [commit, hiff, if_neg h]
    · simp only [Transition.improves, Bool.true_and, decide_eq_true_eq] at h
      simp only [commit, hiff, if_pos h]
    · simp only [Transition.improves, Bool.true_and, decide_eq_true_eq] at h
      -- A monitor with an anchor has left the state it started in.
      have hstate : m.state ≠ .unknown := by
        intro hunknown
        rw [hm hunknown] at ht
        cases ht
      exact hcool ⟨(rank_nonneg_iff _).2 hstate, h⟩ hp t ht

theorem desired_unknown {v : Verdict} {r : Report} (h : (desired p m v r).1 = .unknown) :
    m.state = .unknown := by
  cases v with
  | none => exact h
  | fail =>
    rw [desired_fail] at h
    split at h
    · cases h
    · exact h
  | mixed =>
    simp only [desired] at h
    split at h
    · cases h
    · exact h
  | ok =>
    simp only [desired] at h
    split at h
    · cases h
    · split at h
      · cases h
      · exact h

theorem aim_unknown {now : Time} (h : aim p m m.state now = .unknown) : m.state = .unknown := by
  unfold aim at h
  split at h
  · cases h
  · exact h

theorem tick_moved (p : Policy) (now : Time) (m : Snapshot) :
    Moved p m (aim p m m.state now) now (tick p now m) :=
  transition_moved p m m.state "tick" now

theorem observe_spaced (hp : 0 < p.cooldown) (hoff : 0 < p.offlineAfter) (hm : Anchored m)
    (now : Time) (r : Report) : Spaced p m now (observe p now m r) := by
  by_cases hr : r.verdict = .none
  · exact moved_spaced hp hm aim_unknown (observe_nothing p now m hr)
  · have hheard : Anchored (heard m now r.verdict) := by
      intro h
      rw [heard_state] at h
      rw [heard_lastImprovedAt, hm h]
    have hspaced := moved_spaced hp hheard desired_unknown (observe_moved hoff now m hr)
    refine ⟨hspaced.anchored, fun h => ?_, hspaced.moved, fun h t ht => ?_⟩
    · rw [hspaced.kept h, heard_lastImprovedAt]
    · exact hspaced.apart h t (by rw [heard_lastImprovedAt, ht])

theorem improvementsFrom_apart (hp : 0 < p.withDefaults.cooldown) (calls : List Call) {m : Monitor}
    (hpolicy : m.policy = p.withDefaults) (hm : Anchored m.held) :
    (∀ t, m.held.lastImprovedAt = some t → ∀ s ∈ improvementsFrom p m calls,
      p.withDefaults.cooldown ≤ (s : Int) - t) ∧
    (improvementsFrom p m calls).Pairwise
      fun s t : Time => p.withDefaults.cooldown ≤ (t : Int) - s := by
  induction calls generalizing m with
  | nil => exact ⟨nofun, List.Pairwise.nil⟩
  | cons c cs ih =>
    -- A call that transitions, whichever it is, does so spaced from the anchor.
    have hstep : ∀ now out, Spaced p.withDefaults m.held now out →
        c.time = some now → m.call p c = ({ m with held := out.1 }, some out.2) →
        (∀ t, m.held.lastImprovedAt = some t → ∀ s ∈ improvementsFrom p m (c :: cs),
          p.withDefaults.cooldown ≤ (s : Int) - t) ∧
        (improvementsFrom p m (c :: cs)).Pairwise
          fun s t : Time => p.withDefaults.cooldown ≤ (t : Int) - s := by
      intro now out hspaced htime hcall
      have hrest := ih (m := { m with held := out.1 }) hpolicy hspaced.anchored
      simp only [improvementsFrom, step, hcall, htime, Option.any_some, Option.toList_some]
      by_cases himp : out.2.improves = true
      · rw [if_pos himp]
        have hafter := hrest.1 now (hspaced.moved himp)
        refine ⟨fun t ht s hs => ?_, List.pairwise_cons.2 ⟨hafter, hrest.2⟩⟩
        have hnow := hspaced.apart himp t ht
        rcases List.mem_cons.1 hs with rfl | hs
        · exact hnow
        · have := hafter s hs
          omega
      · rw [if_neg himp, List.nil_append]
        refine ⟨fun t ht => hrest.1 t ?_, hrest.2⟩
        rw [hspaced.kept (by simpa using himp), ht]
    have hoff := withDefaults_offlineAfter p
    cases c with
    | observe now r =>
      refine hstep now _ (observe_spaced hp hoff hm now r) rfl ?_
      rw [← hpolicy]
      rfl
    | tick now =>
      refine hstep now _ (moved_spaced hp hm aim_unknown (tick_moved _ now m.held)) rfl ?_
      rw [← hpolicy]
      rfl
    | reload =>
      simp only [improvementsFrom, step_reload hpolicy]
      exact ih hpolicy hm

/-- Whatever is observed, and however often the monitor is stored and brought back, any two changes
to a better state are at least the cooldown apart. -/
theorem improvements_apart (p : Policy) (hp : 0 < p.withDefaults.cooldown) (calls : List Call) :
    (improvementsFrom p (newMonitor p) calls).Pairwise
      fun s t : Time => p.withDefaults.cooldown ≤ (t : Int) - s :=
  (improvementsFrom_apart hp calls rfl fun _ => rfl).2

def flapping : List Call :=
  [.observe 0 { clientObserved := .ok }, .observe (1 * second) { clientObserved := .fail },
    .observe (2 * second) { clientObserved := .fail },
    .observe (3 * second) { clientObserved := .fail }, .reload,
    .observe (4 * second) { clientObserved := .ok },
    .observe (300 * second) { clientObserved := .ok }]

theorem improvements_apart_flapping :
    improvementsFrom defaultPolicy (newMonitor defaultPolicy) flapping = [0, 300 * second] ∧
      (improvementsFrom defaultPolicy (newMonitor defaultPolicy) flapping).Pairwise
        fun s t : Time => defaultPolicy.withDefaults.cooldown ≤ (t : Int) - s :=
  ⟨by decide +kernel, improvements_apart defaultPolicy (by decide) flapping⟩

end Meshp.Health
