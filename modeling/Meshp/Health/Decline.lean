import Meshp.Health.History

/-!
# Getting Worse Is Never Held Back

The cooldown holds back a change for the better and nothing else. A change for
the worse is made as soon as its evidence is in, whatever the monitor has been
through, and enough failing reports in a row are evidence enough from any state.
-/

namespace Meshp.Health

open Base (run)
open Store (HealthState)

def aims (m : Monitor) : Call → HealthState
  | .observe now r =>
    if r.verdict = .none then aim m.policy m.held m.held.state now
    else aim m.policy (heard m.held now r.verdict)
      (desired m.policy (heard m.held now r.verdict) r.verdict r).1 now
  | .tick now => aim m.policy m.held m.held.state now
  | .reload => m.held.state

def Call.fails : Call → Bool
  | .observe _ r => r.verdict = .fail
  | .tick _ => false
  | .reload => false

def Unfit (s : HealthState) : Prop :=
  s = .unhealthy ∨ s = .offline

instance decidableUnfit (s : HealthState) : Decidable (Unfit s) :=
  inferInstanceAs (Decidable (_ ∨ _))

variable {m : Snapshot} {now : Time} {out : Snapshot × Transition} {p : Policy} {j : Nat}

theorem moved_worse {w : HealthState} (h : Moved p m w now out) (hw : rank w < rank m.state) :
    out.2.suppressed = false ∧ out.1.state = w := by
  cases h with
  | same reason h => exact ⟨rfl, h.symm⟩
  | held reason t himp ht hcool =>
    have := himp.2
    omega
  | committed reason hne hcool => exact ⟨rfl, rfl⟩

theorem call_worse {m : Monitor} {c : Call} (hc : rank (aims m c) < rank m.held.state) :
    (m.call p c).2.all (fun t => !t.suppressed) = true ∧ (step p m c).held.state = aims m c := by
  cases c with
  | observe now r =>
    simp only [step, Monitor.call, Option.all_some, Bool.not_eq_true']
    by_cases hr : r.verdict = .none
    · simp only [aims, if_pos hr] at hc ⊢
      exact moved_worse (observe_nothing m.policy now m.held hr) hc
    · simp only [aims, if_neg hr] at hc ⊢
      rw [← heard_state m.held now r.verdict] at hc
      have hmoved := transition_moved m.policy (heard m.held now r.verdict)
        (desired m.policy (heard m.held now r.verdict) r.verdict r).1
        (desired m.policy (heard m.held now r.verdict) r.verdict r).2 now
      simp only [observe, if_neg hr]
      exact moved_worse hmoved hc
  | tick now =>
    simp only [step, Monitor.call, Option.all_some, Bool.not_eq_true']
    exact moved_worse (tick_moved m.policy now m.held) hc
  | reload => exact absurd hc (Int.lt_irrefl _)

theorem moved_self (h : Moved p m m.state now out) : out.1 = m := by
  cases h with
  | same reason h => rfl
  | held reason t himp ht hcool => rfl
  | committed reason hne hcool => exact absurd rfl hne

theorem moved_unhealthy (h : Moved p m .unhealthy now out) : Unfit out.1.state := by
  cases h with
  | same reason h => exact .inl h.symm
  | held reason t himp ht hcool =>
    rcases himp with ⟨hlow, hhigh⟩
    cases hs : m.state with
    | offline => exact .inr rfl
    | unhealthy => exact .inl rfl
    | unknown =>
      rw [hs] at hlow
      exact absurd hlow (by decide)
    | degraded | healthy =>
      rw [hs] at hhigh
      exact absurd hhigh (by decide)
  | committed reason hne hcool => exact .inl rfl

theorem moved_to_offline (h : Moved p m .offline now out) : Unfit out.1.state := by
  cases h with
  | same reason h => exact .inr h.symm
  | held reason t himp ht hcool =>
    have := himp.1
    have : rank m.state < 0 := himp.2
    omega
  | committed reason hne hcool => exact .inr rfl

/-- After `j` failing reports an advertiser is unfit, or all of them are counted and they are too
few. -/
def Sliding (p : Policy) (j : Nat) (m : Snapshot) : Prop :=
  Unfit m.state ∨
    (j ≤ m.consecutiveFail ∧ (0 < j → (m.consecutiveFail : Int) < p.failThreshold))

theorem quiet_sliding (hm : Sliding p j m) (h : Moved p m (aim p m m.state now) now out) :
    Sliding p j out.1 := by
  by_cases hsilent : silent p m now = true
  · rw [aim_of_silent hsilent] at h
    exact .inl (moved_to_offline h)
  · rw [Bool.not_eq_true] at hsilent
    rw [aim_of_not_silent hsilent] at h
    rw [moved_self h]
    exact hm

theorem fail_sliding (hoff : 0 < p.offlineAfter) (hm : Sliding p j m) (now : Time) {r : Report}
    (hr : r.verdict = .fail) : Sliding p (j + 1) (observe p now m r).1 := by
  have hmoved := observe_moved hoff now m (r := r) (by simp [hr])
  rw [hr, desired_fail] at hmoved
  by_cases hthreshold : p.failThreshold ≤ (heard m now .fail).consecutiveFail
  · rw [if_pos hthreshold] at hmoved
    exact .inl (moved_unhealthy hmoved)
  · rw [if_neg hthreshold] at hmoved
    rw [moved_self hmoved]
    rcases hm with hunfit | ⟨hcounted, _⟩
    · rw [← heard_state m now .fail] at hunfit
      exact .inl hunfit
    · have hcount : (heard m now .fail).consecutiveFail = m.consecutiveFail + 1 := rfl
      exact .inr ⟨by omega, fun _ => by omega⟩

theorem step_sliding {m : Monitor} (hpolicy : m.policy = p.withDefaults) {c : Call}
    (hc : c.carries = true → c.fails = true) (hm : Sliding p.withDefaults j m.held) :
    Sliding p.withDefaults (j + if c.fails then 1 else 0) (step p m c).held := by
  rw [← hpolicy] at hm ⊢
  have hoff : 0 < m.policy.offlineAfter := hpolicy ▸ withDefaults_offlineAfter p
  cases c with
  | observe now r =>
    by_cases hr : r.verdict = .none
    · have hfails : (Call.observe now r).fails = false := by simp [Call.fails, hr]
      rw [hfails]
      exact quiet_sliding hm (observe_nothing m.policy now m.held hr)
    · have hfails : (Call.observe now r).fails = true := hc (by simp [Call.carries, hr])
      rw [if_pos hfails]
      exact fail_sliding hoff hm now (by simpa [Call.fails] using hfails)
  | tick now => exact quiet_sliding hm (tick_moved m.policy now m.held)
  | reload =>
    rw [step_reload hpolicy]
    exact hm

theorem run_sliding (calls : List Call) (hcalls : ∀ c ∈ calls, c.carries = true → c.fails = true)
    {m : Monitor} (hpolicy : m.policy = p.withDefaults) (hm : Sliding p.withDefaults j m.held) :
    Sliding p.withDefaults (j + calls.countP Call.fails) (run (step p) m calls).held := by
  induction calls generalizing m j with
  | nil => exact hm
  | cons c calls ih =>
    have hstep := step_sliding hpolicy (hcalls c (.head _)) hm
    have hrest := ih (fun c' hc' => hcalls c' (.tail _ hc'))
      (step_policy c hpolicy) hstep
    rw [Base.run_cons, List.countP_cons, Nat.add_comm (calls.countP _), ← Nat.add_assoc]
    exact hrest

/-- Whatever a monitor has been through, `FailThreshold` failing reports in a row leave the
advertiser unhealthy or offline, with any number of calls that carry no signal among them; and a
change for the worse is made and never reported as held back. -/
theorem failing_leaves_unfit (p : Policy) (s : Snapshot) :
    (∀ calls : List Call, (∀ c ∈ calls, c.carries = true → c.fails = true) →
      p.withDefaults.failThreshold ≤ (calls.countP Call.fails : Nat) →
      Unfit (run (step p) ((newMonitor p).restore s) calls).held.state) ∧
    ∀ c : Call, rank (aims ((newMonitor p).restore s) c) < rank s.state →
      (((newMonitor p).restore s).call p c).2.all (fun t => !t.suppressed) = true ∧
        (step p ((newMonitor p).restore s) c).held.state = aims ((newMonitor p).restore s) c := by
  refine ⟨fun calls hcalls hcount => ?_, fun c hc => call_worse hc⟩
  have hpos := withDefaults_failThreshold p
  have hrun := run_sliding (p := p) calls hcalls (m := (newMonitor p).restore s) rfl (j := 0)
    (.inr ⟨Nat.zero_le _, fun h => absurd h (Nat.lt_irrefl 0)⟩)
  rcases hrun with hunfit | ⟨hcounted, hfew⟩
  · exact hunfit
  · -- All of them counted would be enough of them.
    have := hfew (by omega)
    omega

theorem failing_leaves_unfit_recovered :
    Unfit (run (step defaultPolicy)
      ((newMonitor defaultPolicy).restore
        { state := .healthy, consecutiveOK := 10, lastImprovedAt := some 0
          lastReportAt := some 0 })
      [.observe second { clientObserved := .fail }, .reload, .tick (2 * second),
        .observe (3 * second) { selfReport := .fail }, .observe (4 * second) {},
        .observe (5 * second) { selfReport := .ok, clientObserved := .fail }]).held.state :=
  (failing_leaves_unfit defaultPolicy _).1 _ (by decide) (by decide)

end Meshp.Health
