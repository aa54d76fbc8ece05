import Meshp.Health.History

/-!
# Recovering without a Device's Word

A device that reached the advertiser is believed at once. The advertiser's own
word, or the control plane's, is believed after a run of successes, and losing
contact is meant to end the run: an advertiser that disappears starts again. A
monitor that is offline already makes no such transition, and keeps what it
counted.
-/

namespace Meshp.Health

open Base (run Along)
open Store (HealthState)

def Call.succeeds : Call → Bool
  | .observe _ r => r.verdict = .ok
  | .tick _ => false
  | .reload => false

def FindsSilence (m : Monitor) : Call → Prop
  | .observe now r => r.verdict = .none ∧ silent m.policy m.held now = true
  | .tick now => silent m.policy m.held now = true
  | .reload => False

instance decidableFindsSilence (m : Monitor) : ∀ c, Decidable (FindsSilence m c)
  | .observe _ _ => inferInstanceAs (Decidable (_ ∧ _))
  | .tick _ => inferInstanceAs (Decidable (_ = _))
  | .reload => inferInstanceAs (Decidable False)

/-- The last calls of a history, from the `n`th on, hold at least `k` reports with a signal, all of
them successful, and no call among them found a silence. -/
def UnbrokenFrom (p : Policy) (calls : List Call) (k : Int) (n : Nat) : Prop :=
  k ≤ ((calls.drop n).countP Call.carries : Nat) ∧
    (∀ c ∈ calls.drop n, c.carries = true → c.succeeds = true) ∧
    Along (step p) (fun m c => ¬FindsSilence m c) (run (step p) (newMonitor p) (calls.take n))
      (calls.drop n)

/-- The last `RecoverThreshold` reports of a history that carried a signal all succeeded, and no
silence was found between them. -/
def Earned (p : Policy) (calls : List Call) : Prop :=
  ∃ n, n ≤ calls.length ∧ UnbrokenFrom p calls p.withDefaults.recoverThreshold n

instance decidableUnbrokenFrom (p : Policy) (calls : List Call) (k : Int) (n : Nat) :
    Decidable (UnbrokenFrom p calls k n) :=
  inferInstanceAs (Decidable (_ ∧ _ ∧ _))

instance decidableEarned (p : Policy) (calls : List Call) : Decidable (Earned p calls) :=
  inferInstanceAs (Decidable (∃ n, n ≤ calls.length ∧ _))

def Recovers (p : Policy) (m : Monitor) (now : Time) (r : Report) : Prop :=
  r.clientObserved = .none ∧
    (m.call p (.observe now r)).2.any (fun t => t.changed && t.toState = .healthy) = true

instance decidableRecovers (p : Policy) (m : Monitor) (now : Time) (r : Report) :
    Decidable (Recovers p m now r) :=
  inferInstanceAs (Decidable (_ ∧ _))

def SilenceClears (m : Monitor) (c : Call) : Prop :=
  FindsSilence m c → m.held.state = .offline → m.held.consecutiveOK = 0

instance decidableSilenceClears (m : Monitor) (c : Call) : Decidable (SilenceClears m c) :=
  inferInstanceAs (Decidable (_ → _))

inductive Counts (p : Policy) (m : Monitor) (c : Call) : Prop
  | longer (hc : c.carries = true) (hok : c.succeeds = true)
      (h : (step p m c).held.consecutiveOK = m.held.consecutiveOK + 1)
  | same (hc : c.carries = false) (hs : ¬FindsSilence m c)
      (h : (step p m c).held.consecutiveOK = m.held.consecutiveOK)
  | broken (h : (step p m c).held.consecutiveOK = 0)

variable {m : Snapshot} {now : Time} {out : Snapshot × Transition} {p : Policy} {r : Report}
  {c : Call}

theorem moved_consecutiveOK {w : HealthState} (hw : w = .offline → m.state = .offline)
    (h : Moved p m w now out) : out.1.consecutiveOK = m.consecutiveOK := by
  cases h with
  | same reason h => rfl
  | held reason t himp ht hcool => rfl
  | committed reason hne hcool =>
    have hoffline : w ≠ .offline := fun h => hne (h.trans (hw h).symm)
    exact if_neg hoffline

theorem moved_offline (hm : m.state = .offline → m.consecutiveOK = 0)
    (h : Moved p m .offline now out) : out.1.consecutiveOK = 0 := by
  cases h with
  | same reason h => exact hm h.symm
  | held reason t himp ht hcool =>
    have := himp.1
    have : rank m.state < 0 := himp.2
    omega
  | committed reason hne hcool => rfl

theorem desired_ok_offline (h : (desired p m .ok r).1 = .offline) : m.state = .offline := by
  simp only [desired] at h
  split at h
  · cases h
  · split at h
    · cases h
    · exact h

theorem quiet_counts (hm : silent p m now = true → m.state = .offline → m.consecutiveOK = 0)
    (h : Moved p m (aim p m m.state now) now out) :
    (silent p m now = false ∧ out.1.consecutiveOK = m.consecutiveOK) ∨
      out.1.consecutiveOK = 0 := by
  by_cases hsilent : silent p m now = true
  · rw [aim_of_silent hsilent] at h
    exact .inr (moved_offline (hm hsilent) h)
  · rw [Bool.not_eq_true] at hsilent
    rw [aim_of_not_silent hsilent] at h
    exact .inl ⟨hsilent, moved_consecutiveOK id h⟩

theorem observe_counts (hoff : 0 < p.offlineAfter) (now : Time) (m : Snapshot)
    (hr : r.verdict ≠ .none) :
    (r.verdict = .ok ∧ (observe p now m r).1.consecutiveOK = m.consecutiveOK + 1) ∨
      (observe p now m r).1.consecutiveOK = 0 := by
  have hmoved := observe_moved hoff now m hr
  cases hv : r.verdict with
  | none => exact absurd hv hr
  | ok =>
    rw [hv] at hmoved
    refine .inl ⟨rfl, ?_⟩
    rw [moved_consecutiveOK desired_ok_offline hmoved]
    rfl
  | fail | mixed =>
    rw [hv] at hmoved
    generalize observe p now m r = out at hmoved
    cases hmoved with
    | same reason h => exact .inr rfl
    | held reason t himp ht hcool => exact .inr rfl
    | committed reason hne hcool => exact .inr (ite_self 0)

theorem step_counts {m : Monitor} (hpolicy : m.policy = p.withDefaults) (hc : SilenceClears m c) :
    Counts p m c := by
  have hoff : 0 < m.policy.offlineAfter := hpolicy ▸ withDefaults_offlineAfter p
  cases c with
  | observe now r =>
    by_cases hr : r.verdict = .none
    · have hquiet := quiet_counts (fun h => hc ⟨hr, h⟩) (observe_nothing m.policy now m.held hr)
      rcases hquiet with ⟨hsilent, hsame⟩ | hzero
      · refine .same (by simp [Call.carries, hr]) (fun hfound => ?_) hsame
        rw [hfound.2] at hsilent
        cases hsilent
      · exact .broken hzero
    · rcases observe_counts hoff now m.held hr with ⟨hok, hmore⟩ | hzero
      · exact .longer (by simp [Call.carries, hr]) (by simp [Call.succeeds, hok]) hmore
      · exact .broken hzero
  | tick now =>
    rcases quiet_counts hc (tick_moved m.policy now m.held) with ⟨hsilent, hsame⟩ | hzero
    · refine .same rfl (fun hfound => ?_) hsame
      rw [show silent m.policy m.held now = true from hfound] at hsilent
      cases hsilent
    · exact .broken hzero
  | reload => exact .same rfl id (by rw [step_reload hpolicy])

theorem UnbrokenFrom.concat {calls : List Call} {k : Int} {n : Nat} (hn : n ≤ calls.length)
    (h : UnbrokenFrom p calls k n) (hok : c.carries = true → c.succeeds = true)
    (hs : ¬FindsSilence (run (step p) (newMonitor p) calls) c) :
    UnbrokenFrom p (calls ++ [c]) (k + if c.carries then 1 else 0) n := by
  rcases h with ⟨hcount, hall, hsilence⟩
  have hdrop : (calls ++ [c]).drop n = calls.drop n ++ [c] := List.drop_append_of_le_length hn
  have htake : (calls ++ [c]).take n = calls.take n := List.take_append_of_le_length hn
  refine ⟨?_, ?_, ?_⟩
  · rw [hdrop, List.countP_append, List.countP_singleton]
    by_cases hc : c.carries = true
    · rw [if_pos hc, if_pos hc]
      push_cast
      omega
    · rw [if_neg hc, if_neg hc]
      push_cast
      omega
  · rw [hdrop]
    intro c' hc' hcarries
    rcases List.mem_append.1 hc' with hc' | hc'
    · exact hall c' hc' hcarries
    · rw [List.mem_singleton.1 hc'] at hcarries ⊢
      exact hok hcarries
  · rw [hdrop, htake, Base.along_append, ← Base.run_append, List.take_append_drop]
    exact ⟨hsilence, hs, trivial⟩

theorem not_findsSilence_of_carries {m : Monitor} (hc : c.carries = true) : ¬FindsSilence m c := by
  cases c with
  | observe now r =>
    intro hfound
    simp [Call.carries, hfound.1] at hc
  | tick now => cases hc
  | reload => cases hc

theorem unbroken_counted (p : Policy) (calls : List Call)
    (hcalls : Along (step p) SilenceClears (newMonitor p) calls) :
    ∃ n, n ≤ calls.length ∧
      UnbrokenFrom p calls (run (step p) (newMonitor p) calls).held.consecutiveOK n := by
  induction calls using List.reverseRecOn with
  | nil => exact ⟨0, Nat.le_refl _, Int.le_refl 0, by simp, trivial⟩
  | append_singleton calls c ih =>
    rw [Base.along_append] at hcalls
    rcases ih hcalls.1 with ⟨n, hn, hrun⟩
    have hlength : (calls ++ [c]).length = calls.length + 1 := List.length_append
    rw [Base.run_append, Base.run_cons, Base.run_nil]
    cases step_counts (run_policy p calls) hcalls.2.1 with
    | longer hc hsucc h =>
      have hmore := hrun.concat hn (fun _ => hsucc) (not_findsSilence_of_carries hc)
      rw [if_pos hc] at hmore
      rw [h]
      exact ⟨n, by omega, hmore⟩
    | same hc hs h =>
      have hmore := hrun.concat hn (fun h => absurd h (by simp [hc])) hs
      rw [if_neg (by simp [hc]), Int.add_zero] at hmore
      rw [h]
      exact ⟨n, by omega, hmore⟩
    | broken h =>
      -- Nothing is counted, so the run starts after this call.
      refine ⟨(calls ++ [c]).length, Nat.le_refl _, ?_⟩
      rw [h]
      refine ⟨?_, ?_, ?_⟩
      · rw [List.drop_length]
        decide
      · rw [List.drop_length]
        exact fun c' hc' => absurd hc' List.not_mem_nil
      · rw [List.drop_length]
        trivial

theorem desired_healthy {v : Verdict} (hr : r.clientObserved = .none) (hm : m.state ≠ .healthy)
    (h : (desired p m v r).1 = .healthy) : v = .ok ∧ p.recoverThreshold ≤ m.consecutiveOK := by
  cases v with
  | none => exact absurd h hm
  | fail =>
    rw [desired_fail] at h
    split at h
    · cases h
    · exact absurd h hm
  | mixed =>
    simp only [desired] at h
    split at h
    · cases h
    · exact absurd h hm
  | ok =>
    simp only [desired, hr, reduceCtorEq, if_false] at h
    split at h
    · exact ⟨rfl, ‹_›⟩
    · exact absurd h hm

theorem moved_changed {w : HealthState} (h : Moved p m w now out) (hchanged : out.2.changed = true) :
    out.2.toState = w ∧ out.2.toState ≠ m.state := by
  cases h with
  | same reason h => cases hchanged
  | held reason t himp ht hcool => cases hchanged
  | committed reason hne hcool => exact ⟨rfl, hne⟩

theorem recovers_counted {m : Monitor} (hpolicy : m.policy = p.withDefaults)
    (h : Recovers p m now r) :
    r.verdict = .ok ∧ p.withDefaults.recoverThreshold ≤ (m.held.consecutiveOK + 1 : Nat) := by
  have hoff : 0 < m.policy.offlineAfter := hpolicy ▸ withDefaults_offlineAfter p
  rcases h with ⟨hclient, htrans⟩
  simp only [Monitor.call, Option.any_some, Bool.and_eq_true, decide_eq_true_eq] at htrans
  by_cases hr : r.verdict = .none
  · -- Nothing was measured: the only way to move is to go offline.
    have hchanged := moved_changed (observe_nothing m.policy now m.held hr) htrans.1
    rw [htrans.2] at hchanged
    rcases hchanged with ⟨haim, hne⟩
    unfold aim at haim
    split at haim
    · cases haim
    · exact absurd haim hne
  · have hchanged := moved_changed (observe_moved hoff now m.held hr) htrans.1
    rw [htrans.2] at hchanged
    have hdesired := desired_healthy hclient (Ne.symm hchanged.2) hchanged.1.symm
    refine ⟨hdesired.1, ?_⟩
    have hcount := hdesired.2
    rw [hdesired.1, hpolicy] at hcount
    exact hcount

/-- In a history in which no silence is found by a monitor that is offline with successes counted, a
report without a device's word that makes the advertiser healthy ends a run of `RecoverThreshold`
successes, with no silence found among them. -/
theorem recovery_earned (p : Policy) (calls : List Call)
    (hcalls : Along (step p) SilenceClears (newMonitor p) calls) (now : Time) (r : Report)
    (h : Recovers p (run (step p) (newMonitor p) calls) now r) :
    Earned p (calls ++ [.observe now r]) := by
  rcases recovers_counted (run_policy p calls) h with ⟨hok, hcount⟩
  rcases unbroken_counted p calls hcalls with ⟨n, hn, hrun⟩
  have hcarries : (Call.observe now r).carries = true := by simp [Call.carries, hok]
  have hmore := hrun.concat hn (c := .observe now r) (fun _ => by simp [Call.succeeds, hok])
    (not_findsSilence_of_carries hcarries)
  rw [if_pos hcarries] at hmore
  have hlength : (calls ++ [Call.observe now r]).length = calls.length + 1 := List.length_append
  refine ⟨n, by omega, ?_, hmore.2⟩
  have := hmore.1
  push_cast at hcount
  omega

def brisk : Policy :=
  { defaultPolicy with recoverThreshold := 2, cooldown := -1 }

theorem recovery_earned_brisk :
    Recovers brisk (run (step brisk) (newMonitor brisk) [.observe 0 { controlProbe := .ok }])
        second { controlProbe := .ok } ∧
      Earned brisk [.observe 0 { controlProbe := .ok }, .observe second { controlProbe := .ok }] :=
  ⟨by decide +kernel,
    recovery_earned brisk [.observe 0 { controlProbe := .ok }] (by decide +kernel) second
      { controlProbe := .ok } (by decide +kernel)⟩

def relapsing : List Call :=
  [.observe 0 { controlProbe := .ok }, .tick (90 * second),
    .observe (100 * second) { controlProbe := .ok }, .tick (190 * second)]

/-- The success from before the second silence still counts. -/
theorem recovery_across_silence :
    Recovers brisk (run (step brisk) (newMonitor brisk) relapsing) (200 * second)
        { controlProbe := .ok } ∧
      ¬Earned brisk (relapsing ++ [.observe (200 * second) { controlProbe := .ok }]) := by
  decide +kernel

end Meshp.Health
