import Meshp.Health.Monitor
import Meshp.Routeprobe.History

/-!
# What a Report Is About

Any number of devices probe the advertisers they use and report what they find
worth reporting, and the control plane folds each report into the health of the
advertiser it names. Which probes there were is kept in a log. If the probe a
report is about made the device move, the report names where it moved to.
-/

namespace Meshp.Routeprobe

open Base (run)
open Function (update update_of_ne update_self)

abbrev AdvertiserId := Nat

/-- `handleReachabilityReport`: the verdict is folded into the health of the advertiser the report
names, if the device's network has it. `resolve` reads the name. -/
def handleReachabilityReport (resolve : String → Option AdvertiserId) (now : Time)
    (report : ReachabilityReport) (health : AdvertiserId → Health.Snapshot) :
    AdvertiserId → Health.Snapshot :=
  match resolve report.advertiserId with
  | none => health
  | some id =>
    let observed : Health.Signal := if report.reachable then .ok else .fail
    update health id
      (Health.observe Health.defaultPolicy.withDefaults now (health id)
        { clientObserved := observed }).1

structure Probe where
  device : Nat
  target : String
  reachable : Bool

/-- The devices' choosers, the health recorded of each advertiser, and every probe there has been.
-/
structure Fleet where
  choosers : Nat → Chooser := fun _ _ => {}
  health : AdvertiserId → Health.Snapshot := fun _ => {}
  probes : List Probe := []

inductive Act
  | current (device : Nat) (now : Time) (a : Wire.RouteGroupAssignment)
  | observe (device : Nat) (now : Time) (a : Wire.RouteGroupAssignment) (r : Result)
  | deliver (device : Nat) (now : Time) (group : String)

def Fleet.put (w : Fleet) (device : Nat) (group : String) (t : Tracked) : Fleet :=
  let chooser := update (w.choosers device) group t
  { w with choosers := update w.choosers device chooser }

/-- An act, with `resolve` for the names each device's session may use. -/
def Fleet.step (resolve : Nat → String → Option AdvertiserId) (w : Fleet) : Act → Fleet
  | .current device now a =>
    w.put device a.routeGroupId ((w.choosers device a.routeGroupId).current now a).1
  | .observe device now a r =>
    let held := w.choosers device a.routeGroupId
    let probed : List Probe :=
      if held.inUse = "" then [] else [⟨device, held.inUse, r.reachable⟩]
    { w.put device a.routeGroupId (held.observe now a r).1 with probes := probed ++ w.probes }
  | .deliver device now group =>
    match (w.choosers device group).unsent with
    | none => w
    | some report =>
      { w.put device group { w.choosers device group with unsent := none } with
        health := handleReachabilityReport (resolve device) now report w.health }

def Attributed (probes : List Probe) (device : Nat) (report : ReachabilityReport) : Prop :=
  ∃ p ∈ probes, p.device = device ∧ p.reachable = report.reachable ∧
    (p.target = report.advertiserId ∨
      report.switchedFromAdvertiserId ≠ "" ∧ p.target = report.switchedFromAdvertiserId)

def Waiting (w : Fleet) : Prop :=
  ∀ device group, ∀ report ∈ (w.choosers device group).unsent, Attributed w.probes device report

theorem attributed_mono {probes probes' : List Probe} (h : ∀ p ∈ probes, p ∈ probes')
    {device : Nat} {report : ReachabilityReport} (ha : Attributed probes device report) :
    Attributed probes' device report := by
  rcases ha with ⟨p, hp, hrest⟩
  exact ⟨p, h p hp, hrest⟩

theorem put_choosers (w : Fleet) (device : Nat) (group : String) (t : Tracked) (device' : Nat)
    (group' : String) :
    (w.put device group t).choosers device' group' =
      if device' = device ∧ group' = group then t else w.choosers device' group' := by
  simp only [Fleet.put]
  by_cases hd : device' = device
  · rw [hd, update_self]
    by_cases hg : group' = group
    · rw [hg, update_self, if_pos ⟨rfl, rfl⟩]
    · rw [update_of_ne hg, if_neg fun h => hg h.2]
  · rw [update_of_ne hd, if_neg fun h => hd h.1]

theorem waiting_put {w : Fleet} (hw : Waiting w) (device : Nat) (group : String) (t : Tracked)
    {probes : List Probe} (hprobes : ∀ p ∈ w.probes, p ∈ probes)
    (ht : ∀ report ∈ t.unsent, Attributed probes device report) (device' : Nat) (group' : String) :
    ∀ report ∈ ((w.put device group t).choosers device' group').unsent,
      Attributed probes device' report := by
  rw [put_choosers]
  by_cases h : device' = device ∧ group' = group
  · rw [if_pos h, h.1]
    exact ht
  · rw [if_neg h]
    intro report hreport
    exact attributed_mono hprobes (hw device' group' report hreport)

theorem recordLocked_verdict (group : String) (d : Decision) (r : Result)
    (previous : Option ReachabilityReport) :
    (recordLocked group d r previous).reachable = r.reachable ∧
      (recordLocked group d r previous).advertiserId = d.current := by
  unfold recordLocked
  cases previous with
  | none => exact ⟨rfl, rfl⟩
  | some p =>
    simp only
    split
    · exact ⟨rfl, rfl⟩
    · exact ⟨rfl, rfl⟩

theorem recordLocked_moved {d : Decision} (h : d.switched ≠ "") (group : String) (r : Result)
    (previous : Option ReachabilityReport) :
    (recordLocked group d r previous).switchedFromAdvertiserId = d.switched := by
  unfold recordLocked
  cases previous with
  | none => rfl
  | some p =>
    simp only
    rw [if_neg fun hcarry => h hcarry.1]

theorem recordLocked_attributed {now : Time} {a : Wire.RouteGroupAssignment} {s : GroupState}
    {r : Result} {out : GroupState × Decision} (h : Outcome now a s r out)
    (hused : s.currentID ≠ "") (device : Nat) (group : String)
    (previous : Option ReachabilityReport) :
    Attributed [⟨device, s.currentID, r.reachable⟩] device
      (recordLocked group out.2 r previous) := by
  obtain ⟨hreachable, hadvertiser⟩ := recordLocked_verdict group out.2 r previous
  refine ⟨_, List.mem_singleton_self _, rfl, hreachable.symm, ?_⟩
  rw [hadvertiser]
  cases h with
  | worked d hr hswitched hcurrent | failed d hr hswitched hcurrent => exact .inl hcurrent.symm
  | fellBack d hr hmove hcount hnext hswitched hcurrent
  | returned d hr hmove haway hcount hhold hswitched hcurrent =>
    rw [recordLocked_moved (hswitched ▸ hused)]
    exact .inr ⟨hswitched ▸ hused, hswitched.symm⟩

theorem observe_unsent {t : Tracked} (h : t.inUse ≠ "") (now : Time)
    (a : Wire.RouteGroupAssignment) (r : Result) :
    (t.observe now a r).1.unsent =
      if (t.observe now a r).2.report then
        some (recordLocked a.routeGroupId (t.observe now a r).2 r t.unsent)
      else t.unsent := by
  unfold Tracked.observe
  cases hs : t.state with
  | none => rfl
  | some s =>
    have hcurrent : s.currentID ≠ "" := by
      rw [Tracked.inUse, hs] at h
      exact h
    simp only [if_neg hcurrent]

theorem step_attributed {resolve : Nat → String → Option AdvertiserId} {w : Fleet} (act : Act)
    (hw : Waiting w) : Waiting (w.step resolve act) := by
  cases act with
  | current device now a =>
    refine waiting_put hw device a.routeGroupId _ (fun _ hp => hp) fun report hreport => ?_
    have hunsent : ((w.choosers device a.routeGroupId).current now a).1.unsent =
        (w.choosers device a.routeGroupId).unsent := by
      unfold Tracked.current
      split
      · rfl
      · rfl
    rw [hunsent] at hreport
    exact hw device a.routeGroupId report hreport
  | observe device now a r =>
    refine waiting_put hw device a.routeGroupId _ (fun _ hp => List.mem_append_right _ hp)
      fun report hreport => ?_
    by_cases hused : (w.choosers device a.routeGroupId).inUse = ""
    · rw [observe_unused hused] at hreport
      exact attributed_mono (fun _ hp => List.mem_append_right _ hp)
        (hw device a.routeGroupId report hreport)
    · have hprobes : (w.step resolve (.observe device now a r)).probes =
          [⟨device, (w.choosers device a.routeGroupId).inUse, r.reachable⟩] ++ w.probes := by
        simp only [Fleet.step, if_neg hused]
      rw [hprobes]
      rw [observe_unsent hused] at hreport
      split at hreport
      · cases hreport
        rw [(observe_used hused now a r).2]
        exact attributed_mono (fun _ hp => List.mem_append_left _ hp)
          (recordLocked_attributed (observeLocked_outcome _ _ _ _) hused device _ _)
      · exact attributed_mono (fun _ hp => List.mem_append_right _ hp)
          (hw device a.routeGroupId report hreport)
  | deliver device now group =>
    simp only [Fleet.step]
    cases hunsent : (w.choosers device group).unsent with
    | none => exact hw
    | some report => exact waiting_put hw device group _ (fun _ hp => hp) nofun

theorem run_attributed (resolve : Nat → String → Option AdvertiserId) (acts : List Act) :
    Waiting (run (Fleet.step resolve) {} acts) :=
  Base.run_inv Waiting (fun _ act hw => step_attributed act hw) {} acts
    fun _ _ _ h => by cases h

theorem observe_ok_consecutiveFail {p : Health.Policy} (hp : 0 < p.offlineAfter) (now : Time)
    (m : Health.Snapshot) :
    (Health.observe p now m { clientObserved := .ok }).1.consecutiveFail = 0 := by
  have hmoved := Health.observe_moved hp now m (r := { clientObserved := .ok }) (by decide)
  have hheard : (Health.heard m now .ok).consecutiveFail = 0 := rfl
  rw [Health.verdict_client_ok] at hmoved
  generalize Health.observe p now m { clientObserved := .ok } = out at hmoved
  cases hmoved with
  | same reason h => exact hheard
  | held reason t himp ht hcool => exact hheard
  | committed reason hne hcool => simp only [Health.commit, hheard, ite_self]

theorem failure_counted {resolve : Nat → String → Option AdvertiserId} {w : Fleet} {act : Act}
    {id : AdvertiserId}
    (h : (w.health id).consecutiveFail < ((w.step resolve act).health id).consecutiveFail) :
    ∃ device now group, act = .deliver device now group ∧
      ∃ report ∈ (w.choosers device group).unsent,
        resolve device report.advertiserId = some id ∧ report.reachable = false := by
  cases act with
  | current device now a | observe device now a r => exact absurd h (Nat.lt_irrefl _)
  | deliver device now group =>
    refine ⟨device, now, group, rfl, ?_⟩
    simp only [Fleet.step] at h
    cases hunsent : (w.choosers device group).unsent with
    | none =>
      rw [hunsent] at h
      exact absurd h (Nat.lt_irrefl _)
    | some report =>
      rw [hunsent] at h
      simp only [handleReachabilityReport] at h
      refine ⟨report, rfl, ?_⟩
      cases hresolve : resolve device report.advertiserId with
      | none =>
        rw [hresolve] at h
        exact absurd h (Nat.lt_irrefl _)
      | some id' =>
        rw [hresolve] at h
        by_cases hid : id = id'
        · rw [hid] at h ⊢
          refine ⟨rfl, ?_⟩
          cases hr : report.reachable with
          | false => rfl
          | true =>
            simp only [hr, if_true, update_self] at h
            rw [observe_ok_consecutiveFail (Health.withDefaults_offlineAfter _)] at h
            exact absurd h (Nat.not_lt_zero _)
        · simp only [update_of_ne hid] at h
          exact absurd h (Nat.lt_irrefl _)

/-- Whatever any number of devices are assigned and find: the outcome a report states is that of a
probe of the advertiser it names or, where it records a move, of the advertiser left behind; and
where it records none, a failure is counted against an advertiser only if a probe of that advertiser
failed. -/
theorem reports_attributed (resolve : Nat → String → Option AdvertiserId) (acts : List Act) :
    (∀ device group, ∀ report ∈ ((run (Fleet.step resolve) {} acts).choosers device group).unsent,
      Attributed (run (Fleet.step resolve) {} acts).probes device report) ∧
    ∀ device now group id,
      (∀ report ∈ ((run (Fleet.step resolve) {} acts).choosers device group).unsent,
        report.switchedFromAdvertiserId = "") →
      ((run (Fleet.step resolve) {} acts).health id).consecutiveFail <
        (((run (Fleet.step resolve) {} acts).step resolve
          (.deliver device now group)).health id).consecutiveFail →
      ∃ p ∈ (run (Fleet.step resolve) {} acts).probes,
        resolve p.device p.target = some id ∧ p.reachable = false := by
  have hwaiting := run_attributed resolve acts
  refine ⟨hwaiting, fun device now group id hplain hrises => ?_⟩
  rcases failure_counted hrises with ⟨device', now', group', hact, report, hreport, hid, hfailed⟩
  injection hact with hdevice hnow hgroup
  rw [← hdevice, ← hgroup] at hreport
  rcases hwaiting device group report hreport with ⟨p, hp, hpdevice, houtcome, htarget⟩
  refine ⟨p, hp, ?_, houtcome.trans hfailed⟩
  rcases htarget with htarget | ⟨hmove, _⟩
  · rw [hpdevice, htarget, hdevice]
    exact hid
  · exact absurd (hplain report hreport) hmove

/-- The advertisers `a` and `b`. -/
def twoAdvertisers (_ : Nat) (name : String) : Option AdvertiserId :=
  if name = "a" then some 1 else if name = "b" then some 2 else none

theorem reports_attributed_first_failure :
    let acts : List Act :=
      [.current 0 0 (pair .failover "a" "b"),
        .observe 0 0 (pair .failover "a" "b") ⟨false, 0, []⟩]
    ∃ p ∈ (run (Fleet.step twoAdvertisers) {} acts).probes,
      twoAdvertisers p.device p.target = some 1 ∧ p.reachable = false :=
  (reports_attributed twoAdvertisers _).2 0 0 "g" 1 (by decide +kernel) (by decide +kernel)

/-- A device fails its way off `a`. What it reports is that it does not reach `b`, which nothing has
probed, and the failure is counted against `b`. -/
theorem switch_report_blames_successor :
    let acts : List Act :=
      [.current 0 0 (pair .failover "a" "b"),
        .observe 0 0 (pair .failover "a" "b") ⟨false, 0, []⟩,
        .observe 0 0 (pair .failover "a" "b") ⟨false, 0, []⟩]
    let w := run (Fleet.step twoAdvertisers) {} acts
    ((w.choosers 0 "g").unsent.any fun r => r.advertiserId = "b" && !r.reachable) = true ∧
      (w.probes.all fun p => p.target = "a") = true ∧
      ((w.step twoAdvertisers (.deliver 0 0 "g")).health 2).consecutiveFail = 1 := by
  decide +kernel

section Threshold

variable (t : Tracked) (now : Time) (a : Wire.RouteGroupAssignment) (r : Result)

def Reaches : Prop :=
  t.inUse ≠ "" ∧ r.reachable = false ∧ (t.state.getD {}).consecutiveFail + 1 = failThreshold a

def Reported : Prop :=
  (t.observe now a r).2.report = true ∧ ∃ report ∈ (t.observe now a r).1.unsent,
    report.reachable = false ∧
      (report.advertiserId = t.inUse ∨ report.switchedFromAdvertiserId = t.inUse)

def Spoken : Prop :=
  mayMove a = true → fallback a.candidates t.inUse ≠ "" ∨
    (t.state.getD {}).consecutiveFail = 0 ∧ (t.state.getD {}).consecutiveOK = 0

instance decidableReaches : Decidable (Reaches t a r) :=
  inferInstanceAs (Decidable (_ ∧ _))

instance decidableReported : Decidable (Reported t now a r) :=
  inferInstanceAs (Decidable (_ ∧ _))

variable {t now a r}

theorem reported_iff (h : t.inUse ≠ "") (hr : r.reachable = false) :
    Reported t now a r ↔ (t.observe now a r).2.report = true := by
  refine ⟨And.left, fun hreport => ⟨hreport,
    recordLocked a.routeGroupId (t.observe now a r).2 r t.unsent, ?_, ?_⟩⟩
  · rw [observe_unsent h, if_pos hreport]
    rfl
  · obtain ⟨p, hp, _, hreachable, htarget⟩ := recordLocked_attributed
      (observeLocked_outcome now a (t.state.getD {}) r) h 0 a.routeGroupId t.unsent
    rw [← (observe_used h now a r).2] at hreachable htarget
    cases List.mem_singleton.1 hp
    exact ⟨hreachable.symm.trans hr, htarget.imp Eq.symm fun hmoved => hmoved.2.symm⟩

/-- After any calls about a group, the failure that reaches the threshold is reported exactly when
the device may not move, has somewhere to go, or has counted nothing before. -/
theorem threshold_reported_iff (calls : List Call) (now : Time) (a : Wire.RouteGroupAssignment)
    (r : Result) (h : Reaches (run Call.apply {} calls) a r) :
    Reported (run Call.apply {} calls) now a r ↔ Spoken (run Call.apply {} calls) a := by
  generalize run Call.apply {} calls = t at h ⊢
  obtain ⟨hused, hr, hcount⟩ := h
  rw [reported_iff hused hr, (observe_used hused now a r).2]
  have hreached : ¬(t.state.getD {}).failed.consecutiveFail < failThreshold a := by
    simp only [GroupState.failed, hcount, Nat.lt_irrefl, not_false_eq_true]
  simp only [observeLocked, Spoken, hr, Tracked.inUse]
  cases hmove : mayMove a with
  | false => simp [GroupState.failed, hcount]
  | true =>
    -- The branch for a device that may move, with the failures at the threshold.
    simp only [Bool.not_true, Bool.false_eq_true, if_false, Bool.not_false, if_true,
      if_neg hreached, forall_const]
    by_cases hnext : fallback a.candidates (t.state.getD {}).currentID = ""
    · simp [hnext]
    · simp [hnext]

theorem threshold_reported_moving :
    let calls : List Call := [.current 0 (pair .failover "a" "b"),
      .observe 0 (pair .failover "a" "b") ⟨false, 0, []⟩]
    Reaches (run Call.apply {} calls) (pair .failover "a" "b") ⟨false, 0, []⟩ ∧
      Reported (run Call.apply {} calls) 0 (pair .failover "a" "b") ⟨false, 0, []⟩ := by
  intro calls
  refine (and_iff_left_of_imp fun hreaches => ?_).2 (by decide +kernel)
  exact (threshold_reported_iff calls 0 _ _ hreaches).2 fun _ => .inl (by decide +kernel)

/-- On `b`, the last of the list, the second failure is not reported. -/
theorem threshold_unreported :
    let calls : List Call := [.current 0 (pair .failover "a" "b"),
      .observe 0 (pair .failover "a" "b") ⟨false, 0, []⟩,
      .observe 0 (pair .failover "a" "b") ⟨false, 0, []⟩,
      .observe 0 (pair .failover "a" "b") ⟨false, 0, []⟩]
    Reaches (run Call.apply {} calls) (pair .failover "a" "b") ⟨false, 0, []⟩ ∧
      ¬Reported (run Call.apply {} calls) 0 (pair .failover "a" "b") ⟨false, 0, []⟩ := by
  decide +kernel

end Threshold

end Meshp.Routeprobe
