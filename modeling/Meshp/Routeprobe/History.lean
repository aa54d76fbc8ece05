import Meshp.Base.Run
import Meshp.Routeprobe.Chooser

/-!
# What Moves a Device between Advertisers

One group, over any sequence of calls on the chooser, with an assignment that may
be another one in every call. Beside what the chooser holds, a log is kept of what
really happened: which advertiser each probe went through and what came of it, and
when the advertiser in use became another one. The chooser's counters and its time
of the last move are its own account of that log.
-/

namespace Meshp.Routeprobe

open Base (run Along)

inductive Call
  | current (now : Time) (a : Wire.RouteGroupAssignment)
  | observe (now : Time) (a : Wire.RouteGroupAssignment) (r : Result)

def Call.time : Call → Time
  | .current now _ => now
  | .observe now _ _ => now

def Call.apply (t : Tracked) : Call → Tracked
  | .current now a => (t.current now a).1
  | .observe now a r => (t.observe now a r).1

def Tracked.inUse (t : Tracked) : String :=
  (t.state.getD {}).currentID

/-- Something that happened: a probe, or the advertiser in use becoming another one. -/
inductive Entry
  | probed (target : String) (reachable : Bool)
  | changed (left : String) (at_ : Time)
  deriving DecidableEq

structure Trail where
  tracked : Tracked := {}
  log : List Entry := []
  clock : Time := 0

def Call.probe (t : Tracked) : Call → List Entry
  | .current _ _ => []
  | .observe _ _ r => if t.inUse = "" then [] else [.probed t.inUse r.reachable]

def Trail.step (w : Trail) (c : Call) : Trail :=
  let next := c.apply w.tracked
  let change :=
    if next.inUse = w.tracked.inUse then [] else [Entry.changed w.tracked.inUse c.time]
  { tracked := next, log := change ++ c.probe w.tracked ++ w.log, clock := c.time }

def outcomes : List Entry → List Bool
  | .probed _ b :: log => b :: outcomes log
  | .changed _ _ :: _ => []
  | [] => []

def changedAt : List Entry → Option Time
  | .probed _ _ :: log => changedAt log
  | .changed _ t :: _ => some t
  | [] => none

/-- How many of the newest outcomes are `b`. -/
def streak (b : Bool) : List Bool → Nat
  | o :: os => if o = b then streak b os + 1 else 0
  | [] => 0

def Justified (w : Trail) (now : Time) (a : Wire.RouteGroupAssignment) (r : Result) : Prop :=
  let log := Entry.probed w.tracked.inUse r.reachable :: w.log
  (w.tracked.observe now a r).2.switched ≠ "" →
    if r.reachable then
      recoverThreshold a ≤ streak true (outcomes log) ∧
        ∃ t ∈ changedAt log, (minHold a : Int) ≤ (now : Int) - t
    else failThreshold a ≤ streak false (outcomes log)

instance decidableJustified (w : Trail) (now : Time) (a : Wire.RouteGroupAssignment) (r : Result) :
    Decidable (Justified w now a r) :=
  inferInstanceAs (Decidable (_ → ite _ _ _))

def PinnedStays (w : Trail) : Call → Prop
  | .current _ a =>
    a.mode = .pinned → ∀ first ∈ a.candidates.head?, first.advertiserId = w.tracked.inUse
  | .observe _ _ _ => True

instance decidablePinnedStays (w : Trail) : ∀ c, Decidable (PinnedStays w c)
  | .current _ _ => inferInstanceAs (Decidable (_ → _))
  | .observe _ _ _ => inferInstanceAs (Decidable True)

/-- The chooser's account of the log is right: no more is counted than happened since the last
change, and the last move it timed is no older than that. -/
structure Accounted (w : Trail) (s : GroupState) : Prop where
  fails : s.consecutiveFail ≤ streak false (outcomes w.log)
  oks : s.consecutiveOK ≤ streak true (outcomes w.log)
  unused : s.currentID = "" → s.consecutiveFail = 0 ∧ s.consecutiveOK = 0
  timed : s.currentID ≠ "" →
    ∃ t u, s.switchedAt = some t ∧ changedAt w.log = some u ∧ u ≤ t
  past : ∀ u, changedAt w.log = some u → u ≤ w.clock

variable {a : Wire.RouteGroupAssignment} {t : Tracked} {c : Call} {w : Trail}

theorem current_none (now : Time) (ha : a.candidates = []) (t : Tracked) :
    (t.current now a).1 = t := by
  rw [Tracked.current, if_pos ha]

theorem current_state (now : Time) (ha : a.candidates ≠ []) (t : Tracked) :
    (t.current now a).1.state.getD {} = settle now a (t.state.getD {}) := by
  rw [Tracked.current, if_neg ha]
  rfl

theorem observe_unused (h : t.inUse = "") (now : Time) (a : Wire.RouteGroupAssignment) (r : Result) :
    t.observe now a r = (t, {}) := by
  unfold Tracked.observe
  cases hs : t.state with
  | none => rfl
  | some s =>
    have hcurrent : s.currentID = "" := by
      rw [Tracked.inUse, hs] at h
      exact h
    exact if_pos hcurrent

theorem observe_used (h : t.inUse ≠ "") (now : Time) (a : Wire.RouteGroupAssignment) (r : Result) :
    (t.observe now a r).1.state.getD {} = (observeLocked now a (t.state.getD {}) r).1 ∧
      (t.observe now a r).2 = (observeLocked now a (t.state.getD {}) r).2 := by
  unfold Tracked.observe
  cases hs : t.state with
  | none =>
    rw [Tracked.inUse, hs] at h
    exact absurd rfl h
  | some s =>
    have hcurrent : s.currentID ≠ "" := by
      rw [Tracked.inUse, hs] at h
      exact h
    simp only [if_neg hcurrent, Option.getD_some, and_self]

theorem step_log_same (h : (c.apply w.tracked).inUse = w.tracked.inUse) :
    (w.step c).log = c.probe w.tracked ++ w.log := by
  simp only [Trail.step, if_pos h, List.nil_append]

theorem step_log_changed (h : (c.apply w.tracked).inUse ≠ w.tracked.inUse) :
    (w.step c).log = .changed w.tracked.inUse c.time :: (c.probe w.tracked ++ w.log) := by
  simp only [Trail.step, if_neg h, List.cons_append, List.nil_append]

theorem accounted_changed {s' : GroupState} (hne : (c.apply w.tracked).inUse ≠ w.tracked.inUse)
    (hfail : s'.consecutiveFail = 0) (hok : s'.consecutiveOK = 0)
    (hat : s'.switchedAt = some c.time) : Accounted (w.step c) s' := by
  have hlog := step_log_changed hne
  refine ⟨?_, ?_, fun _ => ⟨hfail, hok⟩, fun _ => ⟨c.time, c.time, hat, ?_, Nat.le_refl _⟩, ?_⟩
  · rw [hfail]
    exact Nat.zero_le _
  · rw [hok]
    exact Nat.zero_le _
  · rw [hlog]
    rfl
  · intro u hu
    rw [hlog] at hu
    cases hu
    exact Nat.le_refl _

theorem accounted_same {s s' : GroupState} (hw : Accounted w s) (hclock : w.clock ≤ c.time)
    (hsame : (c.apply w.tracked).inUse = w.tracked.inUse) (hid : s'.currentID = s.currentID)
    (hfail : s'.consecutiveFail ≤ streak false (outcomes (w.step c).log))
    (hok : s'.consecutiveOK ≤ streak true (outcomes (w.step c).log))
    (hunused : s'.currentID = "" → s'.consecutiveFail = 0 ∧ s'.consecutiveOK = 0)
    (hat : s'.switchedAt = s.switchedAt ∨ s'.switchedAt = some c.time) :
    Accounted (w.step c) s' := by
  have hchanged : changedAt (w.step c).log = changedAt w.log := by
    rw [step_log_same hsame]
    cases c with
    | current now a => rfl
    | observe now a r =>
      simp only [Call.probe]
      split
      · rfl
      · rfl
  refine ⟨hfail, hok, hunused, fun hused => ?_, fun u hu => ?_⟩
  · rw [hid] at hused
    rcases hw.timed hused with ⟨t, u, ht, hu, hle⟩
    rw [hchanged]
    rcases hat with hat | hat
    · exact ⟨t, u, hat.trans ht, hu, hle⟩
    · exact ⟨c.time, u, hat, hu, Nat.le_trans (hw.past u hu) hclock⟩
  · rw [hchanged] at hu
    exact Nat.le_trans (hw.past u hu) hclock

theorem current_accounted {now : Time} (hw : Accounted w (w.tracked.state.getD {}))
    (hclock : w.clock ≤ now) (hpinned : PinnedStays w (.current now a)) :
    Accounted (w.step (.current now a)) ((w.step (.current now a)).tracked.state.getD {}) := by
  have hstate : (w.step (.current now a)).tracked = (w.tracked.current now a).1 := rfl
  have hlog : ∀ h : ((Call.current now a).apply w.tracked).inUse = w.tracked.inUse,
      (w.step (.current now a)).log = w.log := fun h => step_log_same h
  rw [hstate]
  cases ha : a.candidates with
  | nil =>
    have hsame := current_none now ha w.tracked
    have huse : ((Call.current now a).apply w.tracked).inUse = w.tracked.inUse := by
      rw [Call.apply, hsame]
    rw [hsame]
    refine accounted_same hw hclock huse rfl ?_ ?_ hw.unused (.inl rfl)
    · rw [hlog huse]
      exact hw.fails
    · rw [hlog huse]
      exact hw.oks
  | cons first rest =>
    have hnonempty : a.candidates ≠ [] := by simp [ha]
    have huse : ((Call.current now a).apply w.tracked).inUse =
        (settle now a (w.tracked.state.getD {})).currentID := by
      rw [Call.apply, Tracked.inUse, current_state now hnonempty]
    rw [current_state now hnonempty]
    have hsettled := settle_settled now ha (w.tracked.state.getD {})
    generalize settle now a (w.tracked.state.getD {}) = s' at hsettled huse ⊢
    -- A settlement that leaves the advertiser in use leaves its counters too.
    have hkept : s'.currentID = (w.tracked.state.getD {}).currentID →
        s'.consecutiveFail = (w.tracked.state.getD {}).consecutiveFail →
        s'.consecutiveOK = (w.tracked.state.getD {}).consecutiveOK →
        (s'.switchedAt = (w.tracked.state.getD {}).switchedAt ∨ s'.switchedAt = some now) →
        Accounted (w.step (.current now a)) s' := by
      intro hid hfail hok hat
      rw [hid] at huse
      refine accounted_same hw hclock huse hid ?_ ?_ ?_ hat
      · rw [hlog huse, hfail]
        exact hw.fails
      · rw [hlog huse, hok]
        exact hw.oks
      · rw [hid, hfail, hok]
        exact hw.unused
    cases hsettled with
    | held h hmode => exact hkept rfl rfl rfl (.inl rfl)
    | pinned hmode =>
      have hfirst : first.advertiserId = w.tracked.inUse :=
        hpinned hmode first (by rw [ha]; rfl)
      exact hkept hfirst rfl rfl (.inl rfl)
    | chosen h hmode =>
      by_cases hfirst : first.advertiserId = ""
      · exact hkept (hfirst.trans h.symm) rfl rfl (.inr rfl)
      · have hzero := hw.unused h
        refine accounted_changed ?_ hzero.1 hzero.2 rfl
        rw [huse, Tracked.inUse, h]
        exact hfirst
    | abandoned h hmode hfirst =>
      refine accounted_changed ?_ rfl rfl rfl
      rw [huse]
      exact hfirst

theorem observe_accounted {now : Time} {r : Result} (hw : Accounted w (w.tracked.state.getD {}))
    (hclock : w.clock ≤ now) :
    Accounted (w.step (.observe now a r))
      ((w.step (.observe now a r)).tracked.state.getD {}) := by
  have hstate : (w.step (.observe now a r)).tracked = (w.tracked.observe now a r).1 := rfl
  rw [hstate]
  by_cases hused : w.tracked.inUse = ""
  · have hsame := observe_unused hused now a r
    have huse : ((Call.observe now a r).apply w.tracked).inUse = w.tracked.inUse := by
      rw [Call.apply, hsame]
    have hzero := hw.unused hused
    rw [hsame]
    refine accounted_same hw hclock huse rfl ?_ ?_ hw.unused (.inl rfl)
    · rw [hzero.1]
      exact Nat.zero_le _
    · rw [hzero.2]
      exact Nat.zero_le _
  · have huse : ((Call.observe now a r).apply w.tracked).inUse =
        (observeLocked now a (w.tracked.state.getD {}) r).1.currentID := by
      rw [Call.apply, Tracked.inUse, (observe_used hused now a r).1]
    have hprobe : (Call.observe now a r).probe w.tracked =
        [.probed w.tracked.inUse r.reachable] := if_neg hused
    rw [(observe_used hused now a r).1]
    have houtcome := observeLocked_outcome now a (w.tracked.state.getD {}) r
    generalize observeLocked now a (w.tracked.state.getD {}) r = out at houtcome huse ⊢
    cases houtcome with
    | worked d hr hswitched hcurrent =>
      have hlog := step_log_same (c := .observe now a r) huse
      rw [hprobe, hr] at hlog
      refine accounted_same hw hclock huse rfl (Nat.zero_le _) ?_ (fun h => absurd h hused)
        (.inl rfl)
      rw [hlog]
      exact Nat.succ_le_succ hw.oks
    | failed d hr hswitched hcurrent =>
      have hlog := step_log_same (c := .observe now a r) huse
      rw [hprobe, hr] at hlog
      refine accounted_same hw hclock huse rfl ?_ (Nat.zero_le _) (fun h => absurd h hused)
        (.inl rfl)
      rw [hlog]
      exact Nat.succ_le_succ hw.fails
    | fellBack d hr hmove hcount hnext hswitched hcurrent =>
      -- A list may name the same advertiser twice in a row.
      by_cases hself : fallback a.candidates (w.tracked.state.getD {}).currentID =
          w.tracked.inUse
      · exact accounted_same hw hclock (huse.trans hself) hself (Nat.zero_le _) (Nat.zero_le _)
          (fun _ => ⟨rfl, rfl⟩) (.inr rfl)
      · refine accounted_changed ?_ rfl rfl rfl
        rw [huse]
        exact hself
    | returned d hr hmove haway hcount hhold hswitched hcurrent =>
      refine accounted_changed ?_ rfl rfl rfl
      rw [huse]
      exact Ne.symm haway

theorem step_accounted (hw : Accounted w (w.tracked.state.getD {})) (hclock : w.clock ≤ c.time)
    (hpinned : PinnedStays w c) : Accounted (w.step c) ((w.step c).tracked.state.getD {}) := by
  cases c with
  | current now a => exact current_accounted hw hclock hpinned
  | observe now a r => exact observe_accounted hw hclock

/-- A move either falls back from an advertiser that has failed often enough, or returns. -/
theorem observe_moved {now : Time} {r : Result} (h : (t.observe now a r).2.switched ≠ "") :
    let s := t.state.getD {}
    s.currentID ≠ "" ∧ (r.reachable = false ∧ failThreshold a ≤ s.consecutiveFail + 1 ∨
      r.reachable = true ∧ mayMove a = true ∧ s.currentID ≠ s.preferredID ∧
        recoverThreshold a ≤ s.consecutiveOK + 1 ∧ holding now a s = false) := by
  by_cases hused : t.inUse = ""
  · rw [observe_unused hused] at h
    exact absurd rfl h
  · rw [(observe_used hused now a r).2] at h
    have houtcome := observeLocked_outcome now a (t.state.getD {}) r
    generalize observeLocked now a (t.state.getD {}) r = out at houtcome h
    cases houtcome with
    | worked d hr hswitched hcurrent | failed d hr hswitched hcurrent => exact absurd hswitched h
    | fellBack d hr hmove hcount hnext hswitched hcurrent => exact ⟨hused, .inl ⟨hr, hcount⟩⟩
    | returned d hr hmove haway hcount hhold hswitched hcurrent =>
      exact ⟨hused, .inr ⟨hr, hmove, haway, hcount, hhold⟩⟩

theorem justified_of_accounted (hw : Accounted w (w.tracked.state.getD {})) (now : Time)
    (a : Wire.RouteGroupAssignment) (r : Result) : Justified w now a r := by
  intro hmoved
  have hstreak : ∀ b, streak b (outcomes (.probed w.tracked.inUse b :: w.log)) =
      streak b (outcomes w.log) + 1 := by simp [outcomes, streak]
  rcases observe_moved hmoved with ⟨hused, ⟨hr, hcount⟩ | ⟨hr, _, _, hcount, hhold⟩⟩
  · rw [if_neg (by simp [hr]), hr, hstreak]
    exact Nat.le_trans hcount (Nat.succ_le_succ hw.fails)
  · rw [if_pos hr, hr, hstreak]
    rcases hw.timed hused with ⟨t, u, ht, hu, hle⟩
    refine ⟨Nat.le_trans hcount (Nat.succ_le_succ hw.oks), u, hu, ?_⟩
    rw [holding, ht, decide_eq_false_iff_not] at hhold
    have : (u : Int) ≤ t := Int.ofNat_le.2 hle
    omega

/-- In every sequence of calls with times in order, whatever the assignments are, in which a pinned
assignment always finds its first candidate in use, every move an observation makes is justified. -/
theorem moves_justified (calls : List Call)
    (hcalls : Along Trail.step (fun w c => w.clock ≤ c.time ∧ PinnedStays w c) {} calls)
    (now : Time) (a : Wire.RouteGroupAssignment) (r : Result) :
    Justified (run Trail.step {} calls) now a r := by
  refine justified_of_accounted ?_ now a r
  refine Base.run_inv_along (fun w : Trail => Accounted w (w.tracked.state.getD {}))
    (fun w c hw hc => step_accounted hw hc.1 hc.2) {} calls ?_ hcalls
  exact ⟨Nat.le_refl _, Nat.le_refl _, fun _ => ⟨rfl, rfl⟩, fun h => absurd rfl h, nofun⟩

def pair (mode : Wire.Mode) (first second : String) : Wire.RouteGroupAssignment :=
  let candidate (id : String) : Wire.RouteCandidate :=
    { advertiserId := id, peerPublicKey := id, priority := 1, weight := 1
      serverHealth := .healthy, region := "", city := "", displayName := id }
  { routeGroupId := "g", name := "branch", mode
    localFailover :=
      { enabled := true, failThreshold := 2, recoverThreshold := 2, minHoldSeconds := 1
        probeTargets := [], probeQuorum := 0, probeIntervalMs := 0 }
    prefixes := [], mappedPrefixes := [], candidates := [candidate first, candidate second] }

theorem moves_justified_pair :
    let out := pair .failover "a" "b"
    let calls : List Call :=
      [.current 0 out, .observe 0 out ⟨false, 0, []⟩, .observe 0 out ⟨false, 0, []⟩,
        .observe second out ⟨true, 0, []⟩]
    ((run Trail.step {} calls).tracked.observe second out ⟨true, 0, []⟩).2.switched = "b" ∧
      Justified (run Trail.step {} calls) second out ⟨true, 0, []⟩ :=
  ⟨by decide +kernel, moves_justified _ (by decide +kernel) _ _ _⟩

/-- A failure of `a` is counted; then the group is pinned with `b` first, and the first failure of
`b` moves the device on. -/
theorem move_after_pinned_change :
    let calls : List Call :=
      [.current 0 (pair .failover "a" "b"), .observe 0 (pair .failover "a" "b") ⟨false, 0, []⟩,
        .current 1 (pair .pinned "b" "a")]
    Along Trail.step (fun w c => w.clock ≤ c.time) {} calls ∧
      ¬Justified (run Trail.step {} calls) 1 (pair .pinned "b" "a") ⟨false, 0, []⟩ := by
  decide +kernel

def sinceLeft (x : String) : List Entry → List Entry
  | .probed target b :: log => .probed target b :: sinceLeft x log
  | .changed left t :: log => if left = x then [] else .changed left t :: sinceLeft x log
  | [] => []

def Entry.isProbe : Entry → Bool
  | .probed _ _ => true
  | .changed _ _ => false

def Answered (w : Trail) : Call → Prop
  | .current _ _ => True
  | .observe now a r =>
    let s := w.tracked.state.getD {}
    let log := Entry.probed w.tracked.inUse r.reachable :: w.log
    (w.tracked.observe now a r).2.switched ≠ "" → r.reachable = true →
      .probed s.preferredID true ∈
        ((sinceLeft s.preferredID log).filter Entry.isProbe).take (s.consecutiveOK + 1)

def Returning (w : Trail) : Call → Prop
  | .current _ _ => False
  | .observe now a r =>
    let s := w.tracked.state.getD {}
    r.reachable = true ∧ mayMove a = true ∧ s.currentID ≠ "" ∧ s.currentID ≠ s.preferredID ∧
      recoverThreshold a ≤ s.consecutiveOK + 1 ∧ holding now a s = false

instance decidableAnswered (w : Trail) : ∀ c, Decidable (Answered w c)
  | .current _ _ => inferInstanceAs (Decidable True)
  | .observe _ _ _ => inferInstanceAs (Decidable (_ → _ → _))

def Unprobed (w : Trail) : Prop :=
  ∀ x, x ≠ w.tracked.inUse → ∀ b, Entry.probed x b ∉ sinceLeft x w.log

theorem sinceLeft_probe {x : String} (hx : x ≠ t.inUse) (c : Call) {log : List Entry} {b : Bool}
    (h : Entry.probed x b ∈ sinceLeft x (c.probe t ++ log)) :
    Entry.probed x b ∈ sinceLeft x log := by
  cases c with
  | current now a => exact h
  | observe now a r =>
    simp only [Call.probe] at h
    split at h
    · exact h
    · rcases List.mem_cons.1 h with hhead | htail
      · injection hhead with hx'
        exact absurd hx' hx
      · exact htail

theorem step_unprobed (c : Call) (hw : Unprobed w) : Unprobed (w.step c) := by
  intro x hx b hmem
  by_cases hsame : (c.apply w.tracked).inUse = w.tracked.inUse
  · rw [step_log_same hsame] at hmem
    have hx' : x ≠ w.tracked.inUse := fun h => hx (h.trans hsame.symm)
    exact hw x hx' b (sinceLeft_probe hx' c hmem)
  · rw [step_log_changed hsame, sinceLeft] at hmem
    by_cases hleft : w.tracked.inUse = x
    · rw [if_pos hleft] at hmem
      cases hmem
    · rw [if_neg hleft] at hmem
      rcases List.mem_cons.1 hmem with hhead | htail
      · cases hhead
      · exact hw x (Ne.symm hleft) b (sinceLeft_probe (Ne.symm hleft) c htail)

theorem answered_iff (hw : Unprobed w) (c : Call) : Answered w c ↔ ¬Returning w c := by
  cases c with
  | current now a => exact ⟨fun _ => id, fun _ => trivial⟩
  | observe now a r =>
    constructor
    · intro hanswered hreturning
      rcases hreturning with ⟨hr, hmove, hused, haway, hcount, hhold⟩
      have hswitched : (w.tracked.observe now a r).2.switched =
          (w.tracked.state.getD {}).currentID := by
        rw [(observe_used hused now a r).2]
        simp only [observeLocked, hmove, hr, Bool.not_true, Bool.false_eq_true, if_false,
          if_neg haway, GroupState.worked, if_neg (Nat.not_lt.2 hcount), hhold]
      have hevidence := hanswered (hswitched ▸ hused) hr
      have hmem := List.mem_of_mem_filter (List.mem_of_mem_take hevidence)
      rcases List.mem_cons.1 hmem with hhead | htail
      · injection hhead with hself
        exact haway hself.symm
      · exact hw _ (Ne.symm haway) true htail
    · intro hstays hmoved hr
      rcases observe_moved hmoved with ⟨hused, ⟨hr', _⟩ | ⟨_, hmove, haway, hcount, hhold⟩⟩
      · rw [hr] at hr'
        cases hr'
      · exact absurd ⟨hr, hmove, hused, haway, hcount, hhold⟩ hstays

/-- Over every sequence of calls: each return rests on a probe of the advertiser returned to exactly
when there is no return. -/
theorem returns_answered_iff (calls : List Call) :
    Along Trail.step Answered {} calls ↔
      Along Trail.step (fun w c => ¬Returning w c) {} calls :=
  Base.along_congr_inv Unprobed (fun _ c hw => step_unprobed c hw)
    (fun _ c hw => answered_iff hw c) {} calls nofun

/-- The device leaves `a` after two failures, and two successes of `b` are enough to call `a`
answering again. -/
theorem return_unanswered :
    let out := pair .failover "a" "b"
    ¬Along Trail.step Answered {}
      [.current 0 out, .observe 0 out ⟨false, 0, []⟩, .observe 0 out ⟨false, 0, []⟩,
        .observe second out ⟨true, 0, []⟩, .observe second out ⟨true, 0, []⟩] := by
  decide +kernel

end Meshp.Routeprobe
