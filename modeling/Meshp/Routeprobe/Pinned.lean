import Meshp.Routeprobe.Reports

/-!
# Pinned Groups

A group is pinned when the address its traffic leaves from is allowlisted
somewhere: the device is to stay on the first candidate, whatever it observes.
Reading the list sees to that. Observing does not look at the mode, and moves a
device whose policy lets it move.
-/

namespace Meshp.Routeprobe

open Base (run)

/-- What is held for a group, and what `Current` last returned for it. -/
structure Watched where
  tracked : Tracked := {}
  returned : Option Wire.RouteCandidate := none

/-- `Current` at a time, or `Observe` of a result. -/
def Watched.step (a : Wire.RouteGroupAssignment) (w : Watched) (call : Time × Option Result) :
    Watched :=
  match call.2 with
  | none => ⟨(w.tracked.current call.1 a).1, (w.tracked.current call.1 a).2⟩
  | some r => { w with tracked := (w.tracked.observe call.1 a r).1 }

/-- A call decides on no move, and what is queued after it records none and names the advertiser
`Current` returned. -/
def Steady (a : Wire.RouteGroupAssignment) (w : Watched) (call : Time × Option Result) : Prop :=
  (∀ r ∈ call.2, (w.tracked.observe call.1 a r).2.switched = "") ∧
    ∀ q ∈ (w.step a call).tracked.unsent, q.switchedFromAdvertiserId = "" ∧
      ∃ c ∈ (w.step a call).returned, q.advertiserId = c.advertiserId

def Anchored (a : Wire.RouteGroupAssignment) : Prop :=
  mayMove a = true → ∀ first second rest, a.candidates = first :: second :: rest →
    first.advertiserId = "" ∨ second.advertiserId = ""

variable {a : Wire.RouteGroupAssignment} {w : Watched} {first : Wire.RouteCandidate}
  {rest : List Wire.RouteCandidate}

theorem fallback_first (ha : a.candidates = first :: rest) :
    fallback a.candidates first.advertiserId = (rest.head?.map (·.advertiserId)).getD "" := by
  rw [ha, fallback, List.dropWhile_cons_of_neg (by simp)]
  cases rest <;> rfl

structure Pinned (a : Wire.RouteGroupAssignment) (w : Watched) : Prop where
  unused : w.tracked.inUse = "" → w.tracked.unsent = none
  used : w.tracked.inUse ≠ "" → ∃ first rest, a.candidates = first :: rest ∧
    w.tracked.inUse = first.advertiserId ∧ (w.tracked.state.getD {}).preferredID = w.tracked.inUse ∧
    ∃ c ∈ w.returned, c.advertiserId = w.tracked.inUse
  queued : ∀ q ∈ w.tracked.unsent, q.switchedFromAdvertiserId = "" ∧ q.advertiserId = w.tracked.inUse

theorem pinned_current (hmode : a.mode = .pinned) (h : Pinned a w) (now : Time) :
    Pinned a (w.step a (now, none)) := by
  cases ha : a.candidates with
  | nil =>
    have hstep : w.step a (now, none) = ⟨w.tracked, none⟩ := by
      simp only [Watched.step, Tracked.current, if_pos ha]
    rw [hstep]
    refine ⟨h.unused, fun hused => ?_, h.queued⟩
    obtain ⟨first, rest, hcons, -⟩ := h.used hused
    cases ha.symm.trans hcons
  | cons first rest =>
    have hstep : w.step a (now, none) = ⟨⟨some { w.tracked.state.getD {} with
        preferredID := first.advertiserId, currentID := first.advertiserId }, w.tracked.unsent⟩,
        some first⟩ := by
      simp [Watched.step, Tracked.current, settle, ha, hmode]
    have hunsent : ∀ q ∈ w.tracked.unsent, w.tracked.inUse = first.advertiserId := by
      intro q hq
      have hused : w.tracked.inUse ≠ "" := by
        intro hunused
        rw [h.unused hunused] at hq
        cases hq
      obtain ⟨_, _, hcons, hfirst, -⟩ := h.used hused
      cases ha.symm.trans hcons
      exact hfirst
    rw [hstep]
    refine ⟨fun hunused => ?_, fun _ => ⟨first, rest, ha, rfl, rfl, first, rfl, rfl⟩, ?_⟩
    · rw [Option.eq_none_iff_forall_not_mem]
      intro q hq
      exact absurd (h.unused ((hunsent q hq).trans hunused)) (by rw [Option.mem_def.1 hq]; simp)
    · intro q hq
      exact ⟨(h.queued q hq).1, (h.queued q hq).2.trans (hunsent q hq)⟩

theorem pinned_observe (hanchored : Anchored a) (h : Pinned a w) (now : Time) (r : Result) :
    Pinned a (w.step a (now, some r)) ∧ (w.tracked.observe now a r).2.switched = "" := by
  by_cases hused : w.tracked.inUse = ""
  · simp only [Watched.step, observe_unused hused now a r]
    exact ⟨h, trivial⟩
  obtain ⟨first, rest, ha, hfirst, hpreferred, hreturned⟩ := h.used hused
  -- Neither of the two moves is open to it.
  have hstays : (observeLocked now a (w.tracked.state.getD {}) r).1.currentID = w.tracked.inUse ∧
      (observeLocked now a (w.tracked.state.getD {}) r).1.preferredID = w.tracked.inUse ∧
      (observeLocked now a (w.tracked.state.getD {}) r).2.switched = "" ∧
      (observeLocked now a (w.tracked.state.getD {}) r).2.current = w.tracked.inUse := by
    have houtcome := observeLocked_outcome now a (w.tracked.state.getD {}) r
    generalize observeLocked now a (w.tracked.state.getD {}) r = out at houtcome ⊢
    cases houtcome with
    | worked d hr hswitched hcurrent | failed d hr hswitched hcurrent =>
      exact ⟨rfl, hpreferred, hswitched, hcurrent⟩
    | fellBack d hr hmove hcount hnext hswitched hcurrent =>
      refine absurd ?_ hnext
      change fallback a.candidates w.tracked.inUse = ""
      rw [hfirst, fallback_first ha]
      cases rest with
      | nil => rfl
      | cons second rest =>
        exact (hanchored hmove first second rest ha).resolve_left (hfirst ▸ hused)
    | returned d hr hmove haway hcount hhold hswitched hcurrent => exact absurd hpreferred.symm haway
  obtain ⟨hcurrent, hprefers, hswitched, hdecided⟩ := hstays
  obtain ⟨hstate, hdecision⟩ := observe_used hused now a r
  rw [← hstate] at hcurrent hprefers
  rw [← hdecision] at hswitched hdecided
  have hqueued : ∀ q ∈ (w.tracked.observe now a r).1.unsent,
      q.switchedFromAdvertiserId = "" ∧ q.advertiserId = w.tracked.inUse := by
    rw [observe_unsent hused]
    split
    · rintro q ⟨⟩
      refine ⟨?_, (recordLocked_verdict _ _ _ _).2.trans hdecided⟩
      unfold recordLocked
      cases hprevious : w.tracked.unsent with
      | none => exact hswitched
      | some p => simp [hswitched, (h.queued p hprevious).1]
    · exact h.queued
  refine ⟨⟨fun hunused => absurd (hcurrent.symm.trans hunused) hused, fun _ => ?_, fun q hq => ?_⟩,
    hswitched⟩
  · exact ⟨first, rest, ha, hcurrent.trans hfirst, hprefers.trans hcurrent.symm,
      hreturned.imp fun c hc => ⟨hc.1, hc.2.trans hcurrent.symm⟩⟩
  · exact ⟨(hqueued q hq).1, (hqueued q hq).2.trans hcurrent.symm⟩

theorem Pinned.steady_step (hmode : a.mode = .pinned) (hanchored : Anchored a) (h : Pinned a w)
    (call : Time × Option Result) : Pinned a (w.step a call) ∧ Steady a w call := by
  have hnext : Pinned a (w.step a call) ∧
      ∀ r ∈ call.2, (w.tracked.observe call.1 a r).2.switched = "" := by
    obtain ⟨now, _ | r⟩ := call
    · exact ⟨pinned_current hmode h now, nofun⟩
    · refine ⟨(pinned_observe hanchored h now r).1, ?_⟩
      rintro r' ⟨⟩
      exact (pinned_observe hanchored h now r).2
  refine ⟨hnext.1, hnext.2, fun q hq => ⟨(hnext.1.queued q hq).1, ?_⟩⟩
  have hused : (w.step a call).tracked.inUse ≠ "" := by
    intro hunused
    rw [hnext.1.unused hunused] at hq
    cases hq
  obtain ⟨_, _, _, _, _, c, hc, hid⟩ := hnext.1.used hused
  exact ⟨c, hc, (hnext.1.queued q hq).2.trans hid.symm⟩

theorem counted_failures (hmode : a.mode = .pinned) (ha : a.candidates = first :: rest)
    (hfirst : first.advertiserId ≠ "") (n : Nat) (hn : n < failThreshold a) :
    (run (Watched.step a) {} ((0, none) :: List.replicate n (0, some ⟨false, 0, []⟩))).tracked.state =
      some { currentID := first.advertiserId, preferredID := first.advertiserId
             consecutiveFail := n } := by
  induction n with
  | zero => simp [run, Watched.step, Tracked.current, settle, ha, hmode]
  | succ n ih =>
    rw [List.replicate_succ', ← List.cons_append, Base.run_append]
    have hstate := ih (Nat.lt_of_succ_lt hn)
    generalize run (Watched.step a) {} _ = w at hstate ⊢
    have hneq : n + 1 ≠ failThreshold a := Nat.ne_of_lt hn
    simp only [run, List.foldl_cons, List.foldl_nil, Watched.step, Tracked.observe, hstate,
      if_neg hfirst]
    cases hmove : mayMove a <;> simp [observeLocked, GroupState.failed, hmove, hn, hneq]

/-- A pinned group stays where it is through every sequence of calls exactly if the device is not to
move by itself, or has nowhere to move to. -/
theorem steady_iff (a : Wire.RouteGroupAssignment) (hmode : a.mode = .pinned) :
    (∀ calls call, Steady a (run (Watched.step a) {} calls) call) ↔ Anchored a := by
  constructor
  · intro hsteady hmove first second rest ha
    by_contra hnone
    obtain ⟨hfirst, hsecond⟩ := not_or.1 hnone
    obtain ⟨n, hn⟩ : ∃ n, failThreshold a = n + 1 := by
      refine Nat.exists_eq_succ_of_ne_zero ?_
      unfold failThreshold orDefault
      split
      · decide
      · assumption
    have hstate := counted_failures hmode ha hfirst n (by omega)
    have hmoved := (hsteady ((0, none) :: List.replicate n (0, some ⟨false, 0, []⟩))
      (0, some ⟨false, 0, []⟩)).1 _ rfl
    generalize run (Watched.step a) {} _ = w at hstate hmoved
    have hnext : fallback a.candidates first.advertiserId = second.advertiserId :=
      fallback_first ha
    simp [Tracked.observe, hstate, hfirst, observeLocked, GroupState.failed, hmove, hn, hnext,
      hsecond] at hmoved
  · intro hanchored calls call
    have hstart : Pinned a {} := ⟨fun _ => rfl, fun h => absurd rfl h, by simp⟩
    exact ((Base.run_inv (Pinned a) (fun w call h => (h.steady_step hmode hanchored call).1) {} calls
      hstart).steady_step hmode hanchored call).2

theorem steady_disabled :
    let a := { pair .pinned "a" "b" with localFailover := ⟨false, 2, 2, 0, [], 0, 0⟩ }
    ∀ calls call, Steady a (run (Watched.step a) {} calls) call := by
  intro a
  exact (steady_iff a rfl).2 nofun

/-- Two failures move a pinned device from `a` to `b`. -/
theorem pinned_moves :
    (((run (Watched.step (pair .pinned "a" "b")) {}
      [(0, none), (0, some ⟨false, 0, []⟩)]).tracked.observe 0 (pair .pinned "a" "b")
        ⟨false, 0, []⟩).2.switched, (pair .pinned "a" "b").mode) = ("a", .pinned) := by
  decide +kernel

end Meshp.Routeprobe
