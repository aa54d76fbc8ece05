import Meshp.Routeprobe.Reports

/-!
# Reports Taken and Put Back

What happens to the reports about one group between the verdict and the control
plane. Every method of the chooser treats each group by itself, so one group's
part of it is followed, with any number of callers holding reports they have
taken. Verdicts are numbered as they are recorded, which tells a newer report
from an older one.
-/

namespace Meshp.Routeprobe

open Base (run Along)

structure Numbered where
  number : Nat
  again : Bool
  report : ReachabilityReport
  deriving DecidableEq

/-- A switch no delivered report records yet: the number of its verdict, and the advertiser left. -/
structure Owed where
  number : Nat
  left : String

/-- A group, what its callers hold of it, and what has been delivered. `number` and `again` are
about the unsent report. -/
structure Sending where
  tracked : Tracked := {}
  recorded : Nat := 0
  number : Nat := 0
  again : Bool := false
  taken : List Numbered := []
  delivered : List Nat := []
  owed : Option Owed := none

def Sending.queued (w : Sending) : Option Numbered :=
  w.tracked.unsent.map fun report => ⟨w.number, w.again, report⟩

/-- `forget` is `Forget` of a list the group is not in. -/
inductive Sending.Move
  | current (now : Time) (a : Wire.RouteGroupAssignment)
  | observe (now : Time) (a : Wire.RouteGroupAssignment) (r : Result)
  | pending
  | deliver (n : Numbered)
  | requeue (n : Numbered)
  | forget

def Sending.step (w : Sending) : Move → Sending
  | .current now a =>
    let tracked := (w.tracked.current now a).1
    -- A device that is moved by what the server sends has not stayed.
    { w with tracked, owed := if tracked.inUse = w.tracked.inUse then w.owed else none }
  | .observe now a r =>
    let (tracked, d) := w.tracked.observe now a r
    if d.report then
      { w with
        tracked, recorded := w.recorded + 1, number := w.recorded + 1, again := false
        owed := if d.switched = "" then w.owed else some ⟨w.recorded + 1, d.switched⟩ }
    else { w with tracked }
  | .pending =>
    match w.queued with
    | none => w
    | some n => { w with tracked := ⟨w.tracked.state, none⟩, taken := n :: w.taken }
  | .deliver n =>
    if n ∈ w.taken then
      { w with
        taken := w.taken.erase n, delivered := n.number :: w.delivered
        owed := w.owed.filter (n.number < ·.number) }
    else w
  | .requeue n =>
    if n ∈ w.taken then
      match w.tracked.unsent with
      | some _ => { w with taken := w.taken.erase n }
      | none =>
        { w with
          tracked := ⟨w.tracked.state, some n.report⟩, number := n.number, again := true
          taken := w.taken.erase n }
    else w
  | .forget => { w with tracked := {}, owed := none }

def Delivered (w : Sending) : Sending.Move → Prop
  | .deliver n => n ∈ w.taken →
    (n.again = true → ∀ m ∈ w.delivered, m < n.number) ∧
      ∀ o ∈ w.owed, o.number ≤ n.number → n.report.switchedFromAdvertiserId = o.left
  | _ => True

instance decidableDelivered (w : Sending) (m : Sending.Move) : Decidable (Delivered w m) := by
  cases m <;> unfold Delivered <;> infer_instance

def OneSender (w : Sending) : Sending.Move → Prop
  | .pending => w.taken = []
  | .requeue n => w.tracked.unsent = none ∨ n.report.switchedFromAdvertiserId = "" ∨
    n.report.advertiserId ≠ w.tracked.inUse
  | _ => True

instance decidableOneSender (w : Sending) (m : Sending.Move) : Decidable (OneSender w m) := by
  cases m <;> unfold OneSender <;> infer_instance

def Records (inUse : String) (o : Owed) (n : Numbered) : Prop :=
  o.number ≤ n.number ∧ n.report.switchedFromAdvertiserId = o.left ∧ n.report.advertiserId = inUse

/-- At most one report is in hand, the queued one is newer than it, both are newer than what was
delivered, and a switch that is owed is recorded in the one or, where that is older, in the other.
-/
structure InOrder (w : Sending) (hand : Option Numbered) : Prop where
  alone : w.taken = hand.toList
  queued : ∀ q ∈ w.queued, q.number ≤ w.recorded ∧ (∀ x ∈ hand, x.number < q.number) ∧
    ∀ m ∈ w.delivered, m < q.number
  held : ∀ x ∈ hand, x.number ≤ w.recorded ∧ ∀ m ∈ w.delivered, m < x.number
  delivered : ∀ m ∈ w.delivered, m ≤ w.recorded
  owed : ∀ o ∈ w.owed, o.left ≠ "" ∧
    ((∃ x ∈ hand, Records w.tracked.inUse o x) ∨
      (∀ x ∈ hand, x.number < o.number) ∧ ∃ q ∈ w.queued, Records w.tracked.inUse o q)

variable {w : Sending} {hand : Option Numbered}

theorem current_unsent (now : Time) (a : Wire.RouteGroupAssignment) (t : Tracked) :
    (t.current now a).1.unsent = t.unsent := by
  unfold Tracked.current
  split
  · rfl
  · rfl

theorem observeLocked_reports (now : Time) (a : Wire.RouteGroupAssignment) (s : GroupState)
    (r : Result) (h : (observeLocked now a s r).2.report = false) :
    (observeLocked now a s r).2.switched = "" := by
  -- Stated of the pair, so that each test of the function is split once.
  have hpair : (fun out : GroupState × Decision => out.2.report = false → out.2.switched = "")
      (observeLocked now a s r) := by
    unfold observeLocked
    extract_lets
    split_ifs <;> first | exact fun _ => rfl | nofun
  exact hpair h

theorem observe_inUse {t : Tracked} (hused : t.inUse ≠ "") (now : Time)
    (a : Wire.RouteGroupAssignment) (r : Result) :
    (t.observe now a r).1.inUse = (t.observe now a r).2.current ∧
      ((t.observe now a r).2.switched = "" → (t.observe now a r).2.current = t.inUse) := by
  rw [Tracked.inUse, (observe_used hused now a r).1, (observe_used hused now a r).2]
  have houtcome := observeLocked_outcome now a (t.state.getD {}) r
  generalize observeLocked now a (t.state.getD {}) r = out at houtcome ⊢
  cases houtcome with
  | worked d hr hswitched hcurrent | failed d hr hswitched hcurrent =>
    exact ⟨hcurrent.symm, fun _ => hcurrent⟩
  | fellBack d hr hmove hcount hnext hswitched hcurrent
  | returned d hr hmove haway hcount hhold hswitched hcurrent =>
    exact ⟨hcurrent.symm, fun hstays => absurd (hswitched.symm.trans hstays) hused⟩

theorem inOrder_observe (h : InOrder w hand) (now : Time) (a : Wire.RouteGroupAssignment)
    (r : Result) : InOrder (w.step (.observe now a r)) hand := by
  by_cases hused : w.tracked.inUse = ""
  · simp only [Sending.step, observe_unused hused now a r]
    exact h
  obtain ⟨hinUse, hstays⟩ := observe_inUse hused now a r
  have hunsent := observe_unsent hused now a r
  cases hreport : (w.tracked.observe now a r).2.report with
  | false =>
    have hsame : (w.tracked.observe now a r).1.inUse = w.tracked.inUse := by
      rw [(observe_used hused now a r).2] at hreport hstays
      rw [hinUse, (observe_used hused now a r).2]
      exact hstays (observeLocked_reports _ _ _ _ hreport)
    rw [hreport, if_neg Bool.false_ne_true] at hunsent
    have hstep : w.step (.observe now a r) = { w with tracked := (w.tracked.observe now a r).1 } := by
      simp only [Sending.step, hreport, Bool.false_eq_true, if_false]
    rw [hstep]
    refine { h with queued := ?_, owed := ?_ }
    · simp only [Sending.queued, hunsent]
      exact h.queued
    · simp only [Sending.queued, hunsent, hsame]
      exact h.owed
  | true =>
    rw [hreport, if_pos rfl] at hunsent
    generalize hd : (w.tracked.observe now a r).2 = d at *
    have hverdict := recordLocked_verdict a.routeGroupId d r w.tracked.unsent
    have hstep : w.step (.observe now a r) =
        { w with
          tracked := (w.tracked.observe now a r).1, recorded := w.recorded + 1
          number := w.recorded + 1, again := false
          owed := if d.switched = "" then w.owed else some ⟨w.recorded + 1, d.switched⟩ } := by
      simp only [Sending.step, hd, hreport, if_true]
    rw [hstep]
    refine ⟨h.alone, ?_, ?_, ?_, ?_⟩
    · simp only [Sending.queued, hunsent, Option.map_some, Option.mem_some_iff, forall_eq']
      refine ⟨Nat.le_refl _, fun x hx => ?_, fun m hm => ?_⟩
      · exact Nat.lt_succ_of_le (h.held x hx).1
      · exact Nat.lt_succ_of_le (h.delivered m hm)
    · intro x hx
      exact ⟨Nat.le_succ_of_le (h.held x hx).1, (h.held x hx).2⟩
    · intro m hm
      exact Nat.le_succ_of_le (h.delivered m hm)
    · simp only [Sending.queued, hunsent, hinUse, Option.map_some, Option.mem_some_iff,
        exists_eq_left']
      intro o ho
      split at ho
      · -- The device is where it was: a switch in the queue is carried over to the new report.
        rename_i hswitched
        obtain ⟨hleft, hrecorded⟩ := h.owed o ho
        rw [← hstays hswitched] at hrecorded
        refine ⟨hleft, hrecorded.imp id fun hqueued => ⟨hqueued.1, ?_⟩⟩
        obtain ⟨q, hq, hnumber, hfrom, hadvertiser⟩ := hqueued.2
        have hbound := (h.queued q hq).1
        obtain ⟨p, hp, rfl⟩ := Option.map_eq_some_iff.1 hq
        refine ⟨Nat.le_succ_of_le (Nat.le_trans hnumber hbound), ?_, hverdict.2⟩
        simp only [hp, recordLocked]
        rw [if_pos ⟨hswitched, fun hnone => hleft (hfrom.symm.trans hnone), hadvertiser⟩]
        exact hfrom
      · rename_i hswitched
        cases ho
        refine ⟨hswitched, .inr ⟨fun x hx => Nat.lt_succ_of_le (h.held x hx).1, Nat.le_refl _, ?_,
          hverdict.2⟩⟩
        exact recordLocked_moved hswitched _ _ _

theorem inOrder_current (h : InOrder w hand) (now : Time) (a : Wire.RouteGroupAssignment) :
    InOrder (w.step (.current now a)) hand := by
  have hqueued : (w.step (.current now a)).queued = w.queued := by
    simp only [Sending.step, Sending.queued, current_unsent]
  refine { h with queued := hqueued ▸ h.queued, owed := fun o ho => ?_ }
  rw [hqueued]
  simp only [Sending.step] at ho ⊢
  split at ho
  · rename_i hsame
    rw [hsame]
    exact h.owed o ho
  · cases ho

theorem inOrder_pending (h : InOrder w none) : ∃ hand, InOrder (w.step .pending) hand := by
  cases hq : w.queued with
  | none =>
    have hstep : w.step .pending = w := by simp only [Sending.step, hq]
    rw [hstep]
    exact ⟨none, h⟩
  | some q =>
    obtain ⟨hnumber, -, hdelivered⟩ := h.queued q hq
    refine ⟨some q, ?_⟩
    simp only [Sending.step, hq]
    refine ⟨congrArg (q :: ·) h.alone, nofun, ?_, h.delivered, fun o ho => ?_⟩
    · rintro x ⟨⟩
      exact ⟨hnumber, hdelivered⟩
    · obtain ⟨hleft, ⟨x, hx, -⟩ | ⟨-, q', hq', hrecords⟩⟩ := h.owed o ho
      · cases hx
      · cases hq.symm.trans hq'
        exact ⟨hleft, .inl ⟨q, rfl, hrecords⟩⟩

theorem inOrder_deliver {n : Numbered} (h : InOrder w (some n)) :
    InOrder (w.step (.deliver n)) none ∧ Delivered w (.deliver n) := by
  have htaken : w.taken = [n] := h.alone
  obtain ⟨hnumber, hdelivered⟩ := h.held n rfl
  refine ⟨?_, fun _ => ⟨fun _ => hdelivered, fun o ho hle => ?_⟩⟩
  · simp only [Sending.step, htaken, List.mem_singleton, if_true]
    refine ⟨List.erase_cons_head _ _, fun q hq => ?_, nofun, ?_, fun o ho => ?_⟩
    · obtain ⟨hle, hlt, hold⟩ := h.queued q hq
      exact ⟨hle, nofun, List.forall_mem_cons.2 ⟨hlt n rfl, hold⟩⟩
    · exact List.forall_mem_cons.2 ⟨hnumber, h.delivered⟩
    · obtain ⟨ho, hlt⟩ := Option.filter_eq_some_iff.1 ho
      obtain ⟨hleft, ⟨x, hx, hrecords⟩ | ⟨-, hqueued⟩⟩ := h.owed o ho
      · cases hx
        exact absurd hrecords.1 (Nat.not_le_of_lt (of_decide_eq_true hlt))
      · exact ⟨hleft, .inr ⟨nofun, hqueued⟩⟩
  · obtain ⟨-, ⟨x, hx, hrecords⟩ | ⟨holder, -⟩⟩ := h.owed o ho
    · cases hx
      exact hrecords.2.1
    · exact absurd (holder n rfl) (Nat.not_lt_of_le hle)

theorem inOrder_requeue {n : Numbered} (h : InOrder w (some n)) (hcond : OneSender w (.requeue n)) :
    InOrder (w.step (.requeue n)) none := by
  have htaken : w.taken = [n] := h.alone
  simp only [Sending.step, htaken, List.mem_singleton, if_true]
  cases hunsent : w.tracked.unsent with
  | some p =>
    refine ⟨List.erase_cons_head _ _, fun q hq => ?_, nofun, h.delivered, fun o ho => ?_⟩
    · obtain ⟨hle, -, hold⟩ := h.queued q hq
      exact ⟨hle, nofun, hold⟩
    · obtain ⟨hleft, ⟨x, hx, -, hfrom, hadvertiser⟩ | ⟨-, hqueued⟩⟩ := h.owed o ho
      · -- The switch it records is dropped with it, which the condition rules out.
        cases hx
        rcases hcond with hnone | hnone | hmoved
        · cases hunsent.symm.trans hnone
        · exact absurd (hfrom.symm.trans hnone) hleft
        · exact absurd hadvertiser hmoved
      · exact ⟨hleft, .inr ⟨nofun, hqueued⟩⟩
  | none =>
    obtain ⟨hnumber, hdelivered⟩ := h.held n rfl
    refine ⟨List.erase_cons_head _ _, ?_, nofun, h.delivered, fun o ho => ?_⟩
    · rintro q ⟨⟩
      exact ⟨hnumber, nofun, hdelivered⟩
    · obtain ⟨hleft, ⟨x, hx, hrecords⟩ | ⟨-, q, hq, -⟩⟩ := h.owed o ho
      · cases hx
        exact ⟨hleft, .inr ⟨nofun, _, rfl, hrecords⟩⟩
      · simp only [Sending.queued, hunsent, Option.map_none] at hq
        cases hq

theorem InOrder.not_taken (h : InOrder w none) (n : Numbered) : n ∉ w.taken := by
  rw [h.alone]
  exact List.not_mem_nil

theorem InOrder.eq_of_taken {x n : Numbered} (h : InOrder w (some x)) (hn : n ∈ w.taken) : n = x := by
  rw [h.alone] at hn
  exact List.mem_singleton.1 hn

theorem inOrder_step {m : Sending.Move} (h : ∃ hand, InOrder w hand) (hcond : OneSender w m) :
    (∃ hand, InOrder (w.step m) hand) ∧ Delivered w m := by
  obtain ⟨hand, h⟩ := h
  cases m with
  | current now a => exact ⟨⟨hand, inOrder_current h now a⟩, trivial⟩
  | observe now a r => exact ⟨⟨hand, inOrder_observe h now a r⟩, trivial⟩
  | pending =>
    cases hand with
    | none => exact ⟨inOrder_pending h, trivial⟩
    | some x => cases (h.alone.symm.trans hcond : [x] = [])
  | deliver n =>
    by_cases hn : n ∈ w.taken
    · cases hand with
      | none => exact absurd hn (h.not_taken n)
      | some x =>
        rw [h.eq_of_taken hn]
        exact ⟨⟨none, (inOrder_deliver h).1⟩, (inOrder_deliver h).2⟩
    · simp only [Sending.step, if_neg hn]
      exact ⟨⟨hand, h⟩, fun h => absurd h hn⟩
  | requeue n =>
    refine ⟨?_, trivial⟩
    by_cases hn : n ∈ w.taken
    · cases hand with
      | none => exact absurd hn (h.not_taken n)
      | some x =>
        rw [h.eq_of_taken hn] at hcond ⊢
        exact ⟨none, inOrder_requeue h hcond⟩
    · simp only [Sending.step, if_neg hn]
      exact ⟨hand, h⟩
  | forget => exact ⟨⟨hand, { h with queued := nofun, owed := nofun }⟩, trivial⟩

/-- With one sender, and no switch put back under a newer verdict, reports that were put back keep
their order and no switch is lost. -/
theorem delivered_along (moves : List Sending.Move) (h : Along Sending.step OneSender {} moves) :
    Along Sending.step Delivered {} moves := by
  have hstart : ∃ hand, InOrder {} hand := ⟨none, rfl, nofun, nofun, nofun, nofun⟩
  generalize ({} : Sending) = w at h hstart
  induction moves generalizing w with
  | nil => trivial
  | cons m moves ih =>
    obtain ⟨hnext, hdelivered⟩ := inOrder_step hstart h.1
    exact ⟨hdelivered, ih (w.step m) h.2 hnext⟩

theorem delivered_along_again :
    let out := pair .failover "a" "b"
    let failure : Sending.Move := .observe 0 out ⟨false, 0, []⟩
    let start := [.current 0 out, failure, failure, .pending]
    let held := (run Sending.step {} start).taken
    let moves := start ++ held.map .requeue ++ [.pending] ++
      held.map fun n => .deliver { n with again := true }
    (run Sending.step {} moves).delivered = [2] ∧ Along Sending.step Delivered {} moves := by
  intro out failure start held moves
  exact ⟨by decide +kernel, delivered_along moves (by decide +kernel)⟩

/-- The report of a move is put back after the next verdict, which does not record it; and a report
is put back after a newer one was taken, and delivered after it. -/
theorem put_back_late :
    let out := pair .failover "a" "b"
    let failure : Sending.Move := .observe 0 out ⟨false, 0, []⟩
    let moved := run Sending.step {} [.current 0 out, failure, failure, .pending]
    let failed := run Sending.step {} [.current 0 out, failure, .pending]
    let both := run Sending.step failed [failure, .pending]
    (∃ n ∈ moved.taken,
      let later := run Sending.step moved [failure, .requeue n, .pending]
      ∃ n' ∈ later.taken, ¬Delivered later (.deliver n')) ∧
    ∃ old ∈ failed.taken, ∃ new ∈ both.taken, new ≠ old ∧
      let later := run Sending.step both [.deliver new, .requeue old, .pending]
      ∃ n' ∈ later.taken, n'.number = old.number ∧ ¬Delivered later (.deliver n') := by
  decide +kernel

end Meshp.Routeprobe
