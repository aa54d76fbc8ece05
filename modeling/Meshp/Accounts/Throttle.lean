import Meshp.Accounts.History
import Meshp.Accounts.SignIn

/-!
# Slowing Guesses Down

However many clients try an address at once, a guess is meant to wait for those
before it. The wait is looked up when an attempt arrives, before anything is known
about the address, and a failure is put on record when the password has turned out
to be wrong. What lies between the two takes its time, and any number of attempts
may be in it together.
-/

namespace Meshp.Accounts.Throttle

open Accounts.SignInFailures (again)
open Base (run)
open Store (Id)

section Row

variable {d : Deployment} {now : Nat} {key key' : List UInt8}

def recorded (now : Nat) (key : List UInt8) : Option SignInFailures → SignInFailures
  | none => { emailHash := key, failures := 1, firstFailedAt := now, lastFailedAt := now }
  | some r => r.again now

theorem emailHash_again (r : SignInFailures) : (r.again now).emailHash = r.emailHash := by
  unfold again
  split
  · rfl
  · rfl

theorem lastFailedAt_recorded (r : Option SignInFailures) :
    (recorded now key r).lastFailedAt = now := by
  cases r with
  | none => rfl
  | some r =>
    simp only [recorded, again]
    split
    · rfl
    · rfl

theorem failures_recorded_pos (r : Option SignInFailures) :
    1 ≤ (recorded now key r).failures := by
  cases r with
  | none => exact Nat.le_refl 1
  | some r =>
    simp only [recorded, again]
    split
    · exact Nat.le_refl 1
    · exact Nat.le_add_left 1 _

theorem find?_rewritten (l : List SignInFailures) (key' : List UInt8) :
    (l.map fun r => if r.emailHash = key then r.again now else r).find? (·.emailHash = key') =
      (l.find? (·.emailHash = key')).map fun r => if r.emailHash = key then r.again now else r := by
  rw [List.find?_map]
  congr 2
  funext r
  simp only [Function.comp_apply]
  split
  · rw [emailHash_again]
  · rfl

theorem failuresAt_record : failuresAt (recordSignInFailure now d key) key =
    some (recorded now key (failuresAt d key)) := by
  unfold failuresAt recordSignInFailure
  simp only
  split
  · rename_i hrow
    rw [find?_rewritten]
    cases hfind : d.signInFailures.find? (·.emailHash = key) with
    | none =>
      obtain ⟨r, hr, hkey⟩ := hrow
      exact absurd hkey (by simpa using List.find?_eq_none.1 hfind r hr)
    | some r =>
      have hkey : r.emailHash = key := (Base.of_find? hfind).2
      rw [Option.map_some, if_pos hkey]
      rfl
  · rename_i hrow
    have hnone : d.signInFailures.find? (·.emailHash = key) = none :=
      List.find?_eq_none.2 fun r hr hkey => hrow ⟨r, hr, by simpa using hkey⟩
    rw [List.find?_append, hnone]
    simp [recorded]

theorem failuresAt_record_other (h : key' ≠ key) :
    failuresAt (recordSignInFailure now d key) key' = failuresAt d key' := by
  unfold failuresAt recordSignInFailure
  simp only
  split
  · rw [find?_rewritten]
    cases hfind : d.signInFailures.find? (·.emailHash = key') with
    | none => rfl
    | some r =>
      have hkey : r.emailHash = key' := (Base.of_find? hfind).2
      rw [Option.map_some, if_neg fun hr => h (hkey.symm.trans hr)]
  · rw [List.find?_append]
    simp [Ne.symm h]

theorem failuresAt_clear_other (h : key' ≠ key) :
    failuresAt (clearSignInFailures d key) key' = failuresAt d key' := by
  refine Base.find?_filter_eq d.signInFailures fun r _ hr => ?_
  simp only [decide_eq_true_eq] at hr ⊢
  rw [hr]
  exact h

theorem failuresAt_sweep {r : SignInFailures} (h : failuresAt d key = some r)
    (hquiet : ¬r.lastFailedAt + signInResetAfter < now) :
    failuresAt (sweepSignInFailures now d) key = some r :=
  Base.find?_filter_of_some h (by simpa using hquiet)

end Row

inductive Entry
  /-- A password was checked against an account's. -/
  | checked (user : Id) (passed : Bool) (time : Nat)
  | recorded (key : List UInt8) (time : Nat)
  | cleared (key : List UInt8)

structure Attempt where
  req : SignInRequest
  draws : Draws

variable (x : Primitives)

def Attempt.key (a : Attempt) : List UInt8 :=
  signInKey x (normalEmail x a.req.email)

def note (now : Nat) (a : Attempt) : Stage → List Entry
  | .found (.account u h) => [.checked u.id (verify x h a.req.password) now]
  | .wrong => [.recorded (a.key x) now]
  | .upgraded _ => [.cleared (a.key x)]
  | _ => []

structure World (ι : Type) where
  now : Nat
  d : Deployment
  stage : ι → Stage := fun _ => .arrived
  log : List Entry := []

inductive Move (ι : Type)
  /-- Time passes. -/
  | wait (time : Nat)
  /-- The next statement of an attempt. -/
  | attempt (i : ι)
  /-- `SweepSignInFailures`. -/
  | sweep

variable {ι : Type} [DecidableEq ι] (attempts : ι → Attempt)

def World.step (w : World ι) : Move ι → World ι
  | .wait time => { w with now := w.now + time }
  | .attempt i =>
    let a := attempts i
    let next := advance x w.now w.d a.req a.draws (w.stage i)
    { w with
      d := next.1, stage := Function.update w.stage i next.2
      log := w.log ++ note x w.now a (w.stage i) }
  | .sweep => { w with d := sweepSignInFailures w.now w.d }

def Entry.after (key : List UInt8) (times : List Nat) : Entry → List Nat
  | .recorded k time => if k = key then times ++ [time] else times
  | .cleared k => if k = key then [] else times
  | .checked .. => times

def outstanding (key : List UInt8) (log : List Entry) : List Nat :=
  log.foldl (Entry.after key) []

def Close (times : List Nat) : Prop :=
  times.IsChain fun t t' => t' ≤ t + signInResetAfter

def checksOf (user : Id) (log : List Entry) : List (Bool × Nat) :=
  log.filterMap fun
    | .checked u passed time => if u = user then some (passed, time) else none
    | _ => none

def Paced (log : List Entry) : Prop :=
  ∀ (user : Id) (before failed : List (Bool × Nat)) (last next : Bool × Nat)
    (after : List (Bool × Nat)),
    checksOf user log = before ++ failed ++ [last, next] ++ after →
    (∀ c ∈ failed ++ [last], c.1 = false) → Close ((failed ++ [last]).map Prod.snd) →
    last.2 + signInDelay (failed.length + 1) ≤ next.2

def HeldBy (now : Nat) (times : List Nat) (row : Option SignInFailures) : Prop :=
  ∀ (failed : List Nat) (last : Nat), (failed ++ [last]).Sublist times → Close (failed ++ [last]) →
    last ≤ now ∧ (last + signInResetAfter < now ∨
      ∃ r, row = some r ∧ failed.length + 1 ≤ r.failures ∧ last ≤ r.lastFailedAt)

variable {now now' : Nat} {times : List Nat} {row : Option SignInFailures}

theorem heldBy_nil (now : Nat) (row : Option SignInFailures) : HeldBy now [] row := by
  intro failed last hsub
  have hempty := List.sublist_nil.1 hsub
  simp at hempty

theorem HeldBy.later (h : HeldBy now times row) (hle : now ≤ now') : HeldBy now' times row := by
  intro failed last hsub hclose
  obtain ⟨hlast, hheld⟩ := h failed last hsub hclose
  refine ⟨Nat.le_trans hlast hle, hheld.imp_left fun hover => Nat.lt_of_lt_of_le hover hle⟩

theorem sublist_concat {failed : List Nat} {last t : Nat}
    (h : (failed ++ [last]).Sublist (times ++ [t])) :
    (failed ++ [last]).Sublist times ∨ last = t ∧ failed.Sublist times := by
  have hrev := List.reverse_sublist.2 h
  simp only [List.reverse_append, List.reverse_singleton, List.singleton_append] at hrev
  rcases List.cons_sublist_cons'.1 hrev with hold | ⟨hlast, hrest⟩
  · left
    rw [← List.reverse_sublist]
    simpa using hold
  · exact .inr ⟨hlast, List.reverse_sublist.1 hrest⟩

theorem HeldBy.record (h : HeldBy now times row) (key : List UInt8) :
    HeldBy now (times ++ [now]) (some (recorded now key row)) := by
  intro failed last hsub hclose
  rcases sublist_concat hsub with hold | ⟨rfl, hfailed⟩
  · -- A run without the new failure.
    obtain ⟨hlast, hover | ⟨r, rfl, hcount, hfresh⟩⟩ := h failed last hold hclose
    · exact ⟨hlast, .inl hover⟩
    · refine ⟨hlast, ?_⟩
      by_cases hquiet : r.lastFailedAt + signInResetAfter < now
      · exact .inl (Nat.lt_of_le_of_lt (Nat.add_le_add_right hfresh _) hquiet)
      · refine .inr ⟨_, rfl, ?_, ?_⟩
        · simp only [recorded, again, if_neg hquiet]
          exact Nat.le_succ_of_le hcount
        · rw [lastFailedAt_recorded]
          exact hlast
  · -- A run that ends with it.
    refine ⟨Nat.le_refl _, .inr ⟨_, rfl, ?_, ?_⟩⟩
    · rcases List.eq_nil_or_concat failed with rfl | ⟨failed', prev, rfl⟩
      · exact failures_recorded_pos row
      · rw [List.concat_eq_append] at hfailed hclose ⊢
        obtain ⟨hclose', -, hgap⟩ := List.isChain_append.1 hclose
        have hnear : last ≤ prev + signInResetAfter := hgap prev (by simp) last (by simp)
        obtain ⟨_, hover | ⟨r, rfl, hcount, hfresh⟩⟩ := h failed' prev hfailed hclose'
        · exact absurd hnear (Nat.not_le.2 hover)
        · have hlive : ¬r.lastFailedAt + signInResetAfter < last :=
            Nat.not_lt.2 (Nat.le_trans hnear (Nat.add_le_add_right hfresh _))
          simp only [recorded, again, if_neg hlive, List.length_append,
            List.length_singleton]
          exact Nat.succ_le_succ hcount
    · rw [lastFailedAt_recorded]

variable {d : Deployment} {key : List UInt8}

theorem HeldBy.sweep (h : HeldBy now times (failuresAt d key)) :
    HeldBy now times (failuresAt (sweepSignInFailures now d) key) := by
  intro failed last hsub hclose
  obtain ⟨hlast, hover | ⟨r, hrow, hcount, hfresh⟩⟩ := h failed last hsub hclose
  · exact ⟨hlast, .inl hover⟩
  · by_cases hquiet : r.lastFailedAt + signInResetAfter < now
    · exact ⟨hlast, .inl (Nat.lt_of_le_of_lt (Nat.add_le_add_right hfresh _) hquiet)⟩
    · exact ⟨hlast, .inr ⟨r, failuresAt_sweep hrow hquiet, hcount, hfresh⟩⟩

theorem signInFailures_rehash (d : Deployment) (u : User) (h : PasswordHash) (password : String)
    (salt : List UInt8) : (rehash x d u h password salt).signInFailures = d.signInFailures := by
  unfold rehash
  split
  · refine Base.attempt_inv (fun d' => d'.signInFailures = d.signInFailures) _ d
      (fun d' hok => ?_) rfl
    rw [updateUser_ok hok]
  · rfl

theorem HeldBy.advance (a : Attempt) (s : Stage) (h : HeldBy now times (failuresAt d key)) :
    HeldBy now ((note x now a s).foldl (Entry.after key) times)
      (failuresAt (advance x now d a.req a.draws s).1 key) := by
  cases s with
  | arrived => exact h
  | admitted => exact h
  | found f =>
    cases f with
    | ambiguous => exact h
    | nobody => exact h
    | account u stored => exact h
  | wrong =>
    change HeldBy now (if a.key x = key then times ++ [now] else times)
      (failuresAt (recordSignInFailure now d (a.key x)) key)
    by_cases hkey : a.key x = key
    · rw [if_pos hkey, hkey, failuresAt_record]
      exact h.record key
    · rw [if_neg hkey, failuresAt_record_other fun hk => hkey hk.symm]
      exact h
  | right u stored =>
    change HeldBy now times (failuresAt (rehash x d u stored a.req.password a.draws.salt) key)
    rw [failuresAt, signInFailures_rehash]
    exact h
  | upgraded u =>
    change HeldBy now (if a.key x = key then [] else times)
      (failuresAt (clearSignInFailures d (a.key x)) key)
    by_cases hkey : a.key x = key
    · rw [if_pos hkey]
      exact heldBy_nil now _
    · rw [if_neg hkey, failuresAt_clear_other fun hk => hkey hk.symm]
      exact h
  | cleared u =>
    simp only [Accounts.advance, openSession]
    split
    · exact h
    · rename_i hopen
      split at hopen
      · cases hopen
      · cases hopen
        exact h
  | finished o => exact h

def Held (key : List UInt8) (w : World ι) : Prop :=
  HeldBy w.now (outstanding key w.log) (failuresAt w.d key)

theorem held_step (key : List UInt8) (w : World ι) (m : Move ι) (h : Held key w) :
    Held key (w.step x attempts m) := by
  cases m with
  | wait time => exact h.later (Nat.le_add_right _ _)
  | attempt i =>
    change HeldBy w.now (outstanding key (w.log ++ _)) _
    unfold outstanding
    rw [List.foldl_append]
    exact h.advance x (attempts i) (w.stage i)
  | sweep => exact HeldBy.sweep h

def Addressed (w : World ι) : Prop :=
  ∀ i u h, w.stage i = .found (.account u h) → (attempts i).key x = signInKey x (x.lower u.email)

theorem key_of_lookup {a : Attempt} {u : User} {h : PasswordHash}
    (hfound : lookup x d a.req = .account u h) : a.key x = signInKey x (x.lower u.email) := by
  have hmem : u ∈ candidates x d a.req := by
    unfold lookup at hfound
    split at hfound
    · cases hfound
    · rename_i u' hone
      split at hfound
      · cases hfound
      · split at hfound
        · cases hfound
          rw [hone]
          exact List.mem_singleton_self u
        · cases hfound
    · cases hfound
  have hemail : x.lower u.email = x.lower (normalEmail x a.req.email) :=
    (of_decide_eq_true (List.mem_filter.1 hmem).2).1
  rw [Attempt.key, hemail, normalEmail, x.lower_lower]

theorem addressed_step (w : World ι) (m : Move ι) (h : Addressed x attempts w) :
    Addressed x attempts (w.step x attempts m) := by
  cases m with
  | wait time => exact h
  | sweep => exact h
  | attempt i =>
    intro j u stored hstage
    by_cases hj : j = i
    · subst hj
      simp only [World.step, Function.update_self] at hstage
      -- Only the statement that looks the address up ends at this stage.
      cases hs : w.stage j with
      | admitted =>
        rw [hs] at hstage
        exact key_of_lookup x (Stage.found.inj hstage)
      | arrived | cleared u' =>
        rw [hs] at hstage
        simp only [Accounts.advance] at hstage
        split at hstage
        · cases hstage
        · cases hstage
      | found f =>
        rw [hs] at hstage
        cases f with
        | account u' stored' =>
          simp only [Accounts.advance] at hstage
          split at hstage
          · cases hstage
          · cases hstage
        | _ => cases hstage
      | _ =>
        rw [hs] at hstage
        cases hstage
    · simp only [World.step, Function.update_of_ne hj] at hstage
      exact h j u stored hstage

theorem later_step (t : Nat) (w : World ι) (m : Move ι) (h : t ≤ w.now) :
    t ≤ (w.step x attempts m).now := by
  cases m with
  | wait time => exact Nat.le_trans h (Nat.le_add_right _ _)
  | _ => exact h

theorem finished_step (i : ι) (w : World ι) (m : Move ι) (h : ∃ o, w.stage i = .finished o) :
    ∃ o, (w.step x attempts m).stage i = .finished o := by
  obtain ⟨o, ho⟩ := h
  cases m with
  | wait time => exact ⟨o, ho⟩
  | sweep => exact ⟨o, ho⟩
  | attempt j =>
    refine ⟨o, ?_⟩
    by_cases hj : i = j
    · subst hj
      simp only [World.step, Function.update_self, ho, Accounts.advance]
    · simp only [World.step, Function.update_of_ne hj, ho]

theorem wait_of_arrived {w : World ι} {i : ι} (h : w.stage i = .arrived)
    (hin : ¬∃ o, (w.step x attempts (.attempt i)).stage i = .finished o) :
    signInWait w.now w.d ((attempts i).key x) = 0 := by
  by_contra hwait
  refine hin ⟨.throttled (signInWait w.now w.d ((attempts i).key x)), ?_⟩
  simp only [World.step, Function.update_self, h, Accounts.advance]
  exact if_pos (Nat.pos_of_ne_zero hwait)

theorem HeldBy.waited {failed : List Nat} {last : Nat} (h : HeldBy now times (failuresAt d key))
    (hwait : signInWait now d key = 0) (hsub : (failed ++ [last]).Sublist times)
    (hclose : Close (failed ++ [last])) : last + signInDelay (failed.length + 1) ≤ now := by
  obtain ⟨_, hover | ⟨r, hrow, hcount, hfresh⟩⟩ := h failed last hsub hclose
  · have hshort : signInDelay (failed.length + 1) ≤ signInResetAfter :=
      Nat.le_trans (signInDelay_le _) (by decide)
    exact Nat.le_trans (Nat.add_le_add_left hshort _) (Nat.le_of_lt hover)
  · rw [signInWait, hrow] at hwait
    exact Nat.le_trans (Nat.add_le_add hfresh (signInDelay_mono hcount))
      (Nat.sub_eq_zero_iff_le.1 hwait)

/-- Whatever happens before it arrives and after, an attempt that comes to check an account's
password does so no earlier than the delay of the failures that were outstanding at the account's
address when it arrived. -/
theorem check_waits (w : World ι) (hlog : w.log = []) (hstart : ∀ i, w.stage i = .arrived)
    (before after : List (Move ι)) (i : ι) (u : User) (h : PasswordHash) (failed : List Nat)
    (last : Nat)
    (harrived : (run (World.step x attempts) w before).stage i = .arrived)
    (hfound : (run (World.step x attempts) w (before ++ .attempt i :: after)).stage i =
      .found (.account u h))
    (hsub : (failed ++ [last]).Sublist (outstanding (signInKey x (x.lower u.email))
      (run (World.step x attempts) w before).log))
    (hclose : Close (failed ++ [last])) :
    last + signInDelay (failed.length + 1) ≤
      (run (World.step x attempts) w (before ++ .attempt i :: after)).now := by
  have haddressed : (attempts i).key x = signInKey x (x.lower u.email) :=
    Base.run_inv (Addressed x attempts) (addressed_step x attempts) w _
      (fun j u' h' hj => by rw [hstart j] at hj; cases hj) i u h hfound
  have hheld := Base.run_inv (Held (ι := ι) (signInKey x (x.lower u.email)))
    (held_step x attempts _) w before (by rw [Held, hlog]; exact heldBy_nil _ _)
  rw [Base.run_append, Base.run_cons] at hfound ⊢
  generalize run (World.step x attempts) w before = here at *
  have hin : ¬∃ o, (here.step x attempts (.attempt i)).stage i = .finished o := by
    intro hover
    obtain ⟨o, ho⟩ := Base.run_inv (fun w : World ι => ∃ o, w.stage i = .finished o)
      (finished_step x attempts i) _ after hover
    rw [hfound] at ho
    cases ho
  have hwait := wait_of_arrived x attempts harrived hin
  rw [haddressed] at hwait
  exact Base.run_inv (fun w : World ι => last + signInDelay (failed.length + 1) ≤ w.now)
    (later_step x attempts _) _ after (hheld.waited hwait hsub hclose)

def shared : Deployment :=
  run (apply transparent Store.trusting) {}
    [.mesh ⟨0, .createOrganization "acme" "Acme"⟩,
     .mesh ⟨0, .createOrganization "globex" "Globex"⟩, .ensureBuiltinRoles,
     .createUser { organization := 1, email := "ann@x.example", password := "correct horse" } [],
     .createUser { organization := 2, email := "ann@x.example", password := "battery staple" } []]

def ann : User where
  id := 5
  organizationId := 1
  email := "ann@x.example"
  name := ""
  passwordHash := some (hash transparent "correct horse" [])

def guesses (i : Nat) : Attempt where
  req :=
    if i = 5 then { email := "ann@x.example", password := "battery staple", organization := some 2 }
    else { email := "ann@x.example", password := "guess", organization := some 1 }
  draws := { salt := [], token := "t" }

def statements (i n : Nat) : List (Move Nat) :=
  List.replicate n (.attempt i)

def fiveWrong : List (Move Nat) :=
  [0, 1, 2, 3, 4].flatMap (statements · 4) ++ [.wait second]

theorem check_waits_sixth :
    second ≤ (run (World.step transparent guesses) { now := 0, d := shared }
      (fiveWrong ++ .attempt 7 :: [.attempt 7])).now :=
  check_waits transparent guesses { now := 0, d := shared } rfl (fun _ => rfl) fiveWrong
    [.attempt 7] 7 ann (hash transparent "correct horse" []) [0, 0, 0, 0] 0 (by decide +kernel)
    (by decide +kernel) (by decide +kernel) (by simp [Close])

/-- Somebody else signs in at the address, and the seventh guess at the account follows the sixth at
once. -/
theorem sibling_ends_run :
    ¬Paced (run (World.step transparent guesses) { now := 0, d := shared }
      (fiveWrong ++ statements 5 6 ++ statements 6 4 ++ statements 7 3)).log := by
  intro hpaced
  have hchecks : checksOf 5 (run (World.step transparent guesses) { now := 0, d := shared }
      (fiveWrong ++ statements 5 6 ++ statements 6 4 ++ statements 7 3)).log =
      [] ++ List.replicate 5 (false, 0) ++ [(false, second), (false, second)] ++ [] := by
    decide +kernel
  have hdelay := hpaced 5 [] _ _ _ [] hchecks (by decide)
    (by simp [Close, second, signInResetAfter])
  revert hdelay
  decide

end Meshp.Accounts.Throttle
