import Meshp.Base.Run

/-!
# Sessions of a Device

The agent keeps one session for each membership: a client that holds the control
channel, a relay link and a loop that reconciles. A map from memberships to
handles says which sessions are running. It is how starting a session finds that
there is one, and how taking the tunnels down, or a revocation, reaches the
session to stop it. No command holds the lock of the map from beginning to end, so
what a command takes out may be the session another has put there since.
-/

namespace Meshp.Agent

open Base (run Along)
open Option (mem_def)

/-- `agentstate.Membership`, as far as it is supervised. -/
structure Membership (ι : Type) where
  id : ι
  network : Nat

/-- `agentstate.State`. -/
structure LocalState (ι : Type) where
  memberships : List (Membership ι) := []
  paused : Bool := false
  /-- Whether there is an identity to open a session with. -/
  identity : Bool := true

/-- A session that was started. Its loop and its relay link run until its context is cancelled. -/
structure Session (ι : Type) where
  member : ι
  cancelled : Bool := false
  /-- Whether the client is still at its work. -/
  client : Bool := true
  deriving DecidableEq

/-- What the agent holds under its lock: the local state, every session that was started, and the
handles of those that run. A handle is a place in the list. -/
structure Device (ι : Type) where
  state : Option (LocalState ι) := none
  sessions : List (Session ι) := []
  running : ι → Option Nat := fun _ => none

variable {ι : Type}

namespace Device

/-- `ensureSession`, up to the goroutines it starts. -/
def ensureSession [DecidableEq ι] (d : Device ι) (m : ι) : Device ι :=
  match d.running m with
  | some _ => d
  | none =>
    if d.state.any LocalState.identity then
      { d with
        sessions := d.sessions ++ [{ member := m }]
        running := Function.update d.running m (some d.sessions.length) }
    else d

def cancel (d : Device ι) (handle : Nat) : Device ι :=
  { d with sessions := d.sessions.modify handle ({ · with cancelled := true }) }

def leave (d : Device ι) (handle : Nat) : Device ι :=
  { d with sessions := d.sessions.modify handle ({ · with client := false }) }

def handles (d : Device ι) : List Nat :=
  (List.range d.sessions.length).filter fun h =>
    d.sessions[h]?.any fun s => d.running s.member = some h

def delete [DecidableEq ι] (d : Device ι) (m : ι) : Device ι :=
  { d with running := Function.update d.running m none }

def setPaused (d : Device ι) (paused : Bool) : Device ι :=
  { d with state := d.state.map ({ · with paused }) }

/-- `AddMembership`: in place of another of the same network. -/
def addMembership (d : Device ι) (m : Membership ι) : Device ι :=
  { d with state := d.state.map fun s => { s with
      memberships := if s.memberships.any (·.network = m.network) then
          s.memberships.map fun x => if x.network = m.network then m else x
        else s.memberships ++ [m] } }

/-- `RemoveMembership`, and the identity with the last one if it is to be wiped. -/
def forget [DecidableEq ι] (d : Device ι) (m : ι) (wipe : Bool) : Device ι :=
  { d with state := d.state.map fun s =>
      if s.memberships.any (·.id = m) then
        let left := s.memberships.eraseP (·.id = m)
        { s with memberships := left, identity := s.identity && !(wipe && left.isEmpty) }
      else s }

end Device

inductive Task (ι : Type)
  /-- `up`: the decision is recorded, read again, and the memberships are listed and started. -/
  | unpause
  | check
  | list
  | start (todo : List ι)
  /-- `down`: the handles are read and cancelled, the map is emptied and the decision recorded. -/
  | snapshot
  | stop (todo : List Nat)
  | clear
  | pause
  /-- `Join`, once enrolled: the membership is recorded, and started if that could be saved. -/
  | record (m : Membership ι) (saved : Bool)
  | serve (m : ι)
  /-- `revoke`, which the client of a session calls: the handle is looked up, cancelled, and the
  membership forgotten. -/
  | lookup (m : ι) (wipe : Bool) (caller : Nat)
  | halt (m : ι) (wipe : Bool) (handle : Option Nat) (caller : Nat)
  | forget (m : ι) (wipe : Bool) (caller : Nat)
  /-- A client that has returned takes its membership out of the map. -/
  | finish (handle : Nat)

def advance [DecidableEq ι] (d : Device ι) : Task ι → Device ι × Option (Task ι)
  | .unpause => (d.setPaused false, some .check)
  | .check => (d, if d.state.any LocalState.paused then none else some .list)
  | .list => (d, some (.start ((d.state.map LocalState.memberships).getD [] |>.map Membership.id)))
  | .start [] => (d, none)
  | .start (m :: todo) => (d.ensureSession m, some (.start todo))
  | .snapshot => (d, some (.stop d.handles))
  | .stop [] => (d, some .clear)
  | .stop (h :: todo) => (d.cancel h, some (.stop todo))
  | .clear => ({ d with running := fun _ => none }, some .pause)
  | .pause => (d.setPaused true, none)
  | .record m saved => (d.addMembership m, if saved then some (.serve m.id) else none)
  | .serve m => (d.ensureSession m, none)
  | .lookup m wipe caller => (d, some (.halt m wipe (d.running m) caller))
  | .halt m wipe handle caller => (handle.elim d d.cancel, some (.forget m wipe caller))
  | .forget m wipe caller => (d.forget m wipe, some (.finish caller))
  | .finish h => (d.sessions[h]?.elim d fun s => d.delete s.member, none)

structure World (ι : Type) where
  device : Device ι
  tasks : List (Task ι) := []

inductive Move (ι : Type)
  | up
  | down
  /-- A control plane has enrolled the device. -/
  | join (m : Membership ι) (saved : Bool)
  /-- The client of a session is told that its membership is over. -/
  | revoked (handle : Nat) (wipe : Bool)
  /-- The client of a session finds its context cancelled. -/
  | ended (handle : Nat)
  /-- A command enters its next critical section. -/
  | next (i : Nat)

namespace World

def begin (w : World ι) (t : Task ι) : World ι :=
  { w with tasks := w.tasks ++ [t] }

def returns (w : World ι) (handle : Nat) (t : Task ι) : World ι :=
  { device := w.device.leave handle, tasks := w.tasks ++ [t] }

end World

def step [DecidableEq ι] (w : World ι) : Move ι → World ι
  | .up => w.begin .unpause
  | .down => w.begin .snapshot
  | .join m saved =>
    let state := w.device.state.getD {}
    let w := { w with device := { w.device with state := some state } }
    if state.identity then w.begin (.record m saved) else w
  | .revoked h wipe =>
    match w.device.sessions[h]? with
    | some s => if s.client then w.returns h (.lookup s.member wipe h) else w
    | none => w
  | .ended h =>
    match w.device.sessions[h]? with
    | some s => if s.client && s.cancelled then w.returns h (.finish h) else w
    | none => w
  | .next i =>
    match w.tasks[i]? with
    | some t =>
      { device := (advance w.device t).1
        tasks := w.tasks.eraseIdx i ++ (advance w.device t).2.toList }
    | none => w

def Session.Live (s : Session ι) : Prop :=
  s.cancelled = false

def Supervised (d : Device ι) : Prop :=
  ∀ h : Nat, ∀ s ∈ d.sessions[h]?, s.Live → d.running s.member = some h

def One (d : Device ι) : Prop :=
  ∀ h : Nat, ∀ s ∈ d.sessions[h]?, ∀ h' : Nat, ∀ s' ∈ d.sessions[h']?, s.Live → s'.Live →
    s.member = s'.member → h = h'

def Cancelled (d : Device ι) (h : Nat) : Prop :=
  ∃ s ∈ d.sessions[h]?, s.cancelled = true

def OwnTask (d : Device ι) : Task ι → Prop
  | .finish h => ∀ s ∈ d.sessions[h]?,
      d.running s.member = some h ∨ d.running s.member = none
  | .clear => ∀ m, ∀ h ∈ d.running m, Cancelled d h
  | _ => True

def Own (w : World ι) : Move ι → Prop
  | .next i => ∀ t ∈ w.tasks[i]?, OwnTask w.device t
  | _ => True

theorem one_of_supervised {d : Device ι} (hd : Supervised d) : One d := by
  intro h s hs h' s' hs' hlive hlive' hmember
  have hrun := hd h s hs hlive
  rw [hmember, hd h' s' hs' hlive'] at hrun
  exact (Option.some.inj hrun).symm

def Onward (d d' : Device ι) : Prop :=
  ∀ h : Nat, ∀ s ∈ d.sessions[h]?, ∃ s' ∈ d'.sessions[h]?,
    s'.member = s.member ∧ (s.cancelled = true → s'.cancelled = true)

section Onward

variable {d d' : Device ι}

theorem onward_of_sessions (h : d'.sessions = d.sessions) : Onward d d' := by
  intro i s hs
  rw [h]
  exact ⟨s, hs, rfl, id⟩

theorem onward_modify {f : Session ι → Session ι} (k : Nat)
    (hf : ∀ s, (f s).member = s.member ∧ (s.cancelled = true → (f s).cancelled = true))
    (h : d'.sessions = d.sessions.modify k f) : Onward d d' := by
  intro i s hs
  rw [h, List.getElem?_modify]
  by_cases hi : k = i
  · exact ⟨f s, by simp [hi, mem_def.1 hs], hf s⟩
  · exact ⟨s, by simpa [hi] using hs, rfl, id⟩

theorem onward_ensureSession [DecidableEq ι] (m : ι) : Onward d (d.ensureSession m) := by
  unfold Device.ensureSession
  split
  · exact onward_of_sessions rfl
  · split
    · intro h s hs
      have hlt : h < d.sessions.length := (List.getElem?_eq_some_iff.1 hs).1
      refine ⟨s, ?_, rfl, id⟩
      rw [mem_def, List.getElem?_append_left hlt]
      exact hs
    · exact onward_of_sessions rfl

theorem cancelling (s : Session ι) :
    ({ s with cancelled := true } : Session ι).member = s.member ∧
      (s.cancelled = true → ({ s with cancelled := true } : Session ι).cancelled = true) :=
  ⟨rfl, fun _ => rfl⟩

theorem onward_cancel (h : Nat) : Onward d (d.cancel h) :=
  onward_modify h cancelling rfl

theorem onward_advance [DecidableEq ι] (t : Task ι) : Onward d (advance d t).1 := by
  cases t with
  | start todo =>
    cases todo with
    | nil => exact onward_of_sessions rfl
    | cons m todo => exact onward_ensureSession m
  | stop todo =>
    cases todo with
    | nil => exact onward_of_sessions rfl
    | cons h todo => exact onward_cancel h
  | serve m => exact onward_ensureSession m
  | halt m wipe handle caller =>
    cases handle with
    | none => exact onward_of_sessions rfl
    | some h => exact onward_cancel h
  | finish h =>
    simp only [advance]
    cases d.sessions[h]? with
    | none | some s => exact onward_of_sessions rfl
  | _ => exact onward_of_sessions rfl

theorem Cancelled.onward {h : Nat} (hc : Cancelled d h) (ho : Onward d d') : Cancelled d' h := by
  obtain ⟨s, hs, hcancelled⟩ := hc
  obtain ⟨s', hs', _, hstays⟩ := ho h s hs
  exact ⟨s', hs', hstays hcancelled⟩

end Onward

def Grounded (d : Device ι) : Task ι → Prop
  | .lookup m _ h => ∃ s ∈ d.sessions[h]?, s.member = m
  | .halt m _ handle h => ∃ s ∈ d.sessions[h]?, s.member = m ∧
      (s.cancelled = true ∨ handle = some h)
  | .forget _ _ h => Cancelled d h
  | .finish h => Cancelled d h
  | _ => True

section Grounded

variable {d d' : Device ι}

theorem Grounded.onward {t : Task ι} (ht : Grounded d t) (ho : Onward d d') : Grounded d' t := by
  cases t with
  | lookup m wipe h =>
    obtain ⟨s, hs, hmember⟩ := ht
    obtain ⟨s', hs', hsame, _⟩ := ho h s hs
    exact ⟨s', hs', hsame.trans hmember⟩
  | halt m wipe handle h =>
    obtain ⟨s, hs, hmember, hor⟩ := ht
    obtain ⟨s', hs', hsame, hstays⟩ := ho h s hs
    exact ⟨s', hs', hsame.trans hmember, hor.imp_left hstays⟩
  | forget m wipe h | finish h => exact Cancelled.onward ht ho
  | _ => trivial

theorem cancelled_cancel {h : Nat} {s : Session ι} (hs : s ∈ d.sessions[h]?) :
    Cancelled (d.cancel h) h := by
  refine ⟨{ s with cancelled := true }, ?_, rfl⟩
  simp [Device.cancel, mem_def.1 hs]

theorem grounded_advance [DecidableEq ι] {t t' : Task ι} (hd : Supervised d) (ht : Grounded d t)
    (hnext : t' ∈ (advance d t).2) : Grounded (advance d t).1 t' := by
  cases t with
  | check =>
    simp only [advance] at hnext
    split at hnext
    · cases hnext
    · cases hnext
      trivial
  | start todo =>
    cases todo with
    | nil => cases hnext
    | cons m todo =>
      cases hnext
      trivial
  | stop todo =>
    cases todo with
    | nil | cons h todo =>
      cases hnext
      trivial
  | record m saved =>
    cases saved with
    | false => cases hnext
    | true =>
      cases hnext
      trivial
  | lookup m wipe h =>
    cases hnext
    obtain ⟨s, hs, rfl⟩ := ht
    refine ⟨s, hs, rfl, ?_⟩
    -- A session that is live is the one in the map.
    cases hlive : s.cancelled with
    | true => exact .inl rfl
    | false => exact .inr (hd h s hs hlive)
  | halt m wipe handle h =>
    cases hnext
    obtain ⟨s, hs, _, hor⟩ := ht
    have hcancelled : s.cancelled = true → Cancelled (advance d (.halt m wipe handle h)).1 h :=
      fun hc => Cancelled.onward ⟨s, hs, hc⟩ (onward_advance _)
    rcases hor with hc | rfl
    · exact hcancelled hc
    · exact cancelled_cancel hs
  | forget m wipe h =>
    cases hnext
    exact ht
  | _ => cases hnext <;> trivial

end Grounded

section Map

variable {d d' : Device ι}

theorem supervised_same (hd : Supervised d) (hsessions : d'.sessions = d.sessions)
    (hrunning : d'.running = d.running) : Supervised d' := by
  unfold Supervised
  rw [hsessions, hrunning]
  exact hd

theorem supervised_modify {f : Session ι → Session ι} (k : Nat) (hd : Supervised d)
    (hf : ∀ s, (f s).member = s.member ∧ (s.cancelled = true → (f s).cancelled = true))
    (hsessions : d'.sessions = d.sessions.modify k f) (hrunning : d'.running = d.running) :
    Supervised d' := by
  intro h s hs hlive
  rw [hsessions, mem_def, List.getElem?_modify] at hs
  rw [hrunning]
  by_cases hk : k = h
  · obtain ⟨s₀, hs₀, rfl⟩ : ∃ s₀, d.sessions[h]? = some s₀ ∧ f s₀ = s := by simpa [hk] using hs
    rw [(hf s₀).1]
    refine hd h s₀ hs₀ ?_
    by_contra hdead
    exact Bool.false_ne_true (hlive.symm.trans ((hf s₀).2 (by simpa [Session.Live] using hdead)))
  · exact hd h s (by simpa [hk] using hs) hlive

theorem supervised_ensureSession [DecidableEq ι] (hd : Supervised d) (m : ι) :
    Supervised (d.ensureSession m) := by
  unfold Device.ensureSession
  split
  · exact hd
  · rename_i hnone
    split
    · intro h s hs hlive
      rw [mem_def] at hs
      rcases Nat.lt_or_ge h d.sessions.length with hlt | hge
      · simp only [List.getElem?_append_left hlt] at hs
        have hrun := hd h s hs hlive
        have hne : s.member ≠ m := by
          rintro rfl
          cases hnone.symm.trans hrun
        exact (Function.update_of_ne hne ..).trans hrun
      · simp only [List.getElem?_append_right hge] at hs
        obtain ⟨hzero, rfl⟩ : h - d.sessions.length = 0 ∧ ({ member := m } : Session ι) = s := by
          rw [List.getElem?_singleton] at hs
          split at hs
          · exact ⟨‹_›, Option.some.inj hs⟩
          · cases hs
        have hh : h = d.sessions.length := by omega
        rw [hh]
        exact Function.update_self ..
    · exact hd

theorem supervised_cancel (hd : Supervised d) (h : Nat) : Supervised (d.cancel h) :=
  supervised_modify h hd cancelling rfl rfl

theorem supervised_advance [DecidableEq ι] {t : Task ι} (hd : Supervised d) (ht : Grounded d t)
    (hown : OwnTask d t) : Supervised (advance d t).1 := by
  cases t with
  | start todo =>
    cases todo with
    | nil => exact hd
    | cons m todo => exact supervised_ensureSession hd m
  | stop todo =>
    cases todo with
    | nil => exact hd
    | cons h todo => exact supervised_cancel hd h
  | clear =>
    intro h s hs hlive
    -- What is live is in the map, and nothing in the map is.
    obtain ⟨s', hs', hdead⟩ := hown s.member h (hd h s hs hlive)
    cases (mem_def.1 hs).symm.trans hs'
    exact absurd (hlive.symm.trans hdead) Bool.false_ne_true
  | serve m => exact supervised_ensureSession hd m
  | halt m wipe handle caller =>
    cases handle with
    | none => exact hd
    | some h => exact supervised_cancel hd h
  | finish h =>
    obtain ⟨s, hs, hdead⟩ := ht
    have hfinish : (advance d (.finish h)).1 = d.delete s.member := by
      simp only [advance, mem_def.1 hs]
      rfl
    rw [hfinish]
    intro h' s' hs' hlive
    have hrun := hd h' s' hs' hlive
    have hne : s'.member ≠ s.member := by
      intro hsame
      rw [hsame] at hrun
      rcases hown s hs with hmine | hnone
      · cases hmine.symm.trans hrun
        cases (mem_def.1 hs).symm.trans hs'
        exact absurd (hlive.symm.trans hdead) Bool.false_ne_true
      · cases hnone.symm.trans hrun
    exact (Function.update_of_ne hne ..).trans hrun
  | _ => exact supervised_same hd rfl rfl

end Map

def Steady (w : World ι) : Prop :=
  Supervised w.device ∧ ∀ t ∈ w.tasks, Grounded w.device t

section Runs

variable {w : World ι}

theorem steady_begin (hw : Steady w) {t : Task ι} (ht : Grounded w.device t) :
    Steady (w.begin t) := by
  refine ⟨hw.1, fun t' ht' => ?_⟩
  rcases List.mem_append.1 ht' with ht' | ht'
  · exact hw.2 t' ht'
  · rw [List.mem_singleton.1 ht']
    exact ht

theorem steady_returns (hw : Steady w) (h : Nat) {t : Task ι} (ht : Grounded w.device t) :
    Steady (w.returns h t) := by
  have hkeeps : ∀ s : Session ι, ({ s with client := false } : Session ι).member = s.member ∧
      (s.cancelled = true → ({ s with client := false } : Session ι).cancelled = true) :=
    fun _ => ⟨rfl, id⟩
  have ho : Onward w.device (w.device.leave h) := onward_modify h hkeeps rfl
  refine ⟨supervised_modify h hw.1 hkeeps rfl rfl, fun t' ht' => ?_⟩
  rcases List.mem_append.1 ht' with ht' | ht'
  · exact (hw.2 t' ht').onward ho
  · rw [List.mem_singleton.1 ht']
    exact ht.onward ho

theorem steady_step [DecidableEq ι] (hw : Steady w) (a : Move ι) (ha : Own w a) :
    Steady (step w a) := by
  cases a with
  | up | down => exact steady_begin hw trivial
  | join m saved =>
    have hsame : Steady { w with device := { w.device with
        state := some (w.device.state.getD {}) } } :=
      ⟨supervised_same hw.1 rfl rfl, fun t ht => (hw.2 t ht).onward (onward_of_sessions rfl)⟩
    simp only [step]
    split
    · exact steady_begin hsame trivial
    · exact hsame
  | revoked h wipe =>
    simp only [step]
    cases hs : w.device.sessions[h]? with
    | none => exact hw
    | some s =>
      simp only []
      split
      · exact steady_returns hw h ⟨s, hs, rfl⟩
      · exact hw
  | ended h =>
    simp only [step]
    cases hs : w.device.sessions[h]? with
    | none => exact hw
    | some s =>
      simp only []
      split
      · rename_i hboth
        exact steady_returns hw h ⟨s, hs, (Bool.and_eq_true_iff.1 hboth).2⟩
      · exact hw
  | next i =>
    simp only [step]
    cases ht : w.tasks[i]? with
    | none => exact hw
    | some t =>
      have hground := hw.2 t (List.mem_of_getElem? ht)
      refine ⟨supervised_advance hw.1 hground (ha t ht), fun t' ht' => ?_⟩
      rcases List.mem_append.1 ht' with ht' | ht'
      · exact (hw.2 t' (List.mem_of_mem_eraseIdx ht')).onward (onward_advance t)
      · exact grounded_advance hw.1 hground (Option.mem_toList.1 ht')

end Runs

/-- In every run in which nothing is taken out of the map that another command put there, every live
session is the one in the map, and a membership has at most one. -/
theorem supervised_run [DecidableEq ι] (state : Option (LocalState ι)) (moves : List (Move ι))
    (own : Along step Own { device := { state } } moves) :
    Supervised (run step { device := { state } } moves).device ∧
      One (run step { device := { state } } moves).device := by
  have hnothing : Supervised ({ state } : Device ι) := by
    intro h s hs
    simp at hs
  have hsteady := Base.run_inv_along Steady (fun w a hw ha => steady_step hw a ha)
    { device := { state } } moves ⟨hnothing, nofun⟩ own
  exact ⟨hsteady.1, one_of_supervised hsteady.1⟩

instance decidableOwnTask [Fintype ι] (d : Device ι) : ∀ t : Task ι, Decidable (OwnTask d t)
  | .finish h => inferInstanceAs (Decidable (∀ s ∈ d.sessions[h]?, _ ∨ _))
  | .clear => inferInstanceAs (Decidable (∀ m, ∀ h ∈ d.running m, ∃ s ∈ d.sessions[h]?, _))
  | .unpause | .check | .list | .start _ | .snapshot | .stop _ | .pause | .record _ _ | .serve _
  | .lookup _ _ _ | .halt _ _ _ _ | .forget _ _ _ => inferInstanceAs (Decidable True)

instance decidableOwn [Fintype ι] (w : World ι) : ∀ a : Move ι, Decidable (Own w a)
  | .next i => inferInstanceAs (Decidable (∀ t ∈ w.tasks[i]?, OwnTask w.device t))
  | .up | .down | .join _ _ | .revoked _ _ | .ended _ => inferInstanceAs (Decidable True)

def enrolled : World Unit :=
  { device := { state := some { memberships := [⟨(), 0⟩] } } }

/-- `up` and `down`, from beginning to end. -/
def starts : List (Move Unit) := .up :: List.replicate 5 (.next 0)

def stops : List (Move Unit) := .down :: List.replicate 5 (.next 0)

def returns (handle : Nat) : List (Move Unit) := [.ended handle, .next 0]

theorem supervised_run_early :
    Along step Own enrolled (starts ++ stops ++ returns 0 ++ starts) ∧
      Supervised (run step enrolled (starts ++ stops ++ returns 0 ++ starts)).device ∧
      One (run step enrolled (starts ++ stops ++ returns 0 ++ starts)).device := by
  refine (and_iff_left_of_imp fun hown => ?_).2 (by decide +kernel)
  exact supervised_run (some { memberships := [⟨(), 0⟩] }) _ hown

/-- It returns after: the session that was started is live and not in the map. The next start puts
another beside it. -/
theorem successor_forgotten :
    ¬Supervised (run step enrolled (starts ++ stops ++ starts ++ returns 0)).device ∧
      ¬One (run step enrolled (starts ++ stops ++ starts ++ returns 0 ++ starts)).device := by
  constructor
  · intro hall
    have hlost : (run step enrolled (starts ++ stops ++ starts ++ returns 0)).device.running () =
        none := by decide +kernel
    have hlive : (run step enrolled (starts ++ stops ++ starts ++ returns 0)).device.sessions[1]? =
        some { member := () } := by decide +kernel
    cases hlost.symm.trans (hall 1 _ hlive rfl)
  · intro hall
    have hlive : ∀ h ∈ [1, 2],
        (run step enrolled (starts ++ stops ++ starts ++ returns 0 ++ starts)).device.sessions[h]? =
          some { member := () } := by decide +kernel
    exact absurd (hall 1 _ (hlive 1 (by decide)) 2 _ (hlive 2 (by decide)) rfl rfl rfl) (by decide)

end Meshp.Agent
