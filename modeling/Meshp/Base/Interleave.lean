import Meshp.Base.Run

/-!
# Transactions That Read, Then Write

A database that locks no row it only reads lets a transaction decide on what it
saw and write after others have written. The transactions here read once and write
once. From the first row a transaction locks to its commit nobody else who wants
that row gets further, so the write is one step, and what is left to choose is the
order of reads and writes. A schedule in which every transaction still finds, when
it writes, what it read, is as good as one in which each runs alone.
-/

namespace Meshp.Base

variable {σ ρ ε ι : Type*}

structure Transaction (σ ρ ε : Type*) where
  read : σ → ρ
  write : ρ → σ → Except ε σ

def Transaction.whole (t : Transaction σ ρ ε) (s : σ) : Except ε σ :=
  t.write (t.read s) s

def serial (txs : ι → Transaction σ ρ ε) (s : σ) (is : List ι) : σ :=
  run (fun s i => attempt (txs i).whole s) s is

theorem serial_concat (txs : ι → Transaction σ ρ ε) (s : σ) (is : List ι) (i : ι) :
    serial txs s (is ++ [i]) = attempt (txs i).whole (serial txs s is) :=
  run_append s is [i]

inductive Phase (ρ : Type*)
  | waiting
  | holding (seen : ρ)
  | finished

structure Interleaved (σ ι ρ : Type*) where
  store : σ
  phase : ι → Phase ρ := fun _ => .waiting
  finished : List ι := []

inductive Move (ι : Type*)
  | read (i : ι)
  | write (i : ι)

section Schedule

variable [DecidableEq ι] (txs : ι → Transaction σ ρ ε)

def Interleaved.step (w : Interleaved σ ι ρ) : Move ι → Interleaved σ ι ρ
  | .read i =>
    match w.phase i with
    | .waiting =>
      { w with phase := Function.update w.phase i (.holding ((txs i).read w.store)) }
    | _ => w
  | .write i =>
    match w.phase i with
    | .holding seen =>
      { store := attempt ((txs i).write seen) w.store
        phase := Function.update w.phase i .finished
        finished := w.finished ++ [i] }
    | _ => w

inductive Stepped (w : Interleaved σ ι ρ) : Move ι → Interleaved σ ι ρ → Prop
  | idle (m : Move ι) (h : ∀ i seen, m = .write i → w.phase i ≠ .holding seen) : Stepped w m w
  | read (i : ι) (h : w.phase i = .waiting) :
      Stepped w (.read i)
        { w with phase := Function.update w.phase i (.holding ((txs i).read w.store)) }
  | write (i : ι) (seen : ρ) (h : w.phase i = .holding seen) :
      Stepped w (.write i)
        { store := attempt ((txs i).write seen) w.store
          phase := Function.update w.phase i .finished
          finished := w.finished ++ [i] }

theorem step_stepped (w : Interleaved σ ι ρ) (m : Move ι) : Stepped txs w m (w.step txs m) := by
  cases m with
  | read i =>
    simp only [Interleaved.step]
    split
    · exact .read i ‹_›
    · exact .idle _ nofun
  | write i =>
    simp only [Interleaved.step]
    split
    · exact .write i _ ‹_›
    · rename_i hphase
      refine .idle _ fun j seen hj => ?_
      cases hj
      exact hphase seen

def Fresh (w : Interleaved σ ι ρ) : Move ι → Prop
  | .read _ => True
  | .write i => ∀ seen, w.phase i = .holding seen → (txs i).read w.store = seen

instance decidableFresh [DecidableEq ρ] (w : Interleaved σ ι ρ) :
    ∀ m : Move ι, Decidable (Fresh txs w m)
  | .read _ => inferInstanceAs (Decidable True)
  | .write i =>
    match hphase : w.phase i with
    | .holding seen =>
      decidable_of_iff ((txs i).read w.store = seen)
        ⟨fun h _ hseen => h.trans (Phase.holding.inj (hphase.symm.trans hseen)),
          fun h => h seen hphase⟩
    | .waiting => isTrue fun _ hseen => by cases hphase.symm.trans hseen
    | .finished => isTrue fun _ hseen => by cases hphase.symm.trans hseen

def Recorded (w : Interleaved σ ι ρ) : Prop :=
  w.finished.Nodup ∧ ∀ i, i ∈ w.finished ↔ w.phase i = .finished

theorem recorded_step (w : Interleaved σ ι ρ) (m : Move ι) (h : Recorded w) :
    Recorded (w.step txs m) := by
  have hstep := step_stepped txs w m
  generalize w.step txs m = w' at hstep ⊢
  cases hstep with
  | idle m _ => exact h
  | read i hphase =>
    refine ⟨h.1, fun j => ?_⟩
    by_cases hj : j = i
    · -- The one that read had not finished, and still has not.
      subst hj
      simp [h.2, hphase]
    · simp [h.2, Function.update_of_ne hj]
  | write i seen hphase =>
    have hnew : i ∉ w.finished := by
      intro hi
      rw [h.2, hphase] at hi
      cases hi
    refine ⟨List.Nodup.append h.1 (List.nodup_cons.2 ⟨nofun, List.nodup_nil⟩) ?_, fun j => ?_⟩
    · intro j hj hji
      exact hnew (List.mem_singleton.1 hji ▸ hj)
    · by_cases hj : j = i
      · simp [hj]
      · simp [h.2, hj]

theorem recorded_run (s : σ) (moves : List (Move ι)) :
    Recorded (run (Interleaved.step txs) { store := s } moves) :=
  run_inv Recorded (recorded_step txs) { store := s } moves
    ⟨List.nodup_nil, fun _ => ⟨nofun, nofun⟩⟩

theorem store_eq_serial (s : σ) (moves : List (Move ι))
    (h : Along (Interleaved.step txs) (Fresh txs) { store := s } moves) :
    (run (Interleaved.step txs) { store := s } moves).store =
      serial txs s (run (Interleaved.step txs) { store := s } moves).finished := by
  refine run_inv_along (fun w : Interleaved σ ι ρ => w.store = serial txs s w.finished)
    (fun w m hw hfresh => ?_) { store := s } moves rfl h
  have hstep := step_stepped txs w m
  generalize w.step txs m = w' at hstep ⊢
  cases hstep with
  | idle m _ => exact hw
  | read i _ => exact hw
  | write i seen hphase =>
    -- Having read the same just now, it has run alone.
    have halone : attempt ((txs i).write seen) w.store = attempt (txs i).whole w.store := by
      unfold attempt Transaction.whole
      rw [hfresh seen hphase]
    change attempt ((txs i).write seen) w.store = serial txs s (w.finished ++ [i])
    rw [halone, serial_concat, ← hw]

end Schedule

end Meshp.Base
