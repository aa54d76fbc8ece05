import Meshp.Base.Calls

/-!
# Programs That Share a State

Threads of one process act on memory and on a kernel they share, and between two
actions of one of them any other may act. `Resume` is a program as such a thread
runs it: it is finished, or it is about to act in one step and to go on from what
it found. What a step finds is the state as it then is, so a program that reads
something and acts on it later may act on what is no longer so.
-/

namespace Meshp.Base

/-- A program that acts on a state of type `σ`: each action changes the state, and the program goes
on from the state before it. -/
inductive Resume (σ α : Type) where
  | done (a : α)
  | act (f : σ → σ) (next : σ → Resume σ α)

namespace Resume

variable {σ α β ν : Type}

def bind : Resume σ α → (α → Resume σ β) → Resume σ β
  | .done a, f => f a
  | .act g next, f => .act g fun s => (next s).bind f

instance : Monad (Resume σ) where
  pure := .done
  bind := bind

def query (f : σ → α) : Resume σ α :=
  .act id fun s => .done (f s)

def update (f : σ → σ) : Resume σ Unit :=
  .act f fun _ => .done ()

def attempt (f : σ → Option σ) : Resume σ Bool :=
  .act (fun s => (f s).getD s) fun s => .done (f s).isSome

def all : List (σ → Option σ) → Resume σ Bool
  | [] => pure true
  | f :: fs => do if ← attempt f then all fs else pure false

/-- A program of calls, where `act` says what a call does. -/
def ofCalls (act : ν → σ → Option σ) : Calls ν α → Resume σ α
  | .done a => .done a
  | .call c next => .act (fun s => (act c s).getD s) fun s => ofCalls act (next (act c s).isSome)

def exec : Resume σ α → σ → α × σ
  | .done a, s => (a, s)
  | .act f next, s => exec (next s) (f s)

variable {s : σ}

@[simp]
theorem exec_pure (a : α) : exec (pure a : Resume σ α) s = (a, s) := rfl

@[simp]
theorem exec_query (f : σ → α) : exec (query f) s = (f s, s) := rfl

@[simp]
theorem exec_update (f : σ → σ) : exec (update f) s = ((), f s) := rfl

@[simp]
theorem exec_attempt (f : σ → Option σ) : exec (attempt f) s = ((f s).isSome, (f s).getD s) := rfl

@[simp]
theorem exec_bind (p : Resume σ α) (f : α → Resume σ β) :
    exec (p >>= f) s = exec (f (exec p s).1) (exec p s).2 := by
  induction p generalizing s with
  | done a => rfl
  | act g next ih => exact ih s

theorem exec_query_bind (f : σ → α) (g : α → Resume σ β) :
    exec (query f >>= g) s = exec (g (f s)) s := rfl

theorem exec_all {ι : Type} {f : ι → σ → Option σ} {I : σ → Prop} {is : List ι}
    (hf : ∀ i ∈ is, ∀ s, I s → ∃ s', f i s = some s' ∧ I s') (hs : I s) :
    (exec (all (is.map f)) s).1 = true ∧ I (exec (all (is.map f)) s).2 := by
  induction is generalizing s with
  | nil => exact ⟨rfl, hs⟩
  | cons i is ih =>
    obtain ⟨s', hi, hs'⟩ := hf i (.head _) s hs
    simp only [List.map_cons, all, exec_bind, exec_attempt, hi, Option.isSome_some, if_true,
      Option.getD_some]
    exact ih (fun j hj => hf j (.tail _ hj)) hs'

theorem exec_all_append {fs gs : List (σ → Option σ)} (h : (exec (all fs) s).1 = true) :
    exec (all (fs ++ gs)) s = exec (all gs) (exec (all fs) s).2 := by
  induction fs generalizing s with
  | nil => rfl
  | cons f fs ih =>
    rcases Option.eq_none_or_eq_some (f s) with hf | ⟨s', hf⟩
    · simp [all, hf] at h
    · simp only [List.cons_append, all, exec_bind, exec_attempt, hf, Option.isSome_some, if_true,
        Option.getD_some] at h ⊢
      exact ih h

theorem exec_ofCalls (act : ν → σ → Option σ) (p : Calls ν α) :
    exec (ofCalls act p) s = p.exec act (fun _ => true) s := by
  induction p generalizing s with
  | done a => rfl
  | call c next ih =>
    have houtcome : Calls.outcome act (fun _ => true) c s =
        ((act c s).isSome, (act c s).getD s) := by
      unfold Calls.outcome
      rw [if_pos rfl]
      cases act c s <;> rfl
    simp only [ofCalls, exec, Calls.exec, houtcome]
    exact ih _

/-- Every action of a program keeps `I`, whatever it finds. -/
def Keeps (I : σ → Prop) : Resume σ α → Prop
  | .done _ => True
  | .act f next => (∀ s, I s → I (f s)) ∧ ∀ s, Keeps I (next s)

variable {I : σ → Prop}

theorem keeps_query (f : σ → α) : Keeps I (query f) :=
  ⟨fun _ => id, fun _ => trivial⟩

theorem keeps_update {f : σ → σ} (hf : ∀ s, I s → I (f s)) : Keeps I (update f) :=
  ⟨hf, fun _ => trivial⟩

theorem keeps_attempt {f : σ → Option σ} (hf : ∀ s s', I s → f s = some s' → I s') :
    Keeps I (attempt f) := by
  refine ⟨fun s hs => ?_, fun _ => trivial⟩
  change I ((f s).getD s)
  cases h : f s with
  | none => exact hs
  | some s' => exact hf s s' hs h

theorem keeps_bind {p : Resume σ α} {f : α → Resume σ β} (hp : Keeps I p)
    (hf : ∀ a, Keeps I (f a)) : Keeps I (p >>= f) := by
  induction p with
  | done a => exact hf a
  | act g next ih => exact ⟨hp.1, fun s => ih s (hp.2 s)⟩

theorem keeps_ite {c : Prop} [Decidable c] {p q : Resume σ α} (hp : c → Keeps I p)
    (hq : ¬c → Keeps I q) : Keeps I (if c then p else q) := by
  split
  · exact hp ‹_›
  · exact hq ‹_›

theorem keeps_all {fs : List (σ → Option σ)}
    (hfs : ∀ f ∈ fs, ∀ s s', I s → f s = some s' → I s') : Keeps I (all fs) := by
  induction fs with
  | nil => trivial
  | cons f fs ih =>
    refine keeps_bind (keeps_attempt (hfs f (.head _))) fun _ => ?_
    exact keeps_ite (fun _ => ih fun g hg => hfs g (.tail _ hg)) fun _ => trivial

theorem keeps_ofCalls {act : ν → σ → Option σ} {P : ν → Prop} {p : Calls ν α}
    (hp : p.Only P) (hact : ∀ c, P c → ∀ s s', I s → act c s = some s' → I s') :
    Keeps I (ofCalls act p) := by
  induction p with
  | done a => trivial
  | call c next ih =>
    refine ⟨fun s hs => ?_, fun s => ih _ (hp.2 _)⟩
    change I ((act c s).getD s)
    cases h : act c s with
    | none => exact hs
    | some s' => exact hact c hp.1 s s' hs h

end Resume

end Meshp.Base
