import Mathlib

/-!
# Runs of a Step Function

A history is a list of steps, and the state it reaches is what folding the step
function over the list leaves behind. A step that is refused leaves the state
alone, and `Along` is a condition on the steps carried down a whole history.
-/

namespace Meshp.Base

variable {σ α : Type*} {step : σ → α → σ} {cond cond' : σ → α → Prop}

/-- The state reached from `s` by taking `as` in order. -/
def run (step : σ → α → σ) (s : σ) (as : List α) : σ :=
  as.foldl step s

/-- Each step of `as`, taken from `s`, meets `cond` in the state before it. -/
def Along (step : σ → α → σ) (cond : σ → α → Prop) : σ → List α → Prop
  | _, [] => True
  | s, a :: as => cond s a ∧ Along step cond (step s a) as

instance decidableAlong [∀ s a, Decidable (cond s a)] :
    ∀ (s : σ) (as : List α), Decidable (Along step cond s as)
  | _, [] => inferInstanceAs (Decidable True)
  | s, a :: as =>
    have := decidableAlong (step s a) as
    inferInstanceAs (Decidable (cond s a ∧ Along step cond (step s a) as))

@[simp]
theorem run_nil (s : σ) : run step s [] = s := rfl

@[simp]
theorem run_cons (s : σ) (a : α) (as : List α) :
    run step s (a :: as) = run step (step s a) as := rfl

theorem run_append (s : σ) (as bs : List α) :
    run step s (as ++ bs) = run step (run step s as) bs :=
  List.foldl_append

theorem along_append (s : σ) (as bs : List α) :
    Along step cond s (as ++ bs) ↔
      Along step cond s as ∧ Along step cond (run step s as) bs := by
  induction as generalizing s with
  | nil => simp only [List.nil_append, Along, run_nil, true_and]
  | cons a as ih => simp only [List.cons_append, Along, run_cons, ih, and_assoc]

theorem along_mono (h : ∀ s a, cond s a → cond' s a) (s : σ) (as : List α)
    (ha : Along step cond s as) : Along step cond' s as := by
  induction as generalizing s with
  | nil => trivial
  | cons a as ih => exact ⟨h s a ha.1, ih (step s a) ha.2⟩

theorem along_true (s : σ) (as : List α) : Along step (fun _ _ => True) s as := by
  induction as generalizing s with
  | nil => trivial
  | cons a as ih => exact ⟨trivial, ih (step s a)⟩

theorem along_and (s : σ) (as : List α) (ha : Along step cond s as)
    (ha' : Along step cond' s as) : Along step (fun s a => cond s a ∧ cond' s a) s as := by
  induction as generalizing s with
  | nil => trivial
  | cons a as ih => exact ⟨⟨ha.1, ha'.1⟩, ih (step s a) ha.2 ha'.2⟩

theorem along_and_mem {P : α → Prop} (s : σ) (as : List α) (ha : Along step cond s as)
    (hP : ∀ a ∈ as, P a) : Along step (fun s a => cond s a ∧ P a) s as := by
  induction as generalizing s with
  | nil => trivial
  | cons a as ih =>
    exact ⟨⟨ha.1, hP a (.head _)⟩,
      ih (step s a) ha.2 fun b hb => hP b (.tail _ hb)⟩

theorem run_inv_along (I : σ → Prop) (hstep : ∀ s a, I s → cond s a → I (step s a))
    (s : σ) (as : List α) (hs : I s) (ha : Along step cond s as) : I (run step s as) := by
  induction as generalizing s with
  | nil => exact hs
  | cons a as ih => exact ih (step s a) (hstep s a hs ha.1) ha.2

theorem run_inv (I : σ → Prop) (hstep : ∀ s a, I s → I (step s a))
    (s : σ) (as : List α) (hs : I s) : I (run step s as) := by
  induction as generalizing s with
  | nil => exact hs
  | cons a as ih => exact ih (step s a) (hstep s a hs)

theorem run_keeps {τ : Type*} (f : σ → τ) (as : List α) (s : σ)
    (h : ∀ s, ∀ a ∈ as, f (step s a) = f s) : f (run step s as) = f s := by
  induction as generalizing s with
  | nil => rfl
  | cons a as ih =>
    rw [run_cons, ih (step s a) fun s b hb => h s b (.tail _ hb)]
    exact h s a (.head _)

theorem along_congr_inv (I : σ → Prop) (hstep : ∀ s a, I s → I (step s a))
    (h : ∀ s a, I s → (cond s a ↔ cond' s a)) (s : σ) (as : List α) (hs : I s) :
    Along step cond s as ↔ Along step cond' s as := by
  induction as generalizing s with
  | nil => exact Iff.rfl
  | cons a as ih => exact and_congr (h s a hs) (ih (step s a) (hstep s a hs))

variable {ε : Type*} {β γ : Type}

def attempt (f : σ → Except ε σ) (s : σ) : σ :=
  match f s with
  | .ok s' => s'
  | .error _ => s

theorem attempt_inv (I : σ → Prop) (f : σ → Except ε σ) (s : σ)
    (hok : ∀ s', f s = .ok s' → I s') (hs : I s) : I (attempt f s) := by
  unfold attempt
  cases hf : f s with
  | ok s' => exact hok s' hf
  | error e => exact hs

/-- Refuse with `e` when `c` holds. -/
def refuseIf (c : Prop) [Decidable c] (e : ε) : Except ε Unit :=
  if c then .error e else .ok ()

theorem refuseIf_eq_ok {c : Prop} [Decidable c] {e : ε} {u : Unit} :
    refuseIf c e = .ok u ↔ ¬c := by
  unfold refuseIf
  by_cases h : c
  · simp [h]
  · simp [h]

variable {x : Except ε β} {as : List α} {b : β} {bs : List β} {f : α → Except ε β}

theorem bind_eq_ok {f : β → Except ε γ} {c : γ} :
    x >>= f = .ok c ↔ ∃ b, x = .ok b ∧ f b = .ok c := by
  cases x with
  | error e =>
    constructor
    · intro h
      cases h
    · rintro ⟨b, h, _⟩
      cases h
  | ok a =>
    constructor
    · intro h
      exact ⟨a, rfl, h⟩
    · rintro ⟨b, h, hb⟩
      cases h
      exact hb

theorem refuseIf_bind_eq_ok {c : Prop} [Decidable c] {e : ε} {f : Unit → Except ε γ} {r : γ} :
    refuseIf c e >>= f = .ok r ↔ ¬c ∧ f () = .ok r := by
  rw [bind_eq_ok]
  constructor
  · rintro ⟨u, hu, hf⟩
    exact ⟨refuseIf_eq_ok.1 hu, hf⟩
  · rintro ⟨hc, hf⟩
    exact ⟨(), refuseIf_eq_ok.2 hc, hf⟩

theorem forM_eq_ok {f : α → Except ε Unit} {u : Unit} :
    as.forM f = .ok u ↔ ∀ a ∈ as, f a = .ok () := by
  induction as with
  | nil => exact ⟨nofun, fun _ => rfl⟩
  | cons a as ih =>
    rw [show (a :: as).forM f = f a >>= fun _ => as.forM f from rfl, bind_eq_ok,
      List.forall_mem_cons]
    constructor
    · rintro ⟨u, hu, has⟩
      exact ⟨hu, ih.1 has⟩
    · rintro ⟨ha, has⟩
      exact ⟨(), ha, ih.2 has⟩

instance decidableOk {P : β → Prop} [DecidablePred P] :
    Decidable (∃ b, x = .ok b ∧ P b) :=
  match x with
  | .error _ => .isFalse fun ⟨_, h, _⟩ => nomatch h
  | .ok b => decidable_of_iff (P b) ⟨fun h => ⟨b, rfl, h⟩, fun ⟨_, h, hb⟩ => Except.ok.inj h ▸ hb⟩

theorem toOption_eq_some : x.toOption = some b ↔ x = .ok b := by
  cases x with
  | error e => exact ⟨nofun, nofun⟩
  | ok a => exact ⟨fun h => congrArg _ (Option.some.inj h), fun h => congrArg _ (Except.ok.inj h)⟩

theorem map_eq_ok {f : β → γ} {c : γ} : x.map f = .ok c ↔ ∃ b, x = .ok b ∧ f b = c := by
  cases x with
  | error e =>
    constructor
    · intro h
      cases h
    · rintro ⟨b, h, _⟩
      cases h
  | ok a =>
    constructor
    · intro h
      refine ⟨a, rfl, ?_⟩
      injection h
    · rintro ⟨b, h, hb⟩
      cases h
      exact congrArg Except.ok hb

theorem mapError_eq_ok {ε' : Type*} {f : ε → ε'} : x.mapError f = .ok b ↔ x = .ok b := by
  cases x with
  | error e =>
    constructor
    · intro h
      cases h
    · intro h
      cases h
  | ok a =>
    constructor
    · intro h
      cases h
      rfl
    · intro h
      cases h
      rfl

theorem mapM_eq_ok : as.mapM f = .ok bs ↔ List.Forall₂ (fun a b => f a = .ok b) as bs := by
  induction as generalizing bs with
  | nil =>
    rw [List.forall₂_nil_left_iff]
    exact ⟨fun h => (Except.ok.inj h).symm, fun h => h ▸ rfl⟩
  | cons a as ih =>
    rw [List.mapM_cons, bind_eq_ok, List.forall₂_cons_left_iff]
    refine exists_congr fun b => ?_
    simp only [bind_eq_ok, ih]
    constructor
    · rintro ⟨hb, bs', hbs, h⟩
      exact ⟨bs', hb, hbs, (Except.ok.inj h).symm⟩
    · rintro ⟨bs', hb, hbs, rfl⟩
      exact ⟨hb, bs', hbs, rfl⟩

theorem any_of_mapM {q : β → Bool} {q' : α → Bool} (h : ∀ a b, f a = .ok b → q b = q' a)
    (hm : as.mapM f = .ok bs) : bs.any q = as.any q' := by
  rw [mapM_eq_ok] at hm
  induction hm with
  | nil => rfl
  | cons hb _ ih => rw [List.any_cons, List.any_cons, h _ _ hb, ih]

theorem mem_of_mapM (hm : as.mapM f = .ok bs) (hb : b ∈ bs) : ∃ a ∈ as, f a = .ok b := by
  rw [mapM_eq_ok] at hm
  induction hm with
  | nil => cases hb
  | cons hb' _ ih =>
    rcases List.mem_cons.1 hb with rfl | hb
    · exact ⟨_, .head _, hb'⟩
    · obtain ⟨a, ha, hfa⟩ := ih hb
      exact ⟨a, .tail _ ha, hfa⟩

theorem mapM_ok (h : ∀ a ∈ as, ∃ b, f a = .ok b) : ∃ bs, as.mapM f = .ok bs := by
  induction as with
  | nil => exact ⟨[], rfl⟩
  | cons a as ih =>
    obtain ⟨b, hb⟩ := h a (.head _)
    obtain ⟨bs, hbs⟩ := ih fun a' ha' => h a' (.tail _ ha')
    exact ⟨b :: bs, mapM_eq_ok.2 (.cons hb (mapM_eq_ok.1 hbs))⟩

theorem mapM_eq_nil_iff (hm : as.mapM f = .ok bs) : bs = [] ↔ as = [] := by
  cases mapM_eq_ok.1 hm with
  | nil => simp
  | cons => simp

theorem mapM_mapError {ε' : Type*} {g : ε → ε'} :
    (as.mapM fun a => (f a).mapError g) = .ok bs ↔ as.mapM f = .ok bs := by
  simp only [mapM_eq_ok, mapError_eq_ok]

end Meshp.Base
