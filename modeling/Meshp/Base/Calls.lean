import Meshp.Base.Run

/-!
# Programs of Calls That May Fail

A program that changes a system by calls, any of which may fail. It sees of a call
only whether it succeeded, and goes on from that. A call that fails has changed
nothing.
-/

namespace Meshp.Base

inductive Calls (ν α : Type) where
  | done (a : α)
  | call (c : ν) (next : Bool → Calls ν α)

namespace Calls

variable {ν σ α β : Type}

def bind : Calls ν α → (α → Calls ν β) → Calls ν β
  | .done a, f => f a
  | .call c next, f => .call c fun success => (next success).bind f

instance : Monad (Calls ν) where
  pure := .done
  bind := bind

def make (c : ν) : Calls ν Bool :=
  .call c .done

def all : List ν → Calls ν Bool
  | [] => pure true
  | c :: cs => do if ← make c then all cs else pure false

def each : List ν → Calls ν Bool
  | [] => pure true
  | c :: cs => do
    let first ← make c
    let rest ← each cs
    pure (first && rest)

def rename {ν' : Type} (f : ν → ν') : Calls ν α → Calls ν' α
  | .done a => .done a
  | .call c next => .call (f c) fun success => (next success).rename f

variable (act : ν → σ → Option σ) (ok : ν → Bool)

def outcome (c : ν) (s : σ) : Bool × σ :=
  if ok c then (act c s).elim (false, s) (true, ·) else (false, s)

def exec : Calls ν α → σ → α × σ
  | .done a, s => (a, s)
  | .call c next, s => exec (next (outcome act ok c s).1) (outcome act ok c s).2

def points : Calls ν α → σ → List σ
  | .done _, _ => []
  | .call c next, s =>
    (outcome act ok c s).2 :: points (next (outcome act ok c s).1) (outcome act ok c s).2

def succeeds : Calls ν α → σ → Bool
  | .done _, _ => true
  | .call c next, s =>
    (outcome act ok c s).1 && succeeds (next (outcome act ok c s).1) (outcome act ok c s).2

/-- At every point `I` holds, and at the end `Q`. -/
def Ensures (I : σ → Prop) (Q : α → σ → Prop) : Calls ν α → σ → Prop
  | .done a, s => Q a s
  | .call c next, s =>
    (∀ s', ok c = true → act c s = some s' → I s' ∧ Ensures I Q (next true) s') ∧
      (ok c = false ∨ act c s = none → I s ∧ Ensures I Q (next false) s)

variable {act ok} {I I' : σ → Prop} {Q Q' : α → σ → Prop}

variable {c : ν} {s : σ} {p : Calls ν α} {R : β → σ → Prop} {cs : List ν}

theorem ensures_outcome {next : Bool → Calls ν α} (h : Ensures act ok I Q (.call c next) s) :
    I (outcome act ok c s).2 ∧
      Ensures act ok I Q (next (outcome act ok c s).1) (outcome act ok c s).2 := by
  unfold outcome
  by_cases hok : ok c = true
  · rw [if_pos hok]
    cases hact : act c s with
    | none => exact h.2 (.inr hact)
    | some s' => exact h.1 s' hok hact
  · rw [if_neg hok]
    exact h.2 (.inl (Bool.eq_false_iff.2 hok))

theorem points_of_ensures (h : Ensures act ok I Q p s) : ∀ t ∈ points act ok p s, I t := by
  induction p generalizing s with
  | done a => exact nofun
  | call c next ih =>
    have hnext := ensures_outcome h
    intro t ht
    rcases List.mem_cons.1 ht with rfl | ht
    · exact hnext.1
    · exact ih _ hnext.2 t ht

theorem exec_of_ensures (h : Ensures act ok I Q p s) :
    Q (exec act ok p s).1 (exec act ok p s).2 := by
  induction p generalizing s with
  | done a => exact h
  | call c next ih => exact ih _ (ensures_outcome h).2

theorem exec_of_succeeds {act' : ν → σ → Option σ}
    (hact' : ∀ c s s', act c s = some s' → act' c s = some s')
    (h : succeeds act ok p s = true) : exec act ok p s = exec act' (fun _ => true) p s := by
  induction p generalizing s with
  | done a => rfl
  | call c next ih =>
    obtain ⟨hcall, hnext⟩ := Bool.and_eq_true_iff.1 h
    have hsame : outcome act' (fun _ => true) c s = outcome act ok c s := by
      unfold outcome at hcall ⊢
      by_cases hok : ok c = true
      · rw [if_pos hok] at hcall ⊢
        cases hact : act c s with
        | none =>
          rw [hact] at hcall
          cases hcall
        | some s' => rw [if_pos rfl, hact' c s s' hact]
      · rw [if_neg hok] at hcall
        cases hcall
    simp only [exec, hsame]
    exact ih _ hnext

def total (act : ν → σ → Option σ) : ν → σ → Option σ :=
  fun c s => some ((act c s).getD s)

theorem exec_of_succeeds_total (h : succeeds act ok p s = true) :
    exec act ok p s = exec (total act) (fun _ => true) p s :=
  exec_of_succeeds (fun _ _ _ hact => by rw [total, hact]; rfl) h

theorem exec_lift {τ : Type} {act' : ν → τ → Option τ} (get : τ → σ) (put : τ → σ → τ)
    (hact : ∀ c t, act' c t = (act c (get t)).map (put t)) (hput : ∀ t, put t (get t) = t)
    (hget : ∀ t s, get (put t s) = s) (hputs : ∀ t s s', put (put t s) s' = put t s')
    (p : Calls ν α) (t : τ) :
    exec act' ok p t = ((exec act ok p (get t)).1, put t (exec act ok p (get t)).2) := by
  induction p generalizing t with
  | done a => exact congrArg (Prod.mk a) (hput t).symm
  | call c next ih =>
    have houtcome : outcome act' ok c t =
        ((outcome act ok c (get t)).1, put t (outcome act ok c (get t)).2) := by
      unfold outcome
      rw [hact]
      by_cases hok : ok c = true
      · rw [if_pos hok, if_pos hok]
        cases act c (get t) with
        | none => exact congrArg (Prod.mk false) (hput t).symm
        | some s => rfl
      · rw [if_neg hok, if_neg hok]
        exact congrArg (Prod.mk false) (hput t).symm
    simp only [exec, houtcome]
    rw [ih, hget, hputs]

theorem ensures_mono (hI : ∀ t, I t → I' t) (hQ : ∀ a t, Q a t → Q' a t)
    (h : Ensures act ok I Q p s) : Ensures act ok I' Q' p s := by
  induction p generalizing s with
  | done a => exact hQ a s h
  | call c next ih =>
    constructor
    · intro s' hok hact
      obtain ⟨hpoint, hnext⟩ := h.1 s' hok hact
      exact ⟨hI _ hpoint, ih true hnext⟩
    · intro hfails
      obtain ⟨hpoint, hnext⟩ := h.2 hfails
      exact ⟨hI _ hpoint, ih false hnext⟩

theorem ensures_of_forall (hI : ∀ t, I t) (hQ : ∀ a t, Q a t) : Ensures act ok I Q p s := by
  induction p generalizing s with
  | done a => exact hQ a s
  | call c next ih => exact ⟨fun s' _ _ => ⟨hI s', ih true⟩, fun _ => ⟨hI s, ih false⟩⟩

theorem ensures_bind {f : α → Calls ν β}
    (h : Ensures act ok I (fun a t => Ensures act ok I R (f a) t) p s) :
    Ensures act ok I R (p >>= f) s := by
  induction p generalizing s with
  | done a => exact h
  | call c next ih =>
    constructor
    · intro s' hok hact
      obtain ⟨hpoint, hnext⟩ := h.1 s' hok hact
      exact ⟨hpoint, ih true hnext⟩
    · intro hfails
      obtain ⟨hpoint, hnext⟩ := h.2 hfails
      exact ⟨hpoint, ih false hnext⟩

theorem ensures_seq {f : α → Calls ν β} (h : Ensures act ok I Q p s)
    (hf : ∀ a t, Q a t → Ensures act ok I R (f a) t) : Ensures act ok I R (p >>= f) s :=
  ensures_bind (ensures_mono (fun _ => id) hf h)

theorem ensures_make {f : Bool → Calls ν β}
    (hok : ∀ s', ok c = true → act c s = some s' → I s' ∧ Ensures act ok I R (f true) s')
    (hfails : ok c = false ∨ act c s = none → I s ∧ Ensures act ok I R (f false) s) :
    Ensures act ok I R (make c >>= f) s :=
  ⟨hok, hfails⟩

theorem ensures_make_total {f : Bool → Calls ν β} {s' : σ} (hok : ok c = true)
    (hact : act c s = some s') (hs : I s') (hnext : Ensures act ok I R (f true) s') :
    Ensures act ok I R (make c >>= f) s := by
  refine ensures_make (fun t _ ht => ?_) (fun hfails => ?_)
  · cases hact.symm.trans ht
    exact ⟨hs, hnext⟩
  · rw [hok, hact] at hfails
    simp at hfails

theorem ensures_idle {f : Bool → Calls ν β} (hact : act c s = some s) (hs : I s)
    (hnext : ∀ success, (ok c = true → success = true) → Ensures act ok I R (f success) s) :
    Ensures act ok I R (make c >>= f) s := by
  refine ensures_make (fun s' _ hs' => ?_) (fun hfails => ?_)
  · cases hact.symm.trans hs'
    exact ⟨hs, hnext true fun _ => rfl⟩
  · have hno : ok c = false := hfails.resolve_right (by rw [hact]; exact Option.some_ne_none s)
    exact ⟨hs, hnext false fun hok => absurd hok (by rw [hno]; exact Bool.false_ne_true)⟩

theorem ensures_rename {ν' : Type} {f : ν' → ν} {p : Calls ν' α}
    (h : Ensures (fun c => act (f c)) (fun c => ok (f c)) I Q p s) :
    Ensures act ok I Q (p.rename f) s := by
  induction p generalizing s with
  | done a => exact h
  | call c next ih =>
    constructor
    · intro s' hok hact
      obtain ⟨hpoint, hnext⟩ := h.1 s' hok hact
      exact ⟨hpoint, ih true hnext⟩
    · intro hfails
      obtain ⟨hpoint, hnext⟩ := h.2 hfails
      exact ⟨hpoint, ih false hnext⟩

theorem ensures_all_total {g : ν → σ → σ} {Q : Bool → σ → Prop} (hok : ∀ c ∈ cs, ok c = true)
    (hact : ∀ c ∈ cs, ∀ s, act c s = some (g c s)) (hI : ∀ c ∈ cs, ∀ s, I s → I (g c s)) (hs : I s)
    (hQ : Q true (cs.foldl (fun s c => g c s) s)) : Ensures act ok I Q (all cs) s := by
  induction cs generalizing s with
  | nil => exact hQ
  | cons c cs ih =>
    have hs' := hI c (.head _) s hs
    refine ensures_make_total (hok c (.head _)) (hact c (.head _) s) hs' ?_
    exact ih (fun c h => hok c (.tail _ h)) (fun c h => hact c (.tail _ h))
      (fun c h => hI c (.tail _ h)) hs' hQ

theorem ensures_each_total {g : ν → σ → σ} {Q : Bool → σ → Prop} (hok : ∀ c ∈ cs, ok c = true)
    (hact : ∀ c ∈ cs, ∀ s, act c s = some (g c s)) (hI : ∀ c ∈ cs, ∀ s, I s → I (g c s)) (hs : I s)
    (hQ : Q true (cs.foldl (fun s c => g c s) s)) : Ensures act ok I Q (each cs) s := by
  induction cs generalizing s Q with
  | nil => exact hQ
  | cons c cs ih =>
    have hs' := hI c (.head _) s hs
    refine ensures_make_total (hok c (.head _)) (hact c (.head _) s) hs' (ensures_bind ?_)
    refine ih (fun c h => hok c (.tail _ h)) (fun c h => hact c (.tail _ h))
      (fun c h => hI c (.tail _ h)) hs' ?_
    exact hQ

theorem ensures_all_done {g : ν → σ → σ} (hact : ∀ c s, act c s = some (g c s)) :
    Ensures act ok (fun _ => True)
      (fun done t => done = true → t = cs.foldl (fun s c => g c s) s) (all cs) s := by
  induction cs generalizing s with
  | nil => exact fun _ => rfl
  | cons c cs ih =>
    refine ensures_make (fun s' _ hs' => ?_) (fun _ => ⟨trivial, nofun⟩)
    cases (hact c s).symm.trans hs'
    exact ⟨trivial, ih⟩

theorem ensures_each_done {g : ν → σ → σ} (hact : ∀ c s, act c s = some (g c s)) :
    Ensures act ok (fun _ => True)
      (fun done t => done = true → t = cs.foldl (fun s c => g c s) s) (each cs) s := by
  induction cs generalizing s with
  | nil => exact fun _ => rfl
  | cons c cs ih =>
    refine ensures_make (fun s' _ hs' => ?_) (fun _ => ⟨trivial, ensures_bind ?_⟩)
    · cases (hact c s).symm.trans hs'
      exact ⟨trivial, ensures_seq ih fun _ _ h => h⟩
    · exact ensures_of_forall (fun _ => trivial) fun _ _ => nofun

def Only (P : ν → Prop) : Calls ν α → Prop
  | .done _ => True
  | .call c next => P c ∧ ∀ success, Only P (next success)

variable {P : ν → Prop}

theorem only_bind {f : α → Calls ν β} (hp : Only P p) (hf : ∀ a, Only P (f a)) :
    Only P (p >>= f) := by
  induction p with
  | done a => exact hf a
  | call c next ih => exact ⟨hp.1, fun success => ih success (hp.2 success)⟩

theorem only_mono {P' : ν → Prop} (h : ∀ c, P c → P' c) (hp : Only P p) : Only P' p := by
  induction p with
  | done a => trivial
  | call c next ih => exact ⟨h c hp.1, fun success => ih success (hp.2 success)⟩

theorem only_rename {ν' : Type} {f : ν' → ν} {p : Calls ν' α} (hp : Only (fun c => P (f c)) p) :
    Only P (p.rename f) := by
  induction p with
  | done a => trivial
  | call c next ih => exact ⟨hp.1, fun success => ih success (hp.2 success)⟩

theorem only_make (hc : P c) : Only P (make c) :=
  ⟨hc, fun _ => trivial⟩

theorem only_ite {c : Prop} [Decidable c] {q : Calls ν α} (hp : c → Only P p) (hq : ¬c → Only P q) :
    Only P (if c then p else q) := by
  split
  · exact hp ‹_›
  · exact hq ‹_›

theorem only_all (h : ∀ c ∈ cs, P c) : Only P (all cs) := by
  induction cs with
  | nil => trivial
  | cons c cs ih =>
    refine ⟨h c (.head _), fun success => ?_⟩
    cases success with
    | false => trivial
    | true => exact ih fun c hc => h c (.tail _ hc)

theorem only_each (h : ∀ c ∈ cs, P c) : Only P (each cs) := by
  induction cs with
  | nil => trivial
  | cons c cs ih =>
    have hrest := ih fun c hc => h c (.tail _ hc)
    exact only_bind (only_make (h c (.head _))) fun _ => only_bind hrest fun _ => trivial

theorem ensures_of_only (hp : Only P p) (hkeeps : ∀ c, P c → ∀ s s', I s → act c s = some s' → I s')
    (hs : I s) : Ensures act ok I (fun _ t => I t) p s := by
  induction p generalizing s with
  | done a => exact hs
  | call c next ih =>
    constructor
    · intro s' _ hact
      have hs' := hkeeps c hp.1 s s' hs hact
      exact ⟨hs', ih true (hp.2 true) hs'⟩
    · exact fun _ => ⟨hs, ih false (hp.2 false) hs⟩

theorem ensures_of_passive (hp : Only P p) (hpassive : ∀ c, P c → ∀ t, act c t = some t) (hs : I s)
    (hQ : ∀ a, Q a s) : Ensures act ok I Q p s := by
  have hsame : Ensures act ok (· = s) (fun _ t => t = s) p s := by
    refine ensures_of_only hp (fun c hc t t' ht hact => ?_) rfl
    exact (Option.some.inj ((hpassive c hc t).symm.trans hact)).symm.trans ht
  refine ensures_mono (fun t ht => ?_) (fun a t ht => ?_) hsame
  · rw [ht]
    exact hs
  · rw [ht]
    exact hQ a

end Calls

end Meshp.Base
