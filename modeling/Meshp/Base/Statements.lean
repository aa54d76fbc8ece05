import Meshp.Base.Run

/-!
# Reading a Store in Separate Statements

A computation that asks a store one question at a time, while others go on writing
to it. Each question is answered from the store as it is at that moment, so two
answers may come from two stores, and what the computation makes of them need not
be true of any one of them.
-/

namespace Meshp.Base

/-- A computation that reads a store of type `σ`, one statement at a time. -/
inductive Statements (σ α : Type) where
  | done (a : α)
  | read (next : σ → Statements σ α)

namespace Statements

variable {σ α β γ ι : Type}

def bind : Statements σ α → (α → Statements σ β) → Statements σ β
  | .done a, f => f a
  | .read next, f => .read fun s => (next s).bind f

instance : Monad (Statements σ) where
  pure := .done
  bind := bind

def query (f : σ → α) : Statements σ α :=
  .read fun s => .done (f s)

def each (f : ι → σ → α) : List ι → Statements σ (List α)
  | [] => pure []
  | i :: is => do
    let a ← query (f i)
    let as ← each f is
    pure (a :: as)

def atOnce (s : σ) : Statements σ α → α
  | .done a => a
  | .read next => (next s).atOnce s

@[simp]
theorem atOnce_pure (s : σ) (a : α) : (pure a : Statements σ α).atOnce s = a := rfl

@[simp]
theorem atOnce_query (s : σ) (f : σ → α) : (query f).atOnce s = f s := rfl

@[simp]
theorem atOnce_bind (s : σ) (p : Statements σ α) (f : α → Statements σ β) :
    (p >>= f).atOnce s = (f (p.atOnce s)).atOnce s := by
  induction p with
  | done a => rfl
  | read next ih => exact ih s

@[simp]
theorem atOnce_each (s : σ) (f : ι → σ → α) (is : List ι) :
    (each f is).atOnce s = is.map (f · s) := by
  induction is with
  | nil => rfl
  | cons i is ih =>
    unfold each
    rw [atOnce_bind, atOnce_query, atOnce_bind, ih]
    rfl

theorem bind_assoc (p : Statements σ α) (f : α → Statements σ β) (g : β → Statements σ γ) :
    p >>= f >>= g = p >>= fun a => f a >>= g := by
  induction p with
  | done a => rfl
  | read next ih => exact congrArg Statements.read (funext ih)

/-- However the store changes between the reads, as `rely` allows after each number of them, the
result has the property `Q`. -/
def Ensures (rely : Nat → σ → σ → Prop) (Q : Nat → σ → α → Prop) :
    Nat → Statements σ α → σ → Prop
  | i, .done a, s => ∀ s', rely i s s' → Q i s' a
  | i, .read next, s => ∀ s', rely i s s' → Ensures rely Q (i + 1) (next s') s'

variable {rely : Nat → σ → σ → Prop} {Q : Nat → σ → α → Prop} {i : Nat} {s s' : σ}

variable {p : Statements σ α}

theorem Ensures.later (htrans : ∀ s₁ s₂ s₃, rely i s₁ s₂ → rely i s₂ s₃ → rely i s₁ s₃)
    (h : Ensures rely Q i p s) (hs : rely i s s') : Ensures rely Q i p s' := by
  cases p with
  | done a | read next => exact fun t ht => h t (htrans _ _ _ hs ht)

theorem Ensures.next {next : σ → Statements σ α} (hrefl : rely i s s)
    (h : Ensures rely Q i (.read next) s) : Ensures rely Q (i + 1) (next s) s :=
  h s hrefl

theorem Ensures.result {a : α} (hrefl : rely i s s) (h : Ensures rely Q i (.done a) s) : Q i s a :=
  h s hrefl

theorem ensures_pure {a : α} (h : ∀ s', rely i s s' → Q i s' a) :
    Ensures rely Q i (pure a : Statements σ α) s := h

theorem ensures_query {f : σ → β} {g : β → Statements σ α}
    (h : ∀ s', rely i s s' → Ensures rely Q (i + 1) (g (f s')) s') :
    Ensures rely Q i (query f >>= g) s := h

theorem ensures_each {f : ι → σ → β} {g : List β → Statements σ α} (I : Nat → σ → Prop)
    (P : ι → β → σ → Prop)
    (hstable : ∀ j t t', I j t → rely j t t' → I j t' ∧ ∀ x b, P x b t → P x b t')
    (hread : ∀ j t, I j t → I (j + 1) t) (is : List ι)
    (hanswer : ∀ x ∈ is, ∀ j t, I j t → P x (f x t) t) (hI : I i s)
    (hrest : ∀ j t bs, I j t → (∀ x ∈ is, ∃ b ∈ bs, P x b t) → (∀ b ∈ bs, ∃ x ∈ is, P x b t) →
      Ensures rely Q j (g bs) t) :
    Ensures rely Q i (each f is >>= g) s := by
  induction is generalizing i s g I with
  | nil =>
    exact hrest i s [] hI nofun
      nofun
  | cons x is ih =>
    unfold each
    rw [bind_assoc]
    intro t ht
    have hIt := (hstable i s t hI ht).1
    have hPx := hanswer x (.head _) i t hIt
    -- The answer just read is kept beside the invariant, so that it is still
    -- known when the other members have been asked about.
    change Ensures rely Q (i + 1) ((each f is >>= fun bs => pure (f x t :: bs)) >>= g) t
    rw [bind_assoc]
    refine ih (fun j u => I j u ∧ P x (f x t) u) ?_ ?_ ?_ ⟨hread i t hIt, hPx⟩ ?_
    · intro j u u' hu huu'
      rcases hstable j u u' hu.1 huu' with ⟨hI', hP'⟩
      exact ⟨⟨hI', hP' _ _ hu.2⟩, hP'⟩
    · exact fun j u hu => ⟨hread j u hu.1, hu.2⟩
    · exact fun y hy j u hu => hanswer y (.tail _ hy) j u hu.1
    · intro j u bs hu hall hback
      refine hrest j u (f x t :: bs) hu.1 (fun y hy => ?_) fun b hb => ?_
      · rcases List.mem_cons.1 hy with rfl | hy
        · exact ⟨_, .head _, hu.2⟩
        · rcases hall y hy with ⟨b, hb, hP⟩
          exact ⟨b, .tail _ hb, hP⟩
      · rcases List.mem_cons.1 hb with rfl | hb
        · exact ⟨x, .head _, hu.2⟩
        · rcases hback b hb with ⟨y, hy, hP⟩
          exact ⟨y, .tail _ hy, hP⟩

theorem ensures_any {p : Statements σ β} {g : β → Statements σ α} (I : Nat → σ → Prop)
    (hstable : ∀ j t t', I j t → rely j t t' → I j t') (hread : ∀ j t, I j t → I (j + 1) t)
    (hI : I i s) (hrest : ∀ j t b, I j t → Ensures rely Q j (g b) t) :
    Ensures rely Q i (p >>= g) s := by
  induction p generalizing i s with
  | done b => exact hrest i s b hI
  | read next ih => exact fun t ht => ih t (hread i t (hstable i s t hI ht))

inductive Only (v : σ → β) : Statements σ α → Prop
  | done (a : α) : Only v (.done a)
  | read {next : σ → Statements σ α} (same : ∀ s s', v s = v s' → next s = next s')
      (rest : ∀ s, Only v (next s)) : Only v (.read next)

variable {v : σ → γ}

theorem only_query {f : σ → α} (hf : ∀ s s', v s = v s' → f s = f s') : Only v (query f) :=
  .read (fun s s' h => congrArg Statements.done (hf s s' h)) fun s => .done (f s)

theorem Only.bind {f : α → Statements σ β} (hp : Only v p) (hf : ∀ a, Only v (f a)) :
    Only v (p >>= f) := by
  induction hp with
  | done a => exact hf a
  | read same rest ih =>
    exact .read (fun s s' h => congrArg (· >>= f) (same s s' h)) ih

theorem only_each {f : ι → σ → α} (hf : ∀ x s s', v s = v s' → f x s = f x s') (is : List ι) :
    Only v (each f is) := by
  induction is with
  | nil => exact .done []
  | cons x is ih => exact (only_query (hf x)).bind fun a => ih.bind fun as => .done (a :: as)

theorem Only.atOnce_eq (hp : Only v p) (h : v s = v s') : p.atOnce s = p.atOnce s' := by
  induction hp with
  | done a => rfl
  | @read next same _ ih =>
    change (next s).atOnce s = (next s').atOnce s'
    rw [← same s s' h]
    exact ih s

theorem ensures_of_only (hp : Only v p) (hrely : ∀ j t t', rely j t t' → v t' = v t)
    (h : ∀ j t, v t = v s → Q j t (p.atOnce s)) : Ensures rely Q i p s := by
  induction hp generalizing i s with
  | done a => exact fun t ht => h i t (hrely i s t ht)
  | @read next same rest ih =>
    intro t ht
    have hv := hrely i s t ht
    refine ih t fun j u hu => ?_
    have hsame : (next t).atOnce t = (next s).atOnce s := by
      rw [same t s hv]
      exact (rest s).atOnce_eq hv
    rw [hsame]
    exact h j u (hu.trans hv)

end Statements

inductive Action (ε : Type) where
  | commit (e : ε)
  | read

structure Reading (σ α : Type) where
  store : σ
  left : Statements σ α
  /-- How many reads it has made. -/
  reads : Nat := 0

namespace Reading

variable {σ α ε : Type}

def step (apply : σ → ε → σ) (r : Reading σ α) : Action ε → Reading σ α
  | .commit e => { r with store := apply r.store e }
  | .read =>
    match r.left with
    | .done _ => r
    | .read next => { r with left := next r.store, reads := r.reads + 1 }

def result (r : Reading σ α) : Option α :=
  match r.left with
  | .done a => some a
  | .read _ => none

variable {apply : σ → ε → σ} {rely : Nat → σ → σ → Prop} {Q : Nat → σ → α → Prop}

theorem ensures_run (hrefl : ∀ j t, rely j t t)
    (htrans : ∀ j t₁ t₂ t₃, rely j t₁ t₂ → rely j t₂ t₃ → rely j t₁ t₃) (r : Reading σ α)
    (acts : List (Action ε))
    (hacts : Along (step apply) (fun (r : Reading σ α) act =>
      ∀ e, act = .commit e → rely r.reads r.store (apply r.store e)) r acts)
    (h : Statements.Ensures rely Q r.reads r.left r.store) :
    Statements.Ensures rely Q (run (step apply) r acts).reads (run (step apply) r acts).left
      (run (step apply) r acts).store := by
  refine run_inv_along (fun r => Statements.Ensures rely Q r.reads r.left r.store)
    (fun r act hr hact => ?_) r acts h hacts
  cases act with
  | commit e => exact hr.later (htrans r.reads) (hact e rfl)
  | read =>
    simp only [step]
    cases hleft : r.left with
    | done a =>
      rw [hleft] at hr
      simpa only [hleft] using hr
    | read next =>
      rw [hleft] at hr
      exact hr.next (hrefl _ _)

theorem result_run (hrefl : ∀ j t, rely j t t)
    (htrans : ∀ j t₁ t₂ t₃, rely j t₁ t₂ → rely j t₂ t₃ → rely j t₁ t₃) {r : Reading σ α}
    {acts : List (Action ε)}
    (hacts : Along (step apply) (fun (r : Reading σ α) act =>
      ∀ e, act = .commit e → rely r.reads r.store (apply r.store e)) r acts)
    (h : Statements.Ensures rely Q r.reads r.left r.store) {a : α}
    (ha : (run (step apply) r acts).result = some a) :
    Q (run (step apply) r acts).reads (run (step apply) r acts).store a := by
  have hend := ensures_run hrefl htrans r acts hacts h
  unfold result at ha
  split at ha
  · rename_i a' hleft
    rw [hleft] at hend
    cases ha
    exact hend.result (hrefl _ _)
  · cases ha

end Reading

end Meshp.Base
