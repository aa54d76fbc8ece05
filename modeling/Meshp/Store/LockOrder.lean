import Meshp.Store.History

/-!
# The Order of Version Locks

Raising a network's version updates its row, and the row stays locked until the
transaction ends. A change to routes raises the version of its own network first
and then that of every network sharing a device with it, in whatever order the
database lists them. Two networks that share a device are therefore locked in
opposite orders by a change in each, and one of the two is aborted.
-/

namespace Meshp.Store.LockOrder

open Base (Along run run_inv_along)
open Relation (TransGen)

/-- `BumpNetworkStateVersion` of a network, or a read of the networks to bump after it. -/
inductive Op
  | bump (n : Id)
  | shared (n : Id)
  | others (device n : Id)
  deriving DecidableEq

/-- `NetworksSharingADeviceWith` and `OtherNetworksForDevice`. -/
def Op.reads (t : Tables) : Op → Option (List Id)
  | .bump _ => none
  | .shared n => some (networksSharingADeviceWith t n)
  | .others device n => some (otherNetworksForDevice t device n)

inductive Mutation
  | redeem (device n : Id)
  /-- Creating, advertising, withdrawing, failing over or deleting a route group. -/
  | routes (n : Id)
  | forget (device : Id)

def announce (t : Tables) (x : Membership) : List Op :=
  (match currentKey t x.id with
    | some key => if key ≠ "" then [.bump x.networkId] else []
    | none => []) ++
  if advertises t x.id then [.bump x.networkId, .shared x.networkId] else []

def program (t : Tables) : Mutation → List Op
  | .redeem device n => [.bump n, .others device n]
  | .routes n => [.bump n, .shared n]
  | .forget device => (t.memberships.filter (·.deviceId = device)).flatMap (announce t)

structure Txn where
  taken : List Id := []
  todo : List Op := []
  deriving DecidableEq

def Txn.pending (t : Txn) : List Id :=
  t.todo.filterMap fun
    | .bump n => some n
    | _ => none

def Txn.rows (t : Txn) : List Id :=
  t.taken ++ t.pending

structure World (τ : Type) where
  tables : Tables := {}
  txns : τ → Txn := fun _ => {}

section Circle

variable {τ : Type}

/-- Some transaction has locked row `a` and is still to lock row `b`. -/
def Before (w : World τ) (a b : Id) : Prop :=
  ∃ i, a ∈ (w.txns i).taken ∧ b ∈ (w.txns i).pending ∧ b ∉ (w.txns i).taken

def Waits (w : World τ) (i j : τ) : Prop :=
  ∃ n todo, (w.txns i).todo = .bump n :: todo ∧ n ∉ (w.txns i).taken ∧ n ∈ (w.txns j).taken

def Txn.Several (t : Txn) : Prop :=
  ∃ a ∈ t.rows, ∃ b ∈ t.rows, a ≠ b

def Room (w : World τ) (i : τ) (t : Txn) : Prop :=
  t.Several → ∀ j, j ≠ i → (w.txns j).Several → ∀ n ∈ t.rows, n ∉ (w.txns j).rows

def Clear (w : World τ) : Prop :=
  ∀ i, Room w i (w.txns i)

variable {w : World τ} {i : τ} {t : Txn}

theorem room_of_rows (hw : Clear w) (h : ∀ n ∈ t.rows, n ∈ (w.txns i).rows) : Room w i t := by
  rintro ⟨a, ha, b, hb, hab⟩ j hj hseveral n hn
  exact hw i ⟨a, h a ha, b, h b hb, hab⟩ j hj hseveral n (h n hn)

theorem several_of_before {a b : Id} (ha : a ∈ t.taken) (hb : b ∈ t.pending) (hnot : b ∉ t.taken) :
    t.Several :=
  ⟨a, List.mem_append_left _ ha, b, List.mem_append_right _ hb, fun hab => hnot (hab ▸ ha)⟩

theorem not_taken (hw : Clear w) {j : τ} {n : Id} (hi : (w.txns i).Several)
    (hj : (w.txns j).Several) (hn : n ∈ (w.txns i).pending) (hnot : n ∉ (w.txns i).taken) :
    n ∉ (w.txns j).taken := by
  intro hmem
  by_cases hij : j = i
  · exact hnot (hij ▸ hmem)
  · exact hw i hi j hij hj n (List.mem_append_right _ hn) (List.mem_append_left _ hmem)

end Circle

inductive Move (τ : Type)
  | begin (i : τ) (mutation : Mutation)
  | bump (i : τ)
  /-- The next read answers with these networks, in this order. -/
  | read (i : τ) (ns : List Id)
  | commit (i : τ) (tables : Tables)
  | abort (i : τ)

variable {τ : Type} [DecidableEq τ] [Fintype τ]

def Locked (w : World τ) (i : τ) (n : Id) : Prop :=
  ∃ j, j ≠ i ∧ n ∈ (w.txns j).taken

instance (w : World τ) (i : τ) (n : Id) : Decidable (Locked w i n) :=
  inferInstanceAs (Decidable (∃ _, _))

def World.put (w : World τ) (i : τ) (t : Txn) : World τ :=
  { w with txns := Function.update w.txns i t }

def step (w : World τ) : Move τ → World τ
  | .begin i mutation =>
    match w.txns i with
    | ⟨[], []⟩ => w.put i ⟨[], program w.tables mutation⟩
    | _ => w
  | .bump i =>
    match w.txns i with
    | ⟨taken, .bump n :: todo⟩ =>
      if Locked w i n then w
      else w.put i ⟨if n ∈ taken then taken else taken ++ [n], todo⟩
    | _ => w
  | .read i ns =>
    match w.txns i with
    | ⟨taken, op :: todo⟩ =>
      if ∃ rows ∈ op.reads w.tables, ns.Perm rows then w.put i ⟨taken, ns.map .bump ++ todo⟩
      else w
    | _ => w
  | .commit i tables =>
    match w.txns i with
    | ⟨_, []⟩ => { w.put i {} with tables }
    | _ => w
  | .abort i => w.put i {}

instance (t : Txn) : Decidable t.Several :=
  inferInstanceAs (Decidable (∃ a ∈ t.rows, _))

instance (w : World τ) (i : τ) (t : Txn) : Decidable (Room w i t) :=
  inferInstanceAs (Decidable (_ → _))

def Spaced (w : World τ) : Move τ → Prop
  | .begin i mutation => Room w i ⟨[], program w.tables mutation⟩
  | .read i ns => Room w i ⟨(w.txns i).taken, ns.map .bump ++ (w.txns i).todo.tail⟩
  | _ => True

instance (w : World τ) : ∀ a, Decidable (Spaced w a)
  | .begin _ _ | .read _ _ => inferInstanceAs (Decidable (Room _ _ _))
  | .bump _ | .commit _ _ | .abort _ => inferInstanceAs (Decidable True)

variable {w : World τ} {i : τ} {t : Txn}

omit [Fintype τ] in
theorem clear_put (hw : Clear w) (ht : Room w i t) : Clear (w.put i t) := by
  intro j hj k hk hseveral n hn
  simp only [World.put] at hj hseveral hn ⊢
  by_cases hji : j = i
  · subst hji
    rw [Function.update_self] at hj hn
    rw [Function.update_of_ne hk] at hseveral ⊢
    exact ht hj k hk hseveral n hn
  rw [Function.update_of_ne hji] at hj hn
  by_cases hki : k = i
  · subst hki
    rw [Function.update_self] at hseveral ⊢
    exact fun hmem => ht hseveral j hji hj n hmem hn
  · rw [Function.update_of_ne hki] at hseveral ⊢
    exact hw j hj k hk hseveral n hn

theorem clear_step (hw : Clear w) (a : Move τ) (ha : Spaced w a) : Clear (step w a) := by
  have hidle : ∀ i, Clear (w.put i {}) := fun i => clear_put hw (room_of_rows hw nofun)
  cases a with
  | begin i mutation =>
    simp only [step]
    split
    · exact clear_put hw ha
    · exact hw
  | bump i =>
    simp only [step]
    split
    · rename_i taken n todo hi
      split
      · exact hw
      refine clear_put hw (room_of_rows hw fun m hm => ?_)
      rw [hi]
      rcases List.mem_append.1 hm with hm | hm
      · have hm : m ∈ taken ∨ m = n := by
          split at hm
          · exact .inl hm
          · simpa using hm
        rcases hm with hm | rfl
        · exact List.mem_append_left _ hm
        · exact List.mem_append_right _ (.head _)
      · exact List.mem_append_right _ (List.mem_cons_of_mem n hm)
    · exact hw
  | read i ns =>
    simp only [step]
    split
    · rename_i taken op todo hi
      split
      · simp only [Spaced, hi] at ha
        exact clear_put hw ha
      · exact hw
    · exact hw
  | commit i tables =>
    simp only [step]
    split
    · exact hidle i
    · exact hw
  | abort i => exact hidle i

/-- On any number of connections and over any tables, transactions that are kept apart order the
version rows in no circle, and never wait for each other in one. -/
theorem lock_order_acyclic (tables : Tables) (moves : List (Move τ))
    (h : Along step Spaced { tables } moves) :
    let w := run step { tables } moves
    (∀ n, ¬TransGen (Before w) n n) ∧ ∀ i, ¬TransGen (Waits w) i i := by
  intro w
  have hw : Clear w := run_inv_along Clear (fun _ a hw ha => clear_step hw a ha) { tables } moves
    (fun i ⟨_, ha, _⟩ => nomatch ha) h
  constructor
  · intro n hcycle
    obtain ⟨m, ⟨i, hn, hm, hnot⟩, hrest⟩ := Relation.TransGen.head'_iff.1 hcycle
    rcases hrest.cases_head with rfl | ⟨k, ⟨j, hm', hk, hnot'⟩, -⟩
    · exact hnot hn
    · exact not_taken hw (several_of_before hn hm hnot) (several_of_before hm' hk hnot') hm hnot hm'
  · -- Each of a circle holds what the one before it waits for.
    intro i hcycle
    obtain ⟨j, ⟨n, todo, hi, hnot, hn⟩, hrest⟩ := Relation.TransGen.head'_iff.1 hcycle
    obtain ⟨k, -, m, -, -, -, hm⟩ := Relation.TransGen.tail'_iff.1 hcycle
    have hpending : ∀ {i n todo}, (w.txns i).todo = .bump n :: todo → n ∈ (w.txns i).pending := by
      intro i n todo hi
      simp [Txn.pending, hi]
    rcases hrest.cases_head with rfl | ⟨k, ⟨m', todo', hj, hnot', -⟩, -⟩
    · exact hnot hn
    · exact not_taken hw (several_of_before hm (hpending hi) hnot)
        (several_of_before hn (hpending hj) hnot') (hpending hi) hnot hn

def sharing : Tables :=
  { memberships := [founder [], { founder [] with id := 7, networkId := 3 }] }

theorem lock_order_acyclic_apart :
    let w := run step { tables := sharing } [.begin 0 (.routes 2), .bump 0, .begin 1 (.redeem 8 3),
      .bump 1, .read 0 [3], .bump 0, .read 1 [], .commit 1 sharing, .bump 0]
    ((w.txns (0 : Fin 2)).taken = [2, 3] ∧ (w.txns 1).taken = []) ∧
      (∀ n, ¬TransGen (Before w) n n) ∧ ∀ i, ¬TransGen (Waits w) i i :=
  ⟨by decide, lock_order_acyclic sharing _ (by decide)⟩

theorem lock_order_circle :
    let w := run step { tables := sharing } [.begin 0 (.routes 2), .begin 1 (.routes 3), .bump 0,
      .bump 1, .read 0 [3], .read (1 : Fin 2) [2], .bump 0, .bump 1]
    TransGen (Before w) 2 2 ∧ TransGen (Waits w) 0 0 := by
  intro w
  have hfirst : w.txns 0 = ⟨[2], [.bump 3]⟩ := by decide
  have hsecond : w.txns 1 = ⟨[3], [.bump 2]⟩ := by decide
  have hbefore : Before w 2 3 ∧ Before w 3 2 :=
    ⟨⟨0, by simp [hfirst, Txn.pending]⟩, ⟨1, by simp [hsecond, Txn.pending]⟩⟩
  have hwaits : Waits w 0 1 ∧ Waits w 1 0 :=
    ⟨⟨3, [], by simp [hfirst, hsecond]⟩, ⟨2, [], by simp [hfirst, hsecond]⟩⟩
  exact ⟨.tail (.single hbefore.1) hbefore.2, .tail (.single hwaits.1) hwaits.2⟩

end Meshp.Store.LockOrder
