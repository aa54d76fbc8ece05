import Meshp.Ipam.Allocator
import Meshp.Netip.Range

/-!
# What the Sweep Finds

From a cursor inside a prefix, stepping with `next` visits every address of the
prefix once and is back at the cursor after as many steps as there are addresses.
So the first address the sweep stops at is the nearest free one ahead of the
cursor, a sweep that stops nowhere has seen them all, and it met a quarantined one
exactly when there is one.
-/

namespace Meshp.Ipam

open Base (run run_inv refuseIf_bind_eq_ok bind_eq_ok)
open Netip (Addr Prefix)

namespace Allocator

def Cooling (a : Allocator) (now : Time) (x : Addr) : Prop :=
  ∃ t, (x, t) ∈ a.quarantined ∧ now < t

def Open (a : Allocator) (x : Addr) : Prop :=
  a.pool.contains x = true ∧ x ∉ a.reserved ∧ x ∉ a.allocated.map Prod.fst

def Free (a : Allocator) (now : Time) (x : Addr) : Prop :=
  a.Open x ∧ ¬a.Cooling now x

def ahead (a : Allocator) (x : Addr) : Nat :=
  (x.toNat + a.pool.size - a.cursor.toNat) % a.pool.size

/-- What every allocator keeps: its prefix is masked, it knows how many addresses that has, and its
cursor is one of them. -/
structure Fitted (a : Allocator) : Prop where
  masked : a.pool.masked = a.pool
  size : a.size = countAddrs (a.pool.addr.bitLen - a.pool.bits)
  cursor : a.pool.contains a.cursor = true

end Allocator

section Walk

variable {p : Prefix}

theorem toNat_lastAddr (hp : p.masked = p) :
    (lastAddr p).toNat = p.addr.toNat + (p.size - 1) ∧ (lastAddr p).is4 = p.addr.is4 := by
  have hbase : p.addr.toNat = p.addr.toNat / p.size * p.size := by
    rw [← Prefix.toNat_masked, hp]
  rcases p with ⟨a, bits, hvalid⟩
  cases a with
  | v4 a | v6 a =>
    refine ⟨?_, rfl⟩
    rw [hbase]
    exact Addr.toNat_fill a hvalid

end Walk

namespace Allocator

section Next

variable {a : Allocator}

theorem next_spec (hp : a.pool.masked = a.pool) {x : Addr} (hx : a.pool.contains x = true) :
    (a.next x).is4 = a.pool.addr.is4 ∧
      (a.next x).toNat = a.pool.addr.toNat + (x.toNat - a.pool.addr.toNat + 1) % a.pool.size := by
  rcases (Prefix.contains_iff_range hp).1 hx with ⟨hfam, hlo, hhi⟩
  rcases toNat_lastAddr hp with ⟨hlast, hlastFam⟩
  have hpos := a.pool.size_pos
  unfold next
  by_cases hlt : x.toNat < (lastAddr a.pool).toNat
  · have hroom : x.toNat + 1 < 2 ^ x.bitLen := by
      have := (lastAddr a.pool).toNat_lt
      rw [Addr.bitLen_eq_of_is4 (hlastFam.trans hfam)] at this
      omega
    rcases Option.isSome_iff_exists.1 (Addr.next_isSome hroom) with ⟨y, hy⟩
    rcases Addr.next_eq hy with ⟨hval, hlen⟩
    rw [if_pos ((Addr.compare_eq_lt (hfam.symm.trans hlastFam.symm)).2 hlt), hy, Option.getD_some]
    refine ⟨(Addr.is4_eq_of_bitLen hlen).trans hfam.symm, ?_⟩
    rw [Nat.mod_eq_of_lt (by omega), hval]
    omega
  · -- At the last address the next one is the first.
    rw [if_neg fun h => hlt ((Addr.compare_eq_lt (hfam.symm.trans hlastFam.symm)).1 h)]
    have hend : x.toNat - a.pool.addr.toNat + 1 = a.pool.size := by omega
    rw [hend, Nat.mod_self]
    exact ⟨rfl, rfl⟩

theorem next_iterate (hp : a.pool.masked = a.pool) {x : Addr} (hx : a.pool.contains x = true)
    (k : Nat) : a.pool.contains (a.next^[k] x) = true ∧ (a.next^[k] x).toNat =
      a.pool.addr.toNat + (x.toNat - a.pool.addr.toNat + k) % a.pool.size := by
  induction k with
  | zero =>
    rcases (Prefix.contains_iff_range hp).1 hx with ⟨_, hlo, hhi⟩
    refine ⟨hx, ?_⟩
    rw [Function.iterate_zero, id_eq, Nat.add_zero, Nat.mod_eq_of_lt (by omega)]
    omega
  | succ k ih =>
    rcases next_spec hp ih.1 with ⟨hfam, hval⟩
    have hlt := Nat.mod_lt (x.toNat - a.pool.addr.toNat + (k + 1)) a.pool.size_pos
    have hstep : (a.next^[k + 1] x).toNat =
        a.pool.addr.toNat + (x.toNat - a.pool.addr.toNat + (k + 1)) % a.pool.size := by
      rw [Function.iterate_succ_apply', hval, ih.2, Nat.add_sub_cancel_left, Nat.mod_add_mod,
        Nat.add_assoc]
    refine ⟨(Prefix.contains_iff_range hp).2 ⟨?_, ?_, ?_⟩, hstep⟩
    · rw [Function.iterate_succ_apply', hfam]
    · omega
    · omega

variable (h : a.Fitted)

include h

theorem ahead_iterate {k : Nat} (hk : k < a.pool.size) : a.ahead (a.next^[k] a.cursor) = k := by
  rcases (Prefix.contains_iff_range h.masked).1 h.cursor with ⟨_, hlo, hhi⟩
  have hval := (next_iterate h.masked h.cursor k).2
  have hmod : (a.cursor.toNat - a.pool.addr.toNat + k) % a.pool.size +
      (a.pool.size - (a.cursor.toNat - a.pool.addr.toNat)) =
        (a.next^[k] a.cursor).toNat + a.pool.size - a.cursor.toNat := by
    omega
  have hsum : a.cursor.toNat - a.pool.addr.toNat + k +
      (a.pool.size - (a.cursor.toNat - a.pool.addr.toNat)) = k + a.pool.size := by
    omega
  rw [ahead, ← hmod, Nat.mod_add_mod, hsum, Nat.add_mod_right, Nat.mod_eq_of_lt hk]

theorem next_walk {x : Addr} (hx : a.pool.contains x = true) :
    a.ahead x < a.pool.size ∧ a.next^[a.ahead x] a.cursor = x := by
  rcases (Prefix.contains_iff_range h.masked).1 h.cursor with ⟨_, hlo, hhi⟩
  rcases (Prefix.contains_iff_range h.masked).1 hx with ⟨hfam, hxlo, hxhi⟩
  rcases next_iterate h.masked h.cursor (a.ahead x) with ⟨hin, hval⟩
  refine ⟨Nat.mod_lt _ a.pool.size_pos, Addr.ext_toNat ?_ ?_⟩
  · exact ((Prefix.contains_iff_range h.masked).1 hin).1.symm.trans hfam
  · have hsum : a.cursor.toNat - a.pool.addr.toNat + (x.toNat + a.pool.size - a.cursor.toNat) =
        x.toNat - a.pool.addr.toNat + a.pool.size := by
      omega
    rw [hval, ahead, Nat.add_mod_mod, hsum, Nat.add_mod_right, Nat.mod_eq_of_lt (by omega)]
    omega

end Next

inductive Swept (a : Allocator) (now : Time) (steps : Nat) (x : Addr) (saw : Bool) :
    Except Failure Addr → Prop
  | found (k : Nat) (within : k < steps) (free : a.Free now (a.next^[k] x))
      (first : ∀ j < k, ¬a.Free now (a.next^[j] x)) : Swept a now steps x saw (.ok (a.next^[k] x))
  | cooling (none : ∀ j < steps, ¬a.Free now (a.next^[j] x))
      (met : saw = true ∨ ∃ j < steps, a.Open (a.next^[j] x)) :
      Swept a now steps x saw (.error .allQuarantined)
  | full (unseen : saw = false) (none : ∀ j < steps, ¬a.Open (a.next^[j] x)) :
      Swept a now steps x saw (.error .exhausted)

section Sweep

variable {a : Allocator} {now : Time}

theorem cooling_iff {x : Addr} :
    (a.quarantined.any fun e => e.1 = x && now < e.2) = true ↔ a.Cooling now x := by
  simp only [List.any_eq_true, Bool.and_eq_true, decide_eq_true_eq, Prod.exists, Cooling]
  constructor
  · rintro ⟨_, t, hmem, rfl, ht⟩
    exact ⟨t, hmem, ht⟩
  · rintro ⟨t, hmem, ht⟩
    exact ⟨x, t, hmem, rfl, ht⟩

theorem Swept.skip {steps : Nat} {x : Addr} {saw saw' : Bool} {r : Except Failure Addr}
    (hx : ¬a.Free now x) (hsaw : saw' = true ↔ saw = true ∨ a.Open x)
    (h : Swept a now steps (a.next x) saw' r) : Swept a now (steps + 1) x saw r := by
  -- The address `j + 1` steps on is `j` steps on from the next one.
  have hcons : ∀ {P : Addr → Prop} {n : Nat}, P x → (∀ j < n, P (a.next^[j] (a.next x))) →
      ∀ j < n + 1, P (a.next^[j] x) := by
    intro P n h0 hn j hj
    cases j with
    | zero => exact h0
    | succ j => exact hn j (Nat.lt_of_succ_lt_succ hj)
  cases h with
  | found k within free first =>
    exact .found (k + 1) (Nat.succ_lt_succ within) free
      (hcons (P := fun y => ¬a.Free now y) hx first)
  | cooling none met =>
    refine .cooling (hcons (P := fun y => ¬a.Free now y) hx none) ?_
    rcases met with hmet | ⟨j, hj, hopen⟩
    · rcases hsaw.1 hmet with hs | hopen
      · exact .inl hs
      · exact .inr ⟨0, Nat.succ_pos steps, hopen⟩
    · exact .inr ⟨j + 1, Nat.succ_lt_succ hj, hopen⟩
  | full unseen none =>
    have hunseen : ¬(saw = true ∨ a.Open x) := fun h => by
      rw [hsaw.2 h] at unseen
      cases unseen
    rw [not_or, Bool.not_eq_true] at hunseen
    exact .full hunseen.1 (hcons (P := fun y => ¬a.Open y) hunseen.2 none)

theorem sweep_spec (hp : a.pool.masked = a.pool) (steps : Nat) {x : Addr}
    (hx : a.pool.contains x = true) (saw : Bool) :
    Swept a now steps x saw (a.sweep now steps x saw) := by
  induction steps generalizing x saw with
  | zero =>
    unfold sweep
    cases saw with
    | true => exact .cooling (fun j hj => absurd hj (Nat.not_lt_zero j)) (.inl rfl)
    | false => exact .full rfl fun j hj => absurd hj (Nat.not_lt_zero j)
  | succ steps ih =>
    have hnext : a.pool.contains (a.next x) = true := (next_iterate hp hx 1).1
    unfold sweep
    by_cases htaken : a.reserved.contains x || (a.allocated.map Prod.fst).contains x
    · have hclosed : ¬a.Open x := by
        rintro ⟨_, hres, halloc⟩
        simp [hres, halloc] at htaken
      rw [if_pos htaken]
      exact (ih hnext saw).skip (fun hfree => hclosed hfree.1) (by simp [hclosed])
    · have hopen : a.Open x := by
        simp only [Bool.or_eq_true, not_or, List.contains_iff_mem] at htaken
        exact ⟨hx, htaken⟩
      rw [if_neg htaken]
      by_cases hcool : (a.quarantined.any fun e => e.1 = x && now < e.2) = true
      · rw [if_pos hcool]
        exact (ih hnext true).skip (fun hfree => hfree.2 (cooling_iff.1 hcool)) (by simp [hopen])
      · rw [if_neg hcool]
        exact .found 0 (Nat.succ_pos steps) ⟨hopen, fun h => hcool (cooling_iff.2 h)⟩
          fun j hj => absurd hj (Nat.not_lt_zero j)

theorem allocate_swept (h : a.Fitted) (now : Time) :
    Swept a now (a.size.getD (2 ^ 20)) a.cursor false (a.allocate now) :=
  sweep_spec h.masked _ h.cursor false

theorem reclaim_fitted (h : a.Fitted) (now : Time) : (a.reclaim now).Fitted :=
  { h with }

end Sweep

end Allocator

inductive Op
  | allocate (holder : String)
  | allocateSpecific (addr : Addr) (holder : String)
  | release (addr : Addr)
  | reclaim
  | restore (entries : List Entry)

def step (a : Allocator) : Time × Op → Allocator
  | (now, .allocate holder) => (a.allocateFor now holder).2
  | (now, .allocateSpecific addr holder) => (a.allocateSpecific now addr holder).2
  | (now, .release addr) => (a.release now addr).2
  | (now, .reclaim) => a.reclaim now
  | (now, .restore entries) => (a.restore now entries).toOption.getD a

def Reachable (cfg : Config) (a : Allocator) : Prop :=
  ∃ a₀ ops, new cfg = .ok a₀ ∧ a = run step a₀ ops

namespace Allocator

variable {x : Addr} {a : Allocator}

theorem highest_mem {xs : List Addr} (h : highest xs = some x) : x ∈ xs := by
  -- A step keeps the highest so far or takes the address it is at.
  have hfold : ∀ f : Option Addr → Addr → Option Addr, (∀ acc a, f acc a = some a ∨ f acc a = acc) →
      ∀ (ys : List Addr) (acc : Option Addr), ys.foldl f acc = some x → acc = some x ∨ x ∈ ys := by
    intro f hf ys
    induction ys with
    | nil => exact fun acc h => .inl h
    | cons y ys ih =>
      intro acc h
      rcases ih _ h with hacc | hmem
      · rcases hf acc y with hy | hkept
        · cases hy.symm.trans hacc
          exact .inr (.head _)
        · exact .inl (hkept.symm.trans hacc)
      · exact .inr (.tail _ hmem)
  refine (hfold _ (fun acc a => ?_) xs none h).resolve_left (by simp)
  cases acc with
  | none => exact .inl rfl
  | some b =>
    dsimp only
    split
    · exact .inl rfl
    · exact .inr rfl

theorem new_fitted {cfg : Config} (h : new cfg = .ok a) : a.Fitted := by
  simp only [new] at h
  rcases bind_eq_ok.1 h with ⟨_, _, h⟩
  rcases refuseIf_bind_eq_ok.1 h with ⟨_, h⟩
  cases h
  exact ⟨Prefix.masked_masked _, rfl, Prefix.contains_self _⟩

theorem step_fitted (h : a.Fitted) (e : Time × Op) : (step a e).Fitted := by
  have hnext : ∀ {x : Addr}, a.pool.contains x = true → a.pool.contains (a.next x) = true :=
    fun hx => (next_iterate h.masked hx 1).1
  rcases e with ⟨now, op⟩
  cases op with
  | allocate holder =>
    simp only [step, allocateFor]
    cases hs : (a.reclaim now).allocate now with
    | error e => exact reclaim_fitted h now
    | ok x =>
      have hswept := allocate_swept (reclaim_fitted h now) now
      rw [hs] at hswept
      cases hswept with
      | found k _ _ _ =>
        exact ⟨h.masked, h.size, hnext (next_iterate h.masked h.cursor k).1⟩
  | allocateSpecific addr holder =>
    simp only [step, allocateSpecific]
    repeat' split
    all_goals exact { h with }
  | release addr =>
    simp only [step, release]
    split
    all_goals exact { h with }
  | reclaim => exact reclaim_fitted h now
  | restore entries =>
    simp only [step]
    cases hr : a.restore now entries with
    | error e => exact h
    | ok a' =>
      rcases restore_eq.1 hr with ⟨hin, rfl⟩
      refine ⟨h.masked, h.size, ?_⟩
      change a.pool.contains (a.resume (live entries)) = true
      unfold resume
      split
      · exact Prefix.contains_self _
      · rename_i x hx
        rcases List.mem_map.1 (highest_mem hx) with ⟨⟨y, holder⟩, hmem, rfl⟩
        rcases mem_live hmem with ⟨e, he, rfl, _⟩
        exact hnext (hin e he)

theorem reachable_fitted {cfg : Config} (h : Reachable cfg a) : a.Fitted := by
  rcases h with ⟨a₀, ops, hnew, rfl⟩
  exact run_inv Fitted (fun _ e h => step_fitted h e) a₀ ops (new_fitted hnew)

theorem cooling_reclaim {now : Time} : (a.reclaim now).Cooling now x ↔ a.Cooling now x := by
  simp [Cooling, reclaim]

theorem free_reclaim {now : Time} : (a.reclaim now).Free now x ↔ a.Free now x :=
  and_congr_right fun _ => not_congr cooling_reclaim

theorem size_eq (h : a.Fitted) {n : Nat} (hn : a.size = some n) : n = a.pool.size := by
  rw [h.size, countAddrs] at hn
  split at hn
  · cases hn
  · exact (Option.some.inj hn).symm

theorem forall_of_round (h : a.Fitted) {P : Addr → Prop}
    (hround : ∀ j < a.pool.size, ¬P (a.next^[j] a.cursor)) (hx : a.pool.contains x = true) :
    ¬P x := by
  rcases next_walk h hx with ⟨hlt, hwalk⟩
  rw [← hwalk]
  exact hround _ hlt

/-- What `allocate` comes to when the addresses can be counted. -/
inductive Allocated (a : Allocator) (now : Time) : Except Failure Addr → Prop
  | first (x : Addr) (free : a.Free now x) (nearest : ∀ y, a.Free now y → a.ahead x ≤ a.ahead y) :
      Allocated a now (.ok x)
  | cooling (none : ∀ x, ¬a.Free now x) (x : Addr) (isOpen : a.Open x) (cooling : a.Cooling now x) :
      Allocated a now (.error .allQuarantined)
  | full (none : ∀ x, ¬a.Open x) : Allocated a now (.error .exhausted)

theorem allocate_allocated (h : a.Fitted) {n : Nat} (hn : a.size = some n) (now : Time) :
    Allocated a now (a.allocate now) := by
  have hswept := allocate_swept h now
  rw [hn, Option.getD_some, size_eq h hn] at hswept
  have hnone : (∀ j < a.pool.size, ¬a.Free now (a.next^[j] a.cursor)) → ∀ x, ¬a.Free now x :=
    fun hround x hx => forall_of_round h hround hx.1.1 hx
  generalize a.allocate now = r at hswept
  cases hswept with
  | found k within free first =>
    refine .first _ free fun y hy => ?_
    rcases next_walk h hy.1.1 with ⟨_, hwalk⟩
    rw [ahead_iterate h within]
    -- Anything nearer would have been found first.
    by_contra hlt
    refine first (a.ahead y) (Nat.lt_of_not_le hlt) ?_
    rw [hwalk]
    exact hy
  | cooling none met =>
    rcases met.resolve_left nofun with ⟨j, hj, hopen⟩
    refine .cooling (hnone none) _ hopen ?_
    by_contra hcool
    exact none j hj ⟨hopen, hcool⟩
  | full _ none => exact .full fun x hx => forall_of_round h none hx.1 hx

/-- `Allocate` on a pool whose addresses can be counted: it returns the nearest free address ahead
of the cursor, refuses exactly when there is none, says that everything is cooling down exactly when
something would be free but for that, and a refusal leaves every allocation as it was. -/
theorem allocateFor_first_free {cfg : Config} {a : Allocator} (h : Reachable cfg a) {n : Nat}
    (hn : a.size = some n) (now : Time) (holder : String) :
    (∀ x, (a.allocateFor now holder).1 = .ok x →
        a.Free now x ∧ ∀ y, a.Free now y → a.ahead x ≤ a.ahead y) ∧
      ((∃ e, (a.allocateFor now holder).1 = .error e) ↔ ∀ x, ¬a.Free now x) ∧
      ((a.allocateFor now holder).1 = .error .allQuarantined ↔
        (∀ x, ¬a.Free now x) ∧ ∃ x, a.Open x ∧ a.Cooling now x) ∧
      (∀ e, (a.allocateFor now holder).1 = .error e →
        (a.allocateFor now holder).2.allocated = a.allocated) := by
  have hfitted := reclaim_fitted (reachable_fitted h) now
  have halloc := allocate_allocated hfitted hn now
  have hnone : (∀ x, ¬(a.reclaim now).Free now x) ↔ ∀ x, ¬a.Free now x :=
    forall_congr' fun x => not_congr free_reclaim
  simp only [allocateFor]
  generalize (a.reclaim now).allocate now = r at halloc
  cases halloc with
  | first x free nearest =>
    refine ⟨?_, ?_, ?_, nofun⟩
    · rintro _ ⟨⟩
      exact ⟨free_reclaim.1 free, fun y hy => nearest y (free_reclaim.2 hy)⟩
    · refine ⟨nofun, fun hfull => (hfull x (free_reclaim.1 free)).elim⟩
    · refine ⟨nofun, fun hfull => (hfull.1 x (free_reclaim.1 free)).elim⟩
  | cooling none x isOpen cooling =>
    refine ⟨nofun, ⟨fun _ => hnone.1 none, fun _ => ⟨_, rfl⟩⟩, ?_, fun _ _ => rfl⟩
    exact ⟨fun _ => ⟨hnone.1 none, x, isOpen, cooling_reclaim.1 cooling⟩, fun _ => rfl⟩
  | full none =>
    have hfree : ∀ x, ¬a.Free now x := fun x hx => none x hx.1
    refine ⟨nofun, ⟨fun _ => hfree, fun _ => ⟨_, rfl⟩⟩, ⟨nofun, ?_⟩, fun _ _ => rfl⟩
    rintro ⟨_, x, isOpen, _⟩
    exact (none x isOpen).elim

def fourAddresses : Config where
  pool := ⟨.v4 0x0a000000, 30, by decide⟩

def freshFour : Allocator where
  pool := ⟨.v4 0x0a000000, 30, by decide⟩
  quarantine := defaultQuarantine
  size := some 4
  reserved := [.v4 0x0a000000, .v4 0x0a000003]
  cursor := .v4 0x0a000000

theorem allocateFor_first_free_four :
    let a := run step freshFour [(0, .allocate "laptop"), (5, .release (.v4 0x0a000001))]
    Reachable fourAddresses a ∧ a.size = some 4 ∧
      ((∀ x, (a.allocateFor 6 "phone").1 = .ok x →
          a.Free 6 x ∧ ∀ y, a.Free 6 y → a.ahead x ≤ a.ahead y) ∧
        ((∃ e, (a.allocateFor 6 "phone").1 = .error e) ↔ ∀ x, ¬a.Free 6 x) ∧
        ((a.allocateFor 6 "phone").1 = .error .allQuarantined ↔
          (∀ x, ¬a.Free 6 x) ∧ ∃ x, a.Open x ∧ a.Cooling 6 x) ∧
        (∀ e, (a.allocateFor 6 "phone").1 = .error e →
          (a.allocateFor 6 "phone").2.allocated = a.allocated)) := by
  intro a
  have hreach : Reachable fourAddresses a := ⟨freshFour, _, by decide +kernel, rfl⟩
  have hsize : a.size = some 4 := by decide +kernel
  exact ⟨hreach, hsize, allocateFor_first_free hreach hsize 6 "phone"⟩

end Allocator

end Meshp.Ipam
