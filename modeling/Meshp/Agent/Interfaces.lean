import Meshp.Base.Decimal
import Meshp.Base.Run

/-!
# The Interfaces of One Device

A control plane names the interface of a membership it creates after the number of
memberships it already has for the device, and the agent records the membership
under that name. Everything on the host is keyed by the name, so two memberships
that share one overwrite each other. Nothing makes the names differ: control
planes count apart, two joins can count before either has written, and forgetting
a device starts the count again.
-/

namespace Meshp.Agent.Interfaces

open Base

variable {π : Type} [DecidableEq π]

structure Membership (π : Type) where
  controlPlane : π
  network : Nat
  interfaceName : String

def Membership.key (m : Membership π) : π × Nat :=
  (m.controlPlane, m.network)

inductive Joining (π : Type)
  | counted (controlPlane : π) (network existing : Nat)
  | answered (m : Membership π)

/-- The device's rows at the control planes, its joins, and what its state file records. -/
structure World (π : Type) where
  rows : List (Membership π) := []
  joins : List (Joining π) := []
  memberships : List (Membership π) := []

/-- `CountMembershipsForDevice`: rows in any state. -/
def countMemberships (w : World π) (p : π) : Nat :=
  w.rows.countP (·.controlPlane = p)

/-- `meshp%d`. -/
def interfaceName (existing : Nat) : String :=
  "meshp" ++ toString existing

/-- `CreateMembership`, refused for a network the device has a row of. -/
def createMembership (w : World π) (i : Nat) (p : π) (network existing : Nat) : World π :=
  if w.rows.any (·.key = (p, network)) then { w with joins := w.joins.eraseIdx i }
  else
    let m : Membership π := ⟨p, network, interfaceName existing⟩
    { w with rows := w.rows ++ [m], joins := w.joins.set i (.answered m) }

/-- `AddMembership`: in place of another of the same network. -/
def addMembership (ms : List (Membership π)) (m : Membership π) : List (Membership π) :=
  if ms.any (·.key = m.key) then ms.map fun x => if x.key = m.key then m else x
  else ms ++ [m]

inductive Move (π : Type)
  | join (controlPlane : π) (network : Nat)
  | next (i : Nat)
  | abandon (i : Nat)
  | revoke (controlPlane : π) (network : Nat)
  | forget (controlPlane : π)
  | remove (i : Nat)

def step (w : World π) : Move π → World π
  | .join p network => { w with joins := w.joins ++ [.counted p network (countMemberships w p)] }
  | .next i =>
    match w.joins[i]? with
    | some (.counted p network existing) => createMembership w i p network existing
    | some (.answered m) =>
      { w with joins := w.joins.eraseIdx i, memberships := addMembership w.memberships m }
    | none => w
  -- A refused redemption, or an answer that never reached the agent.
  | .abandon i => { w with joins := w.joins.eraseIdx i }
  -- The row stays, in another state that neither the count nor the name reads.
  | .revoke _ _ => w
  -- `DeleteDevice`, whose rows go with it. Nobody tells the device.
  | .forget p => { w with rows := w.rows.filter (·.controlPlane ≠ p) }
  | .remove i => { w with memberships := w.memberships.eraseIdx i }

def Apart (w : World π) : Move π → Prop
  | .join p _ => w.joins.length = 0 ∧ ∀ m ∈ w.memberships, m.controlPlane = p
  | .forget p => w.joins.length = 0 ∧ ∀ m ∈ w.memberships, m.controlPlane ≠ p
  | _ => True

instance (w : World π) : ∀ a, Decidable (Apart w a)
  | .join _ _ | .forget _ => inferInstanceAs (Decidable (_ ∧ _))
  | .next _ | .abandon _ | .revoke _ _ | .remove _ => inferInstanceAs (Decidable True)

def Fits (w : World π) : Joining π → Prop
  | .counted p _ existing =>
    existing = countMemberships w p ∧ ∀ m ∈ w.memberships, m.controlPlane = p
  | .answered m =>
    m ∈ w.rows ∧ ∀ x ∈ w.memberships, x.key ≠ m.key ∧ x.interfaceName ≠ m.interfaceName

structure Numbered (w : World π) : Prop where
  rows : ∀ m ∈ w.rows, ∃ k < countMemberships w m.controlPlane, m.interfaceName = interfaceName k
  recorded : ∀ m ∈ w.memberships, m ∈ w.rows
  distinct : (w.memberships.map (·.interfaceName)).Nodup
  single : w.joins.length ≤ 1
  joins : ∀ j ∈ w.joins, Fits w j

theorem interfaceName_inj {j k : Nat} (h : interfaceName j = interfaceName k) : j = k := by
  have hdigits : Nat.toDigits 10 j = Nat.toDigits 10 k := by
    simpa [interfaceName, Text.toList_toString] using congrArg String.toList h
  have hnumber := Netip.number_toDigits (by omega) Netip.digit?_digitChar j
  rw [hdigits, Netip.number_toDigits (by omega) Netip.digit?_digitChar k] at hnumber
  exact (Option.some.inj hnumber).symm

theorem eq_singleton {α : Type} {l : List α} {i : Nat} {a : α} (hl : l.length ≤ 1)
    (hi : l[i]? = some a) : i = 0 ∧ l = [a] := by
  match l, i with
  | [_], 0 => exact ⟨rfl, congrArg ([·]) (Option.some.inj hi)⟩

variable {w : World π}

theorem numbered_create {p : π} {network existing : Nat} (hw : Numbered w)
    (hj : w.joins = [.counted p network existing]) :
    Numbered (createMembership w 0 p network existing) := by
  obtain ⟨hexisting, hplane⟩ := hw.joins _ (hj ▸ List.mem_singleton_self _)
  unfold createMembership
  split
  case isTrue => exact { hw with single := by simp [hj], joins := by simp [hj] }
  case isFalse hnew =>
    refine ⟨?_, fun m hm => List.mem_append_left _ (hw.recorded m hm), hw.distinct,
      by simp [hj], ?_⟩
    · intro m hm
      simp only [countMemberships, List.countP_append]
      rcases List.mem_append.1 hm with hm | hm
      · obtain ⟨k, hk, hname⟩ := hw.rows m hm
        exact ⟨k, Nat.lt_add_right _ hk, hname⟩
      · obtain rfl := List.mem_singleton.1 hm
        exact ⟨existing, by simp [hexisting, countMemberships], rfl⟩
    · -- Whatever is recorded is a row of this control plane, numbered below the count.
      simp only [hj, List.set_cons_zero, List.mem_singleton, forall_eq, Fits]
      refine ⟨by simp, fun x hx => ⟨fun hkey => ?_, fun hname => ?_⟩⟩
      · exact hnew (List.any_eq_true.2 ⟨x, hw.recorded x hx, by simpa [Membership.key] using hkey⟩)
      · obtain ⟨k, hk, hx'⟩ := hw.rows x (hw.recorded x hx)
        rw [hplane x hx, ← hexisting] at hk
        have hnumber := interfaceName_inj (hx'.symm.trans hname)
        omega

theorem numbered_record {m : Membership π} (hw : Numbered w) (hj : w.joins = [.answered m]) :
    Numbered { w with joins := [], memberships := addMembership w.memberships m } := by
  obtain ⟨hrow, hother⟩ := hw.joins _ (hj ▸ List.mem_singleton_self _)
  have hadd : addMembership w.memberships m = w.memberships ++ [m] := by
    refine if_neg fun hany => ?_
    obtain ⟨x, hx, hkey⟩ := List.any_eq_true.1 hany
    exact (hother x hx).1 (of_decide_eq_true hkey)
  rw [hadd]
  refine ⟨hw.rows, fun x hx => ?_, ?_, by simp, by simp⟩
  · rcases List.mem_append.1 hx with hx | hx
    · exact hw.recorded x hx
    · exact List.mem_singleton.1 hx ▸ hrow
  · simp only [List.map_append, List.map_cons, List.map_nil, List.nodup_append]
    refine ⟨hw.distinct, List.pairwise_singleton _ _, ?_⟩
    simpa using fun x hx => (hother x hx).2

theorem numbered_forget {p : π} (hw : Numbered w) (hj : w.joins.length = 0)
    (hp : ∀ m ∈ w.memberships, m.controlPlane ≠ p) : Numbered (step w (.forget p)) := by
  have hjoins : w.joins = [] := List.eq_nil_of_length_eq_zero hj
  refine ⟨fun m hm => ?_, fun m hm => ?_, hw.distinct, hw.single, by simp [step, hjoins]⟩
  · obtain ⟨hrow, hne⟩ := List.mem_filter.1 hm
    obtain ⟨k, hk, hname⟩ := hw.rows m hrow
    refine ⟨k, ?_, hname⟩
    -- The rows of the other control planes are counted as before.
    have hcount : countMemberships (step w (.forget p)) m.controlPlane =
        countMemberships w m.controlPlane := by
      simp only [countMemberships, step, List.countP_filter]
      refine List.countP_congr fun x _ => ?_
      have := of_decide_eq_true hne
      grind
    exact hcount ▸ hk
  · exact List.mem_filter.2 ⟨hw.recorded m hm, decide_eq_true (hp m hm)⟩

theorem numbered_step (hw : Numbered w) (a : Move π) (ha : Apart w a) : Numbered (step w a) := by
  cases a with
  | join p network =>
    have hjoins : w.joins = [] := List.eq_nil_of_length_eq_zero ha.1
    refine { hw with single := by simp [step, hjoins], joins := ?_ }
    simpa [step, hjoins, Fits] using ⟨rfl, ha.2⟩
  | next i =>
    rw [step]
    split
    next p network existing hi =>
      obtain ⟨rfl, hj⟩ := eq_singleton hw.single hi
      exact numbered_create hw hj
    next m hi =>
      obtain ⟨rfl, hj⟩ := eq_singleton hw.single hi
      simpa [hj] using numbered_record hw hj
    next => exact hw
  | abandon i =>
    exact { hw with
      single := (List.length_eraseIdx_le _ _).trans hw.single
      joins := fun j hj => hw.joins j (List.mem_of_mem_eraseIdx hj) }
  | revoke p network => exact hw
  | forget p => exact numbered_forget hw ha.1 ha.2
  | remove i =>
    have hsub := List.eraseIdx_sublist w.memberships i
    refine ⟨hw.rows, fun m hm => hw.recorded m (hsub.subset hm),
      (hsub.map _).nodup hw.distinct, hw.single, fun j hj => ?_⟩
    cases j with
    | counted p network existing =>
      exact ⟨(hw.joins _ hj).1, fun m hm => (hw.joins _ hj).2 m (hsub.subset hm)⟩
    | answered m => exact ⟨(hw.joins _ hj).1, fun x hx => (hw.joins _ hj).2 x (hsub.subset hx)⟩

/-- After every run of joins begun apart, in any number of networks, the memberships recorded on the
device have pairwise distinct interface names. -/
theorem interfaces_distinct (moves : List (Move π)) (h : Along step Apart {} moves) :
    ((run step {} moves).memberships.map (·.interfaceName)).Nodup :=
  (run_inv_along Numbered (fun _ a hw ha => numbered_step hw a ha) {} moves
    ⟨nofun, nofun, List.nodup_nil, Nat.zero_le 1, nofun⟩ h).distinct

def joins (p : Bool) (network : Nat) : List (Move Bool) :=
  [.join p network, .next 0, .next 0]

theorem interfaces_distinct_third :
    ((run step {} (joins true 1 ++ joins true 2 ++ [.revoke true 1, .remove 0] ++
      joins true 3)).memberships.map (·.interfaceName)).Nodup :=
  interfaces_distinct _ (by decide)

/-- A network of each of two control planes; two joins of one control plane at once; and a device
forgotten by a control plane it has not heard from. -/
theorem interfaces_shared :
    (run step {} (joins true 1 ++ joins false 1)).memberships.map (·.interfaceName) =
      ["meshp0", "meshp0"] ∧
    (run step {} [.join true 1, .join true 2, .next 0, .next 1, .next 0, .next 0]).memberships.map
      (·.interfaceName) = ["meshp0", "meshp0"] ∧
    (run step {} (joins true 1 ++ [.forget true] ++ joins true 2)).memberships.map
      (·.interfaceName) = ["meshp0", "meshp0"] := by
  decide

end Meshp.Agent.Interfaces
