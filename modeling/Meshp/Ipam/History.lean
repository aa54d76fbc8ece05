import Meshp.Ipam.Sweep

/-!
# Every Address an Allocator Ever Issued

A whole run of an allocator, with a log of what was issued and released and when.
The log is what the two maps are a summary of: an address is held by whoever it
was last issued to and not released by since, and an address that was released is
withheld until its quarantine is over.
-/

namespace Meshp.Ipam

open Allocator (allocateFor fourAddresses freshFour mem_live mem_put put restore_eq step_fitted
  withheld)
open Base (run Along run_inv_along bind_eq_ok refuseIf_bind_eq_ok)
open Netip (Addr Prefix)

inductive Event
  | issued (addr : Addr) (holder : String) (at' : Time)
  | released (addr : Addr) (at' : Time)
  deriving DecidableEq

def Event.addr : Event → Addr
  | issued addr _ _ => addr
  | released addr _ => addr

def heldBy : List Event → Addr → Option String
  | [], _ => none
  | .issued addr holder _ :: log, x => if addr = x then some holder else heldBy log x
  | .released addr _ :: log, x => if addr = x then none else heldBy log x

def lastReleased : List Event → Addr → Option Time
  | [], _ => none
  | .issued .. :: log, x => lastReleased log x
  | .released addr at' :: log, x => if addr = x then some at' else lastReleased log x

/-- A faithful dump of what is stored: one entry for each address, live exactly when the address is
held, and otherwise with the time it was last released; an address that is still cooling down is not
left out. -/
structure Faithful (quarantine : Nat) (now : Time) (log : List Event) (entries : List Entry) :
    Prop where
  once : (entries.map Entry.addr).Nodup
  /-- What an entry says is so. -/
  holds : ∀ e ∈ entries, match e.releasedAt with
    | none => heldBy log e.addr = some e.holder
    | some t => heldBy log e.addr = none ∧ lastReleased log e.addr = some t
  /-- Nothing that matters is left out. -/
  complete : ∀ x ∈ log.map Event.addr, match heldBy log x with
    | some holder => ∃ e ∈ entries, e.addr = x ∧ e.holder = holder ∧ e.releasedAt = none
    | none => ∀ t ∈ lastReleased log x, now < t + quarantine →
        ∃ e ∈ entries, e.addr = x ∧ e.releasedAt = some t

structure History where
  alloc : Allocator
  log : List Event
  now : Time

def record (h : History) (e : Time × Op) : History where
  alloc := step h.alloc e
  now := e.1
  log := match e with
    | (now, .allocate holder) =>
      match (h.alloc.allocateFor now holder).1 with
      | .ok addr => .issued addr holder now :: h.log
      | .error _ => h.log
    | (now, .allocateSpecific addr holder) =>
      match (h.alloc.allocateSpecific now addr holder).1 with
      | .ok _ => .issued addr.unmap holder now :: h.log
      | .error _ => h.log
    | (now, .release addr) =>
      match (h.alloc.release now addr).1 with
      | .ok _ => .released addr.unmap now :: h.log
      | .error _ => h.log
    | (_, .reclaim) => h.log
    | (_, .restore _) => h.log

def Proper (h : History) (e : Time × Op) : Prop :=
  h.now ≤ e.1 ∧ match e.2 with
    | .restore entries => Faithful h.alloc.quarantine e.1 h.log entries
    | _ => True

def Sound (pool : Prefix) (reserved : List Addr) (quarantine : Nat) : List Event → Prop
  | [] => True
  | .issued x _ t :: log => (pool.contains x = true ∧ x ∉ reserved ∧ heldBy log x = none ∧
      ∀ r, .released x r ∈ log → r + quarantine ≤ t) ∧ Sound pool reserved quarantine log
  | .released .. :: log => Sound pool reserved quarantine log

structure Kept (h : History) : Prop where
  fitted : h.alloc.Fitted
  once : (h.alloc.allocated.map Prod.fst).Nodup
  held : ∀ x holder, (x, holder) ∈ h.alloc.allocated ↔ heldBy h.log x = some holder
  /-- A quarantine that is not over is one the allocator knows of. -/
  cooling : ∀ x r, .released x r ∈ h.log → r + h.alloc.quarantine ≤ h.now ∨
    heldBy h.log x = none ∧ ∃ t, (x, t) ∈ h.alloc.quarantined ∧ r + h.alloc.quarantine ≤ t
  /-- The last release of an address is the latest. -/
  latest : ∀ x r, .released x r ∈ h.log → ∃ t, lastReleased h.log x = some t ∧ r ≤ t ∧ t ≤ h.now
  inPool : ∀ e ∈ h.log, h.alloc.pool.contains e.addr = true
  sound : Sound h.alloc.pool h.alloc.reserved h.alloc.quarantine h.log

section Log

variable {log : List Event} {x : Addr}

theorem mem_of_heldBy {holder : String} (h : heldBy log x = some holder) :
    x ∈ log.map Event.addr := by
  induction log with
  | nil => cases h
  | cons e log ih =>
    cases e with
    | issued addr _ _ =>
      by_cases hx : addr = x
      · exact hx ▸ (.head _)
      · rw [heldBy, if_neg hx] at h
        exact .tail _ (ih h)
    | released addr _ =>
      by_cases hx : addr = x
      · rw [heldBy, if_pos hx] at h
        cases h
      · rw [heldBy, if_neg hx] at h
        exact .tail _ (ih h)

theorem mem_of_lastReleased {t : Time} (h : lastReleased log x = some t) :
    .released x t ∈ log := by
  induction log with
  | nil => cases h
  | cons e log ih =>
    cases e with
    | issued _ _ _ => exact .tail _ (ih h)
    | released addr at' =>
      by_cases hx : addr = x
      · rw [lastReleased, if_pos hx] at h
        cases h
        exact hx ▸ (.head _)
      · rw [lastReleased, if_neg hx] at h
        exact .tail _ (ih h)

end Log

namespace Kept

variable {h : History} {now : Time}

theorem heldBy_eq_none (k : Kept h) {x : Addr} (hx : x ∉ h.alloc.allocated.map Prod.fst) :
    heldBy h.log x = none := by
  cases hheld : heldBy h.log x with
  | none => rfl
  | some holder =>
    exact absurd (List.mem_map_of_mem (f := Prod.fst) ((k.held x holder).2 hheld)) hx

theorem wait (k : Kept h) (hnow : h.now ≤ now) : Kept ⟨h.alloc, h.log, now⟩ where
  fitted := k.fitted
  once := k.once
  held := k.held
  cooling := fun x r hr => (k.cooling x r hr).imp_left fun hover => Nat.le_trans hover hnow
  latest := by
    intro x r hr
    rcases k.latest x r hr with ⟨t, ht, hrt, hle⟩
    exact ⟨t, ht, hrt, Nat.le_trans hle hnow⟩
  inPool := k.inPool
  sound := k.sound

theorem reclaim (k : Kept h) (hnow : h.now ≤ now) : Kept ⟨h.alloc.reclaim now, h.log, now⟩ where
  fitted := Allocator.reclaim_fitted k.fitted now
  once := k.once
  held := k.held
  cooling := by
    intro x r hr
    change r + h.alloc.quarantine ≤ now ∨ _
    rcases (k.wait hnow).cooling x r hr with hover | ⟨hheld, t, ht, hle⟩
    · exact .inl hover
    · by_cases hlt : now < t
      · exact .inr ⟨hheld, t, List.mem_filter.2 ⟨ht, decide_eq_true hlt⟩, hle⟩
      · exact .inl (Nat.le_trans hle (Nat.le_of_not_lt hlt))
  latest := (k.wait hnow).latest
  inPool := k.inPool
  sound := k.sound

theorem issue (k : Kept h) {x : Addr} (hfree : h.alloc.Free h.now x) (holder : String)
    {a : Allocator} (hfitted : a.Fitted) (hpool : a.pool = h.alloc.pool)
    (hreserved : a.reserved = h.alloc.reserved) (hq : a.quarantine = h.alloc.quarantine)
    (hallocated : a.allocated = put h.alloc.allocated x holder)
    (hquarantined : ∀ y t, y ≠ x → (y, t) ∈ h.alloc.quarantined → (y, t) ∈ a.quarantined) :
    Kept ⟨a, .issued x holder h.now :: h.log, h.now⟩ := by
  have hnone : heldBy h.log x = none := k.heldBy_eq_none hfree.1.2.2
  -- Whatever quarantine the address was under is over.
  have hover : ∀ r, .released x r ∈ h.log → r + h.alloc.quarantine ≤ h.now := by
    intro r hr
    rcases k.cooling x r hr with hover | ⟨_, t, ht, hle⟩
    · exact hover
    · exact Nat.le_trans hle (Nat.le_of_not_lt fun hlt => hfree.2 ⟨t, ht, hlt⟩)
  have hother : ∀ y, y ≠ x → heldBy (.issued x holder h.now :: h.log) y = heldBy h.log y :=
    fun y hy => if_neg (Ne.symm hy)
  have hself : heldBy (.issued x holder h.now :: h.log) x = some holder := if_pos rfl
  have hold : ∀ y r, .released y r ∈ (.issued x holder h.now :: h.log : List Event) →
      .released y r ∈ h.log := by
    intro y r hr
    exact (List.mem_cons.1 hr).resolve_left nofun
  constructor
  case fitted => exact hfitted
  case once =>
      change (a.allocated.map Prod.fst).Nodup
      rw [hallocated]
      exact Allocator.nodup_put k.once x holder
  case held =>
      intro y holder'
      change (y, holder') ∈ a.allocated ↔ _
      rw [hallocated, mem_put]
      by_cases hy : y = x
      · subst hy
        simp [hself, eq_comm]
      · simp [hy, hother y hy, k.held]
  case cooling =>
      intro y r hr
      change r + a.quarantine ≤ h.now ∨ _
      rw [hq]
      by_cases hy : y = x
      · exact .inl (hover r (hy ▸ hold y r hr))
      · rcases k.cooling y r (hold y r hr) with hdone | ⟨hheld, t, ht, hle⟩
        · exact .inl hdone
        · exact .inr ⟨(hother y hy).trans hheld, t, hquarantined y t hy ht, hle⟩
  case latest => exact fun y r hr => k.latest y r (hold y r hr)
  case inPool =>
      intro e he
      change a.pool.contains e.addr = true
      rw [hpool]
      rcases List.mem_cons.1 he with rfl | he
      · exact hfree.1.1
      · exact k.inPool e he
  case sound =>
      change Sound a.pool a.reserved a.quarantine _
      rw [hpool, hreserved, hq]
      exact ⟨⟨hfree.1.1, hfree.1.2.1, hnone, hover⟩, k.sound⟩

theorem release (k : Kept h) (hnow : h.now ≤ now) {x : Addr}
    (hx : x ∈ h.alloc.allocated.map Prod.fst) {a : Allocator} (hfitted : a.Fitted)
    (hpool : a.pool = h.alloc.pool) (hreserved : a.reserved = h.alloc.reserved)
    (hq : a.quarantine = h.alloc.quarantine)
    (hallocated : a.allocated = h.alloc.allocated.filter (·.1 ≠ x))
    (hquarantined : a.quarantined = if 0 < h.alloc.quarantine then
      put h.alloc.quarantined x (now + h.alloc.quarantine) else h.alloc.quarantined) :
    Kept ⟨a, .released x now :: h.log, now⟩ := by
  rcases List.mem_map.1 hx with ⟨⟨_, holder⟩, hmem, rfl⟩
  rename_i x
  have hheld : heldBy h.log x = some holder := (k.held x holder).1 hmem
  have hother : ∀ y, y ≠ x → heldBy (.released x now :: h.log) y = heldBy h.log y :=
    fun y hy => if_neg (Ne.symm hy)
  have hself : heldBy (.released x now :: h.log) x = none := if_pos rfl
  have hold : ∀ y r, y ≠ x → .released y r ∈ (.released x now :: h.log : List Event) →
      .released y r ∈ h.log := by
    intro y r hy hr
    refine (List.mem_cons.1 hr).resolve_left fun heq => hy ?_
    cases heq
    rfl
  -- A held address is under no quarantine.
  have hover : ∀ r, .released x r ∈ h.log → r + h.alloc.quarantine ≤ now := by
    intro r hr
    rcases k.cooling x r hr with hdone | ⟨hnone, _⟩
    · exact Nat.le_trans hdone hnow
    · rw [hheld] at hnone
      cases hnone
  constructor
  case fitted => exact hfitted
  case once =>
      change (a.allocated.map Prod.fst).Nodup
      rw [hallocated]
      exact k.once.sublist (List.filter_sublist.map Prod.fst)
  case held =>
      intro y holder'
      change (y, holder') ∈ a.allocated ↔ _
      rw [hallocated, List.mem_filter]
      by_cases hy : y = x
      · subst hy
        simp [hself]
      · simp [hy, hother y hy, k.held]
  case cooling =>
      intro y r hr
      change r + a.quarantine ≤ now ∨ _
      rw [hq]
      by_cases hy : y = x
      · subst hy
        rcases List.mem_cons.1 hr with heq | hr
        · cases heq
          by_cases hpos : 0 < h.alloc.quarantine
          · refine .inr ⟨hself, now + h.alloc.quarantine, ?_, Nat.le_refl _⟩
            change _ ∈ a.quarantined
            rw [hquarantined, if_pos hpos]
            exact mem_put.2 (.inl ⟨rfl, rfl⟩)
          · exact .inl (by omega)
        · exact .inl (hover r hr)
      · rcases k.cooling y r (hold y r hy hr) with hdone | ⟨hnone, t, ht, hle⟩
        · exact .inl (Nat.le_trans hdone hnow)
        · refine .inr ⟨(hother y hy).trans hnone, t, ?_, hle⟩
          change _ ∈ a.quarantined
          rw [hquarantined]
          split
          · exact mem_put.2 (.inr ⟨hy, ht⟩)
          · exact ht
  case latest =>
      intro y r hr
      rw [lastReleased]
      by_cases hy : x = y
      · rw [if_pos hy]
        refine ⟨now, rfl, ?_, Nat.le_refl _⟩
        rcases List.mem_cons.1 hr with heq | hr
        · cases heq
          exact Nat.le_refl _
        · rcases k.latest y r hr with ⟨t, _, hrt, hle⟩
          exact Nat.le_trans hrt (Nat.le_trans hle hnow)
      · rw [if_neg hy]
        rcases k.latest y r (hold y r (Ne.symm hy) hr) with ⟨t, ht, hrt, hle⟩
        exact ⟨t, ht, hrt, Nat.le_trans hle hnow⟩
  case inPool =>
      intro e he
      change a.pool.contains e.addr = true
      rw [hpool]
      rcases List.mem_cons.1 he with rfl | he
      · rcases List.mem_map.1 (mem_of_heldBy hheld) with ⟨e', he', heq⟩
        exact heq ▸ k.inPool e' he'
      · exact k.inPool e he
  case sound =>
      change Sound a.pool a.reserved a.quarantine _
      rw [hpool, hreserved, hq]
      exact k.sound

theorem unmap_eq (k : Kept h) {entries : List Entry}
    (hdump : Faithful h.alloc.quarantine now h.log entries)
    (hin : ∀ e ∈ entries, h.alloc.pool.contains e.addr.unmap = true) {e : Entry}
    (he : e ∈ entries) : e.addr.unmap = e.addr := by
  have hlogged : e.addr ∈ h.log.map Event.addr := by
    have hholds := hdump.holds e he
    split at hholds
    · exact mem_of_heldBy hholds
    · exact List.mem_map_of_mem (f := Event.addr) (mem_of_lastReleased hholds.2)
  rcases List.mem_map.1 hlogged with ⟨ev, hev, heq⟩
  have hpool := k.inPool ev hev
  rw [heq] at hpool
  exact Prefix.unmap_eq_of_contains hpool (hin e he)

theorem restore (k : Kept h) (hnow : h.now ≤ now) {entries : List Entry}
    (hdump : Faithful h.alloc.quarantine now h.log entries) {a : Allocator}
    (hrestore : h.alloc.restore now entries = .ok a) : Kept ⟨a, h.log, now⟩ := by
  have hfitted : a.Fitted := by
    have := step_fitted k.fitted (now, .restore entries)
    rwa [step, hrestore] at this
  rcases restore_eq.1 hrestore with ⟨hin, rfl⟩
  have hunmap : ∀ e ∈ entries, e.addr.unmap = e.addr := fun e he => k.unmap_eq hdump hin he
  have honce : (entries.map fun e => e.addr.unmap).Nodup := by
    rw [List.map_congr_left hunmap]
    exact hdump.once
  constructor
  case fitted => exact hfitted
  case once => exact Allocator.nodup_foldl_putEntry List.nodup_nil
  case held =>
      intro x holder
      change (x, holder) ∈ Allocator.live entries ↔ _
      constructor
      · intro hmem
        rcases mem_live hmem with ⟨e, he, rfl, hheld⟩
        have hholds := hdump.holds e he
        rw [hunmap e he]
        unfold Entry.held at hheld
        cases hrel : e.releasedAt with
        | none =>
          rw [hrel] at hheld hholds
          cases hheld
          exact hholds
        | some t =>
          rw [hrel] at hheld
          cases hheld
      · intro hheld
        have hcomplete := hdump.complete x (mem_of_heldBy hheld)
        rw [hheld] at hcomplete
        rcases hcomplete with ⟨e, he, rfl, rfl, hrel⟩
        have hmem : (e.addr.unmap, e.holder) ∈ Allocator.live entries :=
          Allocator.mem_foldl_putEntry_of_entry he (by rw [Entry.held, hrel]) honce
        rwa [hunmap e he] at hmem
  case cooling =>
      intro x r hr
      change r + h.alloc.quarantine ≤ now ∨ _
      rcases k.cooling x r hr with hdone | ⟨hnone, _⟩
      · exact .inl (Nat.le_trans hdone hnow)
      · rcases k.latest x r hr with ⟨t, ht, hrt, hle⟩
        by_cases hover : t + h.alloc.quarantine ≤ now
        · exact .inl (Nat.le_trans (Nat.add_le_add_right hrt _) hover)
        · -- The last release is still cooling down, so it is in the dump.
          have hcomplete := hdump.complete x (List.mem_map_of_mem (f := Event.addr) hr)
          rw [hnone] at hcomplete
          rcases hcomplete t ht (Nat.lt_of_not_le hover) with ⟨e, he, rfl, hrel⟩
          have hpos : 0 < h.alloc.quarantine := by
            refine Nat.pos_of_ne_zero fun hzero => hover ?_
            rw [hzero]
            exact Nat.le_trans hle hnow
          have hmem : (e.addr.unmap, t + h.alloc.quarantine) ∈
              withheld h.alloc.quarantine entries := by
            refine Allocator.mem_foldl_putEntry_of_entry he ?_ honce
            rw [Entry.freeAt, hrel]
            exact if_pos hpos
          rw [hunmap e he] at hmem
          refine .inr ⟨hnone, _, List.mem_filter.2 ⟨hmem, ?_⟩, Nat.add_le_add_right hrt _⟩
          exact decide_eq_true (Nat.lt_of_not_le hover)
  case latest => exact (k.wait hnow).latest
  case inPool => exact k.inPool
  case sound => exact k.sound

end Kept

theorem kept_record {h : History} (k : Kept h) {e : Time × Op} (hproper : Proper h e) :
    Kept (record h e) := by
  rcases e with ⟨now, op⟩
  rcases hproper with ⟨hnow, hdump⟩
  have kr := k.reclaim hnow
  cases op with
  | allocate holder =>
    have hfitted := step_fitted k.fitted (now, .allocate holder)
    simp only [record, step, allocateFor] at hfitted ⊢
    have hswept := Allocator.allocate_swept kr.fitted now
    cases hs : (h.alloc.reclaim now).allocate now with
    | error e =>
      simp only
      exact kr
    | ok x =>
      simp only [hs] at hswept hfitted ⊢
      cases hswept with
      | found j _ free _ => exact kr.issue free holder hfitted rfl rfl rfl rfl fun _ _ _ h => h
  | allocateSpecific addr holder =>
    have hfitted := step_fitted k.fitted (now, .allocateSpecific addr holder)
    simp only [record, step, Allocator.allocateSpecific] at hfitted ⊢
    by_cases hin : (h.alloc.reclaim now).pool.contains addr.unmap = false
    · simpa only [if_pos hin] using kr
    by_cases hres : addr.unmap ∈ (h.alloc.reclaim now).reserved
    · simpa only [if_neg hin, if_pos hres] using kr
    by_cases halloc : addr.unmap ∈ (h.alloc.reclaim now).allocated.map Prod.fst
    · simpa only [if_neg hin, if_neg hres, if_pos halloc] using kr
    by_cases hcool : ((h.alloc.reclaim now).quarantined.any fun e =>
        e.1 = addr.unmap && now < e.2) = true
    · simpa only [if_neg hin, if_neg hres, if_neg halloc, if_pos hcool] using kr
    simp only [if_neg hin, if_neg hres, if_neg halloc, if_neg hcool] at hfitted ⊢
    have hfree : (h.alloc.reclaim now).Free now addr.unmap :=
      ⟨⟨by simpa using hin, hres, halloc⟩, fun hc => hcool (Allocator.cooling_iff.2 hc)⟩
    exact kr.issue hfree holder hfitted rfl rfl rfl rfl
      fun y t hy ht => List.mem_filter.2 ⟨ht, decide_eq_true hy⟩
  | release addr =>
    have hfitted := step_fitted k.fitted (now, .release addr)
    simp only [record, step, Allocator.release] at hfitted ⊢
    by_cases hheld : addr.unmap ∈ h.alloc.allocated.map Prod.fst
    · simp only [if_pos hheld] at hfitted ⊢
      exact k.release hnow hheld hfitted rfl rfl rfl rfl rfl
    · simpa only [if_neg hheld] using k.wait hnow
  | reclaim => exact kr
  | restore entries =>
    simp only [record, step]
    cases hr : h.alloc.restore now entries with
    | error e => exact k.wait hnow
    | ok a => exact k.restore hnow hdump hr

theorem kept_new {cfg : Config} {a : Allocator} (h : new cfg = .ok a) : Kept ⟨a, [], 0⟩ := by
  have hfitted := Allocator.new_fitted h
  simp only [new] at h
  rcases bind_eq_ok.1 h with ⟨_, _, h⟩
  rcases refuseIf_bind_eq_ok.1 h with ⟨_, h⟩
  cases h
  exact ⟨hfitted, List.nodup_nil, by simp [heldBy], by simp, by simp, by simp, trivial⟩

theorem step_config (a : Allocator) (e : Time × Op) : (step a e).pool = a.pool ∧
    (step a e).reserved = a.reserved ∧ (step a e).quarantine = a.quarantine := by
  rcases e with ⟨now, op⟩
  cases op with
  | allocate holder =>
    simp only [step, allocateFor]
    split <;> exact ⟨rfl, rfl, rfl⟩
  | allocateSpecific addr holder =>
    simp only [step, Allocator.allocateSpecific]
    repeat' split
    all_goals exact ⟨rfl, rfl, rfl⟩
  | release addr =>
    simp only [step, Allocator.release]
    split <;> exact ⟨rfl, rfl, rfl⟩
  | reclaim => exact ⟨rfl, rfl, rfl⟩
  | restore entries =>
    simp only [step]
    cases hr : a.restore now entries with
    | error e => exact ⟨rfl, rfl, rfl⟩
    | ok a' =>
      rcases restore_eq.1 hr with ⟨_, rfl⟩
      exact ⟨rfl, rfl, rfl⟩

/-- In every run whose times do not go back and whose restorations are faithful: every address that
was issued lies in the prefix and is not reserved, nobody held it, and it had been released for the
whole of the quarantine; and the allocator has one holder for each address, the one the log has. -/
theorem history_sound {cfg : Config} {a : Allocator} (h : new cfg = .ok a)
    (ops : List (Time × Op)) (hproper : Along record Proper ⟨a, [], 0⟩ ops) :
    Sound a.pool a.reserved a.quarantine (run record ⟨a, [], 0⟩ ops).log ∧
      ((run record ⟨a, [], 0⟩ ops).alloc.allocated.map Prod.fst).Nodup ∧
      ∀ x holder, (x, holder) ∈ (run record ⟨a, [], 0⟩ ops).alloc.allocated ↔
        heldBy (run record ⟨a, [], 0⟩ ops).log x = some holder := by
  have hend := run_inv_along
    (fun s : History => Kept s ∧ s.alloc.pool = a.pool ∧ s.alloc.reserved = a.reserved ∧
      s.alloc.quarantine = a.quarantine)
    (fun s e hs he => by
      rcases hs with ⟨k, hpool, hreserved, hquarantine⟩
      rcases step_config s.alloc e with ⟨hp, hr, hq⟩
      exact ⟨kept_record k he, hp.trans hpool, hr.trans hreserved, hq.trans hquarantine⟩)
    ⟨a, [], 0⟩ ops ⟨kept_new h, rfl, rfl, rfl⟩ hproper
  rcases hend with ⟨k, hpool, hreserved, hquarantine⟩
  rw [← hpool, ← hreserved, ← hquarantine]
  exact ⟨k.sound, k.once, k.held⟩

def comeAndGo : List (Time × Op) :=
  [(0, .allocate "laptop"), (5, .release (.v4 0x0a000001)),
    (6, .restore [{ addr := .v4 0x0a000001, releasedAt := some 5 }]), (7, .allocate "phone")]

theorem history_sound_rebuilt :
    new fourAddresses = .ok freshFour ∧
      Along record Proper ⟨freshFour, [], 0⟩ comeAndGo ∧
      (run record ⟨freshFour, [], 0⟩ comeAndGo).log =
        [.issued (.v4 0x0a000002) "phone" 7, .released (.v4 0x0a000001) 5,
          .issued (.v4 0x0a000001) "laptop" 0] ∧
      (Sound freshFour.pool freshFour.reserved freshFour.quarantine
          (run record ⟨freshFour, [], 0⟩ comeAndGo).log ∧
        ((run record ⟨freshFour, [], 0⟩ comeAndGo).alloc.allocated.map Prod.fst).Nodup ∧
        ∀ x holder,
          (x, holder) ∈ (run record ⟨freshFour, [], 0⟩ comeAndGo).alloc.allocated ↔
            heldBy (run record ⟨freshFour, [], 0⟩ comeAndGo).log x = some holder) := by
  have hnew : new fourAddresses = .ok freshFour := by decide +kernel
  have hlog : (run record ⟨freshFour, [], 0⟩ (comeAndGo.take 2)).log =
      [.released (.v4 0x0a000001) 5, .issued (.v4 0x0a000001) "laptop" 0] := by
    decide +kernel
  have hdump : Faithful (run record ⟨freshFour, [], 0⟩ (comeAndGo.take 2)).alloc.quarantine
      6 (run record ⟨freshFour, [], 0⟩ (comeAndGo.take 2)).log
      [{ addr := .v4 0x0a000001, releasedAt := some 5 }] := by
    rw [hlog]
    refine ⟨by decide, ?_, ?_⟩
    · intro e he
      cases List.mem_singleton.1 he
      exact ⟨rfl, rfl⟩
    · intro x hx
      have hx' : x = .v4 0x0a000001 := by simpa [Event.addr] using hx
      subst hx'
      rintro t ⟨⟩ _
      exact ⟨_, .head _, rfl, rfl⟩
  have hproper : Along record Proper ⟨freshFour, [], 0⟩ comeAndGo :=
    ⟨⟨by decide, trivial⟩, ⟨by decide, trivial⟩, ⟨by decide, hdump⟩, ⟨by decide, trivial⟩, trivial⟩
  exact ⟨hnew, hproper, by decide +kernel, history_sound hnew comeAndGo hproper⟩

end Meshp.Ipam
