import Meshp.Ipam.History

/-!
# How Many Are Left

`Stats` counts what is free by subtraction: the addresses of the prefix, less the
reserved ones, less those handed out, less those withheld. That is the number of
addresses a pin would be accepted for as long as the three lists have no address
in common. `Restore` is the one operation that does not see to it.
-/

namespace Meshp.Ipam

open Base (run Along)
open Netip (Addr)
open Allocator (fourAddresses freshFour)

namespace Allocator

/-- `Stats.Free`, -1 where the addresses cannot be counted. -/
def freeCount (a : Allocator) (now : Time) : Int :=
  match a.size with
  | none => -1
  | some n => ((n - a.reserved.length : Nat) : Int) - a.allocated.length -
      (a.quarantined.filter fun e => now < e.2).length

/-- The addresses of the prefix that `AllocateSpecific` would accept. -/
def acceptable (a : Allocator) (now : Time) : Set Addr :=
  { x | a.pool.contains x = true ∧ (a.allocateSpecific now x "").1 = .ok () }

structure Apart (a : Allocator) : Prop where
  reserved : a.reserved.Nodup
  held : (a.allocated.map Prod.fst).Nodup
  withheld : (a.quarantined.map Prod.fst).Nodup
  inPool : ∀ x, x ∈ a.reserved ∨ x ∈ a.allocated.map Prod.fst ∨ x ∈ a.quarantined.map Prod.fst →
    a.pool.contains x = true
  heldOpen : ∀ x ∈ a.allocated.map Prod.fst, x ∉ a.reserved
  withheldOpen : ∀ x ∈ a.quarantined.map Prod.fst,
    x ∉ a.reserved ∧ x ∉ a.allocated.map Prod.fst

variable {a : Allocator} {x : Addr}

theorem exists_pool (h : a.Fitted) :
    ∃ P : Finset Addr, (∀ x, x ∈ P ↔ a.pool.contains x = true) ∧ P.card = a.pool.size := by
  refine ⟨(Finset.range a.pool.size).image fun k => a.next^[k] a.cursor, fun x => ?_, ?_⟩
  · rw [Finset.mem_image]
    constructor
    · rintro ⟨k, -, rfl⟩
      exact (next_iterate h.masked h.cursor k).1
    · intro hx
      exact ⟨a.ahead x, Finset.mem_range.2 (next_walk h hx).1, (next_walk h hx).2⟩
  · rw [Finset.card_image_of_injOn, Finset.card_range]
    intro j hj k hk hjk
    rw [← ahead_iterate h (Finset.mem_range.1 hj), ← ahead_iterate h (Finset.mem_range.1 hk)]
    exact congrArg a.ahead hjk

theorem accepts_iff (a : Allocator) (now : Time) (x : Addr) (holder : String) :
    (a.allocateSpecific now x holder).1 = .ok () ↔ a.Free now x.unmap := by
  rw [← free_reclaim]
  simp only [allocateSpecific, Free, Open, ← cooling_iff]
  split_ifs <;> simp_all

theorem freeCount_eq (h : a.Fitted) (d : a.Apart) {n : Nat} (hn : a.size = some n)
    (hplain : ∀ x, a.pool.contains x = true → x.is4In6 = false) (now : Time) :
    a.freeCount now = (a.acceptable now).ncard := by
  obtain ⟨P, hP, hcard⟩ := exists_pool h
  have hcooling : ∀ x, x ∈ (a.quarantined.filter fun e => now < e.2).map Prod.fst ↔
      a.Cooling now x := by
    simp [Cooling]
  have hwithheld : ∀ x, a.Cooling now x → x ∈ a.quarantined.map Prod.fst := by
    rintro x ⟨t, ht, -⟩
    exact List.mem_map_of_mem (f := Prod.fst) ht
  have hnodup : (a.reserved ++ (a.allocated.map Prod.fst ++
      (a.quarantined.filter fun e => now < e.2).map Prod.fst)).Nodup := by
    refine List.nodup_append.2 ⟨d.reserved, List.nodup_append.2 ⟨d.held, ?_, ?_⟩, ?_⟩
    · exact d.withheld.sublist (List.filter_sublist.map _)
    · rintro x hx _ hy rfl
      exact (d.withheldOpen x (hwithheld x ((hcooling x).1 hy))).2 hx
    · rintro x hx _ hy rfl
      rcases List.mem_append.1 hy with hy | hy
      · exact d.heldOpen x hy hx
      · exact (d.withheldOpen x (hwithheld x ((hcooling x).1 hy))).1 hx
  generalize htaken : a.reserved ++ (a.allocated.map Prod.fst ++
    (a.quarantined.filter fun e => now < e.2).map Prod.fst) = taken at hnodup
  have hmem : ∀ x, x ∈ taken.toFinset ↔
      x ∈ a.reserved ∨ x ∈ a.allocated.map Prod.fst ∨ a.Cooling now x := by
    intro x
    rw [← htaken, List.mem_toFinset, List.mem_append, List.mem_append, hcooling]
  have hsub : taken.toFinset ⊆ P := by
    intro x hx
    exact (hP x).2 (d.inPool x (((hmem x).1 hx).imp_right (Or.imp_right (hwithheld x))))
  have hset : a.acceptable now = ↑(P \ taken.toFinset) := by
    ext x
    rw [Finset.coe_sdiff, Set.mem_sdiff, Finset.mem_coe, Finset.mem_coe, hP, hmem]
    refine and_congr_right fun hx => ?_
    rw [accepts_iff, Addr.unmap_of_not_is4In6 (hplain x hx), Free, Open]
    tauto
  have hlength : taken.length =
      a.reserved.length + a.allocated.length + (a.quarantined.filter fun e => now < e.2).length := by
    simp [← htaken, Nat.add_assoc]
  have hle := Finset.card_le_card hsub
  rw [List.toFinset_card_of_nodup hnodup, hcard] at hle
  rw [hset, Set.ncard_coe_finset, Finset.card_sdiff_of_subset hsub,
    List.toFinset_card_of_nodup hnodup, hcard, freeCount, hn, size_eq h hn]
  simp only
  omega

theorem mem_map_put {β : Type} {l : List (Addr × β)} {y : Addr} {b : β} :
    x ∈ (put l y b).map Prod.fst ↔ x = y ∨ x ∈ l.map Prod.fst := by
  simp only [put, List.map_cons, List.mem_cons, List.mem_map, List.mem_filter]
  grind

theorem mem_map_drop {β : Type} {l : List (Addr × β)} {y : Addr} :
    x ∈ (l.filter (·.1 ≠ y)).map Prod.fst ↔ x ≠ y ∧ x ∈ l.map Prod.fst := by
  simp only [List.mem_map, List.mem_filter]
  grind

theorem nodup_filter {β : Type} {l : List (Addr × β)} (h : (l.map Prod.fst).Nodup)
    (keep : Addr × β → Bool) : ((l.filter keep).map Prod.fst).Nodup :=
  h.sublist (List.filter_sublist.map _)

theorem apart_reclaim (d : a.Apart) (now : Time) : (a.reclaim now).Apart := by
  have hsub : ∀ x, x ∈ (a.reclaim now).quarantined.map Prod.fst → x ∈ a.quarantined.map Prod.fst :=
    fun x hx => (List.filter_sublist.map _).subset hx
  exact ⟨d.reserved, d.held, nodup_filter d.withheld _,
    fun x hx => d.inPool x (hx.imp_right (Or.imp_right (hsub x))), d.heldOpen,
    fun x hx => d.withheldOpen x (hsub x hx)⟩

theorem apart_issue (d : a.Apart) (hopen : a.Open x) (holder : String) (cursor : Addr) :
    ({ a with
       quarantined := a.quarantined.filter (·.1 ≠ x), allocated := put a.allocated x holder
       cursor } : Allocator).Apart := by
  obtain ⟨hx, hreserved, -⟩ := hopen
  refine ⟨d.reserved, nodup_put d.held _ _, nodup_filter d.withheld _, ?_, ?_, ?_⟩
  · simp only [mem_map_put, mem_map_drop]
    rintro y (hy | (rfl | hy) | hy)
    · exact d.inPool y (.inl hy)
    · exact hx
    · exact d.inPool y (.inr (.inl hy))
    · exact d.inPool y (.inr (.inr hy.2))
  · simp only [mem_map_put]
    rintro y (rfl | hy)
    · exact hreserved
    · exact d.heldOpen y hy
  · simp only [mem_map_put, mem_map_drop]
    rintro y ⟨hne, hy⟩
    exact ⟨(d.withheldOpen y hy).1, not_or.2 ⟨hne, (d.withheldOpen y hy).2⟩⟩

theorem apart_release (d : a.Apart) (hx : x ∈ a.allocated.map Prod.fst) (t : Time) :
    ({ a with
       allocated := a.allocated.filter (·.1 ≠ x)
       quarantined := if 0 < a.quarantine then put a.quarantined x t else a.quarantined } :
      Allocator).Apart := by
  have hwithheld : ∀ y, y ∈ (if 0 < a.quarantine then put a.quarantined x t
      else a.quarantined).map Prod.fst → y = x ∨ y ∈ a.quarantined.map Prod.fst := by
    intro y hy
    split at hy
    · exact mem_map_put.1 hy
    · exact .inr hy
  refine ⟨d.reserved, nodup_filter d.held _, ?_, ?_, ?_, ?_⟩
  · dsimp only
    split
    · exact nodup_put d.withheld _ _
    · exact d.withheld
  · rintro y (hy | hy | hy)
    · exact d.inPool y (.inl hy)
    · exact d.inPool y (.inr (.inl (mem_map_drop.1 hy).2))
    · rcases hwithheld y hy with rfl | hy
      · exact d.inPool y (.inr (.inl hx))
      · exact d.inPool y (.inr (.inr hy))
  · intro y hy
    exact d.heldOpen y (mem_map_drop.1 hy).2
  · intro y hy
    rw [mem_map_drop]
    rcases hwithheld y hy with rfl | hy
    · exact ⟨d.heldOpen y hx, fun h => h.1 rfl⟩
    · exact ⟨(d.withheldOpen y hy).1, fun h => (d.withheldOpen y hy).2 h.2⟩

end Allocator

def Fresh (a : Allocator) (e : Time × Op) : Prop :=
  match e.2 with
  | .restore entries => ∀ e ∈ entries, e.addr.unmap ∉ a.reserved ∧
      ∀ e' ∈ entries, e'.addr.unmap = e.addr.unmap → (e'.releasedAt = none ↔ e.releasedAt = none)
  | _ => True

namespace Allocator

variable {a : Allocator}

theorem apart_restore (d : a.Apart) {now : Time} {entries : List Entry}
    (hfresh : Fresh a (now, .restore entries)) {a' : Allocator}
    (h : a.restore now entries = .ok a') : a'.Apart := by
  obtain ⟨hin, rfl⟩ := restore_eq.1 h
  have hheld : ∀ x ∈ (live entries).map Prod.fst,
      ∃ e ∈ entries, e.addr.unmap = x ∧ e.releasedAt = none := by
    intro x hx
    obtain ⟨⟨y, holder⟩, hmem, rfl⟩ := List.mem_map.1 hx
    obtain ⟨e, he, haddr, hholder⟩ := mem_live hmem
    refine ⟨e, he, haddr, ?_⟩
    unfold Entry.held at hholder
    split at hholder
    · assumption
    · cases hholder
  have hwithheld : ∀ x ∈ (withheld a.quarantine entries).map Prod.fst,
      ∃ e ∈ entries, e.addr.unmap = x ∧ e.releasedAt ≠ none := by
    intro x hx
    obtain ⟨⟨y, t⟩, hmem, rfl⟩ := List.mem_map.1 hx
    obtain ⟨e, he, haddr, hfree⟩ := (mem_foldl_putEntry hmem).resolve_left List.not_mem_nil
    refine ⟨e, he, haddr, fun hnone => ?_⟩
    rw [Entry.freeAt, hnone] at hfree
    cases hfree
  refine apart_reclaim (a := { a with
    allocated := live entries, quarantined := withheld a.quarantine entries
    cursor := a.resume (live entries) }) ⟨d.reserved, nodup_foldl_putEntry .nil,
      nodup_foldl_putEntry .nil, ?_, ?_, ?_⟩ now
  · rintro x (hx | hx | hx)
    · exact d.inPool x (.inl hx)
    · obtain ⟨e, he, rfl, -⟩ := hheld x hx
      exact hin e he
    · obtain ⟨e, he, rfl, -⟩ := hwithheld x hx
      exact hin e he
  · intro x hx
    obtain ⟨e, he, rfl, -⟩ := hheld x hx
    exact (hfresh e he).1
  · intro x hx
    obtain ⟨e, he, rfl, hreleased⟩ := hwithheld x hx
    refine ⟨(hfresh e he).1, fun hlive => ?_⟩
    obtain ⟨e', he', haddr, hnone⟩ := hheld _ hlive
    exact hreleased (((hfresh e he).2 e' he' haddr).1 hnone)

theorem apart_step (h : a.Fitted) (d : a.Apart) {e : Time × Op} (hfresh : Fresh a e) :
    (step a e).Apart := by
  rcases e with ⟨now, op⟩
  have hreclaimed := apart_reclaim d now
  cases op with
  | reclaim => exact hreclaimed
  | restore entries =>
    simp only [step]
    cases hr : a.restore now entries with
    | error e => exact d
    | ok a' => exact apart_restore d hfresh hr
  | release addr =>
    simp only [step, release]
    split
    · exact apart_release d ‹_› _
    · exact d
  | allocateSpecific addr holder =>
    simp only [step, allocateSpecific]
    split_ifs with hout hreserved hheld hcooling
    · exact hreclaimed
    · exact hreclaimed
    · exact hreclaimed
    · exact hreclaimed
    · exact apart_issue hreclaimed ⟨by simpa using hout, hreserved, hheld⟩ holder _
  | allocate holder =>
    simp only [step, allocateFor]
    cases hs : (a.reclaim now).allocate now with
    | error e => exact hreclaimed
    | ok x =>
      have hswept := allocate_swept (reclaim_fitted h now) now
      rw [hs] at hswept
      cases hswept with
      | found k _ free _ =>
        -- What is still withheld after reclaiming is cooling down, and a free address is not.
        have hnone : ∀ e ∈ (a.reclaim now).quarantined,
            decide (e.1 ≠ (a.reclaim now).next^[k] (a.reclaim now).cursor) = true := by
          rintro ⟨y, t⟩ hmem
          refine decide_eq_true ?_
          rintro rfl
          exact free.2 ⟨t, hmem, of_decide_eq_true (List.mem_filter.1 hmem).2⟩
        have hissued := apart_issue hreclaimed free.1 holder
          ((a.reclaim now).next ((a.reclaim now).next^[k] (a.reclaim now).cursor))
        rwa [List.filter_eq_self.2 hnone] at hissued

theorem apart_new {cfg : Config} (h : new cfg = .ok a) : a.Apart := by
  simp only [new] at h
  obtain ⟨_, hgiven, h⟩ := Base.bind_eq_ok.1 h
  obtain ⟨-, h⟩ := Base.refuseIf_bind_eq_ok.1 h
  cases h
  refine ⟨List.nodup_dedup _, .nil, .nil, fun x hx => ?_, by simp, by simp⟩
  have hmasked := Netip.Prefix.masked_masked cfg.pool
  have hlast : cfg.pool.masked.contains (lastAddr cfg.pool.masked) = true := by
    obtain ⟨hvalue, hfamily⟩ := toNat_lastAddr hmasked
    have hpos := cfg.pool.masked.size_pos
    exact (Netip.Prefix.contains_iff_range hmasked).2 ⟨hfamily.symm, by omega, by omega⟩
  have hx := List.mem_dedup.1 (hx.resolve_right (by simp))
  rcases List.mem_append.1 hx with hx | hx
  · have hends : x = cfg.pool.masked.addr ∨ x = lastAddr cfg.pool.masked := by
      clear hgiven h
      simp only [structural] at hx
      split_ifs at hx <;> simp_all
    rcases hends with rfl | rfl
    · exact Netip.Prefix.contains_self _
    · exact hlast
  · simpa using Base.refuseIf_eq_ok.1 (Base.forM_eq_ok.1 hgiven x hx)

end Allocator

/-- In every state reached by restoring lists that name no reserved address, and none twice over,
`Stats` counts the addresses that may be pinned. -/
theorem free_counts {cfg : Config} {a₀ : Allocator} (hnew : new cfg = .ok a₀) {n : Nat}
    (hn : a₀.size = some n) (hplain : ∀ x, a₀.pool.contains x = true → x.is4In6 = false)
    (ops : List (Time × Op)) (hfresh : Along step Fresh a₀ ops) (now : Time) :
    (run step a₀ ops).freeCount now = ((run step a₀ ops).acceptable now).ncard := by
  have hstart := Allocator.new_fitted hnew
  obtain ⟨hfitted, hapart, hpool⟩ := Base.run_inv_along
    (fun a => a.Fitted ∧ a.Apart ∧ a.pool = a₀.pool)
    (fun a e h he => ⟨Allocator.step_fitted h.1 e, Allocator.apart_step h.1 h.2.1 he,
      (step_config a e).1.trans h.2.2⟩) a₀ ops ⟨hstart, Allocator.apart_new hnew, rfl⟩ hfresh
  have hsize : (run step a₀ ops).size = some n := by
    rw [hfitted.size, hpool, ← hstart.size, hn]
  exact Allocator.freeCount_eq hfitted hapart hsize (hpool ▸ hplain) now

theorem free_counts_four :
    let a := run step freshFour [(0, .restore [⟨.v4 0x0a000001, "laptop", none⟩])]
    a.freeCount 0 = 1 ∧ a.freeCount 0 = (a.acceptable 0).ncard := by
  have hnew : new fourAddresses = .ok freshFour := by decide +kernel
  refine ⟨by decide +kernel, free_counts hnew rfl ?_ _ ?_ 0⟩
  · intro x hx
    have h4 := Netip.Prefix.is4_of_contains hx
    cases x with
    | v4 x => rfl
    | v6 x => cases h4
  · refine ⟨?_, trivial⟩
    unfold Fresh
    decide +kernel

/-- One address is restored both as held and as released: nothing is said to be left, and the other
one is accepted. -/
theorem free_miscounted :
    let a := run step freshFour [(0, .restore [⟨.v4 0x0a000001, "laptop", none⟩,
      ⟨.v4 0x0a000001, "phone", some 0⟩])]
    a.freeCount 0 = 0 ∧ .v4 0x0a000002 ∈ a.acceptable 0 ∧
      a.freeCount 0 ≠ (a.acceptable 0).ncard := by
  intro a
  have hfree : a.freeCount 0 = 0 := by decide +kernel
  have hmem : .v4 0x0a000002 ∈ a.acceptable 0 := by
    constructor <;> decide +kernel
  refine ⟨hfree, hmem, fun heq => ?_⟩
  have hnew : new fourAddresses = .ok freshFour := by decide +kernel
  have hfitted : a.Fitted := Allocator.reachable_fitted ⟨freshFour, _, hnew, rfl⟩
  obtain ⟨P, hP, -⟩ := Allocator.exists_pool hfitted
  have hfinite : (a.acceptable 0).Finite := P.finite_toSet.subset fun x hx => (hP x).2 hx.1
  have hpos := (Set.ncard_pos hfinite).2 ⟨_, hmem⟩
  omega

end Meshp.Ipam
