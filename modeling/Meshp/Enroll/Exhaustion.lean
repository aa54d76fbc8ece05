import Meshp.Ipam.Sweep
import Meshp.Store.Effect

/-!
# Running Out of Addresses

An enrolment takes one address from each pool of its network, and the row that
records it is written once and never again: revoking a membership leaves it, and
so does forgetting the device, which deletes the membership the row names. Nothing
in the deployment ever releases an address. As long as no member is forgotten, the
rows of a pool are its lowest addresses.
-/

namespace Meshp.Ipam.Allocator

open Netip (Addr Prefix)

def Packed (pool : Prefix) (taken : List Addr) : Prop :=
  ∀ x ∈ taken, ∀ y, pool.contains y = true → y ∉ structural pool → y.toNat ≤ x.toNat → y ∈ taken

theorem le_highest {p : Prefix} {xs : List Addr} (hin : ∀ x ∈ xs, p.contains x = true) {x : Addr}
    (hx : x ∈ xs) : ∃ h, highest xs = some h ∧ x.toNat ≤ h.toNat := by
  -- Over what is left of the list, from the highest so far.
  have hfold : ∀ f : Option Addr → Addr → Option Addr,
      (∀ b a, f (some b) a = if a.compare b = .gt then some a else some b) →
      ∀ (ys : List Addr) (b : Addr), (∀ y ∈ b :: ys, p.contains y = true) →
        ∃ h, ys.foldl f (some b) = some h ∧ ∀ y ∈ b :: ys, y.toNat ≤ h.toNat := by
    intro f hf ys
    induction ys with
    | nil => exact fun b _ => ⟨b, rfl, by simp⟩
    | cons y ys ih =>
      intro b hys
      have hfam : y.is4 = b.is4 := (Prefix.is4_of_contains (hys y (by simp))).symm.trans
        (Prefix.is4_of_contains (hys b (by simp)))
      have hgt : y.compare b = .gt ↔ b.toNat < y.toNat := by
        rw [Addr.compare, Addr.bitLen_eq_of_is4 hfam, Nat.compare_eq_eq.2 rfl, Ordering.eq_then,
          Nat.compare_eq_gt]
      simp only [List.foldl_cons, hf, hgt]
      by_cases hlt : b.toNat < y.toNat
      · obtain ⟨h, hh, hle⟩ := ih y fun z hz => hys z (.tail _ hz)
        have := hle y (.head _)
        rw [if_pos hlt]
        refine ⟨h, hh, fun z hz => ?_⟩
        rcases List.mem_cons.1 hz with rfl | hz
        · omega
        · exact hle z hz
      · obtain ⟨h, hh, hle⟩ := ih b fun z hz => hys z (by simp at hz ⊢; tauto)
        have := hle b (.head _)
        rw [if_neg hlt]
        refine ⟨h, hh, fun z hz => ?_⟩
        simp only [List.mem_cons] at hz hle
        rcases hz with rfl | rfl | hz
        · exact this
        · omega
        · exact hle z (.inr hz)
  cases xs with
  | nil => cases hx
  | cons b ys =>
    rw [highest, List.foldl_cons]
    exact (hfold _ (fun _ _ => rfl) ys b hin).imp fun h hh => ⟨hh.1, hh.2 x hx⟩

structure Dense (a : Allocator) (taken : List Addr) : Prop where
  fitted : a.Fitted
  reserved : ∀ x, x ∈ a.reserved ↔ x ∈ structural a.pool
  quarantined : a.quarantined = []
  cursor : a.cursor = a.resume a.allocated
  allocated : ∀ x, x ∈ a.allocated.map Prod.fst ↔ x ∈ taken
  inside : ∀ x ∈ taken, a.pool.contains x = true
  packed : Packed a.pool taken

theorem wide_of_uncounted {a : Allocator} (h : a.Fitted) (hsize : a.size = none) :
    2 ^ 20 ≤ a.pool.size ∧ structural a.pool = [a.pool.addr] := by
  rw [h.size, countAddrs] at hsize
  split at hsize
  · rename_i hbits
    refine ⟨Nat.pow_le_pow_right (by decide) (Nat.le_trans (by decide) hbits), ?_⟩
    cases haddr : a.pool.addr with
    | v4 v =>
      rw [haddr] at hbits
      have hlen : Addr.bitLen (.v4 v) = 32 := rfl
      omega
    | v6 v =>
      rw [haddr] at hbits
      simp only [structural, haddr]
      rw [if_neg (by simp [Addr.is4]), if_pos (by omega)]
  · cases hsize

namespace Dense

variable {a : Allocator} {taken : List Addr} (h : Dense a taken) {now : Time} {y : Addr}

include h

theorem free_iff : a.Free now y ↔
    a.pool.contains y = true ∧ y ∉ structural a.pool ∧ y ∉ taken := by
  simp only [Free, Open, Cooling, h.quarantined, h.reserved, h.allocated]
  simp

theorem above (hy : a.Free now y) :
    (∀ x ∈ taken, x.toNat < a.cursor.toNat) ∧ a.cursor.toNat ≤ y.toNat ∧
      a.ahead y = y.toNat - a.cursor.toNat := by
  obtain ⟨hin, hstruct, hleft⟩ := h.free_iff.1 hy
  have hrange := fun x hx => (Prefix.contains_iff_range h.fitted.masked).1 (h.inside x hx)
  obtain ⟨-, hlo, hhi⟩ := (Prefix.contains_iff_range h.fitted.masked).1 hin
  obtain ⟨-, hbase, hend⟩ := (Prefix.contains_iff_range h.fitted.masked).1 h.fitted.cursor
  have hbelow : ∀ x ∈ taken, x.toNat < y.toNat := by
    intro x hx
    by_contra hle
    exact hleft (h.packed x hx y hin hstruct (Nat.le_of_not_lt hle))
  have hhighest : ∀ x ∈ taken, ∃ top, highest (a.allocated.map Prod.fst) = some top ∧
      x.toNat ≤ top.toNat := fun x hx =>
    le_highest (fun x hx => h.inside x ((h.allocated x).1 hx)) ((h.allocated x).2 hx)
  have hle : (∀ x ∈ taken, x.toNat < a.cursor.toNat) ∧ a.cursor.toNat ≤ y.toNat := by
    rw [h.cursor, resume]
    cases hhigh : highest (a.allocated.map Prod.fst) with
    | none =>
      refine ⟨fun x hx => ?_, hlo⟩
      obtain ⟨top, htop, -⟩ := hhighest x hx
      cases hhigh.symm.trans htop
    | some top =>
      have htop := (h.allocated _).1 (highest_mem hhigh)
      have hlt := hbelow top htop
      obtain ⟨-, htoplo, -⟩ := hrange top htop
      have hnext := (next_spec h.fitted.masked (h.inside top htop)).2
      rw [Nat.mod_eq_of_lt (by omega)] at hnext
      refine ⟨fun x hx => ?_, by simp only; omega⟩
      obtain ⟨top', htop', hx⟩ := hhighest x hx
      cases hhigh.symm.trans htop'
      simp only
      omega
  refine ⟨hle.1, hle.2, ?_⟩
  have hsum : y.toNat + a.pool.size - a.cursor.toNat = y.toNat - a.cursor.toNat + a.pool.size := by
    omega
  rw [ahead, hsum, Nat.add_mod_right, Nat.mod_eq_of_lt]
  omega

theorem packed_allocate {x : Addr} (hx : a.allocate now = .ok x) :
    a.pool.contains x = true ∧ Packed a.pool (x :: taken) := by
  have hswept := allocate_swept h.fitted now
  rw [hx] at hswept
  cases hswept with
  | found k within free first =>
    have hin := (h.free_iff.1 free).1
    have hsteps : k < a.pool.size := by
      cases hsize : a.size with
      | some n =>
        rw [hsize] at within
        exact size_eq h.fitted hsize ▸ within
      | none =>
        rw [hsize] at within
        exact Nat.lt_of_lt_of_le within (wide_of_uncounted h.fitted hsize).1
    refine ⟨hin, fun z hz y hy hstruct hle => ?_⟩
    by_cases htaken : y ∈ taken
    · exact .tail _ htaken
    rcases List.mem_cons.1 hz with rfl | hz
    · -- Anything lower that is left would have been found first.
      have hfree : a.Free now y := h.free_iff.2 ⟨hy, hstruct, htaken⟩
      obtain ⟨-, hlo, hahead⟩ := h.above hfree
      obtain ⟨-, -, hk⟩ := h.above free
      rw [ahead_iterate h.fitted hsteps] at hk
      rcases Nat.lt_or_eq_of_le hle with hlt | heq
      · rw [← (next_walk h.fitted hy).2] at hfree
        exact absurd hfree (first _ (by omega))
      · rw [Addr.ext_toNat ((Prefix.is4_of_contains hy).symm.trans (Prefix.is4_of_contains hin)) heq]
        exact .head _
    · exact absurd (h.packed z hz y hy hstruct hle) htaken

theorem mem_taken_of_refused {e : Failure} (he : a.allocate now = .error e)
    (hy : a.pool.contains y = true) (hstruct : y ∉ structural a.pool) : y ∈ taken := by
  by_contra htaken
  have hfree : a.Free now y := h.free_iff.2 ⟨hy, hstruct, htaken⟩
  have hswept := allocate_swept h.fitted now
  rw [he] at hswept
  have hnone : ∀ j < a.size.getD (2 ^ 20), ¬a.Free now (a.next^[j] a.cursor) := by
    cases hswept with
    | cooling none _ => exact none
    | full _ none => exact fun j hj hf => none j hj hf.1
  obtain ⟨hbelow, hlo, hahead⟩ := h.above hfree
  obtain ⟨hlt, hwalk⟩ := next_walk h.fitted hy
  rw [← hwalk] at hfree
  cases hsize : a.size with
  | some n =>
    rw [hsize, Option.getD_some, size_eq h.fitted hsize] at hnone
    exact hnone _ hlt hfree
  | none =>
    rw [hsize, Option.getD_none] at hnone
    by_cases hnear : a.ahead y < 2 ^ 20
    · exact hnone _ hnear hfree
    · -- The address after the cursor is above all that is taken.
      obtain ⟨hz, hval⟩ := next_iterate h.fitted.masked h.fitted.cursor 1
      obtain ⟨-, -, hhi⟩ := (Prefix.contains_iff_range h.fitted.masked).1 hy
      obtain ⟨-, hbase, -⟩ := (Prefix.contains_iff_range h.fitted.masked).1 h.fitted.cursor
      rw [Nat.mod_eq_of_lt (by omega)] at hval
      refine hnone 1 (by decide) (h.free_iff.2 ⟨hz, ?_, fun hmem => ?_⟩)
      · rw [(wide_of_uncounted h.fitted hsize).2, List.mem_singleton]
        intro heq
        rw [heq] at hval
        omega
      · have hlt := hbelow _ hmem
        omega

end Dense

theorem mem_keys_live {entries : List Entry} {x : Addr} :
    x ∈ (live entries).map Prod.fst ↔ ∃ e ∈ entries, e.releasedAt = none ∧ e.addr.unmap = x := by
  have hfold : ∀ acc : List (Addr × String),
      x ∈ (entries.foldl (putEntry Entry.held) acc).map Prod.fst ↔
        x ∈ acc.map Prod.fst ∨ ∃ e ∈ entries, e.releasedAt = none ∧ e.addr.unmap = x := by
    induction entries with
    | nil => simp
    | cons e entries ih =>
      intro acc
      rw [List.foldl_cons, ih]
      cases hr : e.releasedAt with
      | none =>
        by_cases hx : x = e.addr.unmap
        · simp [putEntry, Entry.held, hr, put, hx]
        · simp [putEntry, Entry.held, hr, put, hx, Ne.symm hx]
      | some since => simp [putEntry, Entry.held, hr]
  simpa [live] using hfold []

end Meshp.Ipam.Allocator

namespace Meshp.Enroll

open Base (Along bind_eq_ok run run_inv_along)
open Ipam.Allocator (Dense Packed)
open Netip (Addr Prefix)
open Store

inductive Act
  | enrol (req : RedeemRequest)
  | revoke (n membership : Id)
  | forget (org device : Id)

def Act.event : Act → Event
  | .enrol req => .redeem req
  | .revoke n membership => .revokeMembership n membership
  | .forget org device => .forgetDevice org device

def step (c : Checks) (m : Mesh) (e : Time × Act) : Mesh :=
  apply c m ⟨e.1, e.2.event⟩

def SparesMembers (m : Mesh) (e : Time × Act) : Prop :=
  match e.2 with
  | .forget _ device => ∀ x ∈ m.memberships, x.deviceId ≠ device
  | _ => True

def storedEntries (t : Tables) (p : AddressPool) : List Ipam.Entry :=
  (t.addressAllocations.filter (·.poolId = p.id)).map fun r =>
    { addr := r.address, releasedAt := r.releasedAt }

def Lacking (now : Time) (t : Tables) (p : AddressPool) : Prop :=
  ∃ a₀ a e, Ipam.new { pool := p.network } = .ok a₀ ∧
    a₀.restore now (storedEntries t p) = .ok a ∧ a.allocate now = .error e

def Usable (p : AddressPool) (x : Addr) : Prop :=
  p.network.masked.contains x = true ∧ x ∉ Ipam.structural p.network.masked

def Held (now : Time) (t : Tables) (p : AddressPool) (x : Addr) : Prop :=
  ∃ r ∈ t.addressAllocations, r.poolId = p.id ∧ r.address = x ∧
    ((∃ y ∈ t.memberships, y.id = r.holderId) ∨
      ∃ since, r.releasedAt = some since ∧ now < since + Ipam.defaultQuarantine)

def Accounted (t : Tables) : Prop :=
  (∀ now, ∀ p ∈ t.addressPools, Lacking now t p → ∀ x, Usable p x → Held now t p x) ∧
    ∀ r ∈ t.addressAllocations, (∃ y ∈ t.memberships, y.id = r.holderId) ∨ r.releasedAt ≠ none

def taken (t : Tables) (p : AddressPool) : List Addr :=
  (t.addressAllocations.filter (·.poolId = p.id)).map AddressAllocation.address

structure Kept (t : Tables) : Prop where
  ids : (t.addressPools.map AddressPool.id).Nodup
  held : ∀ r ∈ t.addressAllocations,
    r.releasedAt = none ∧ ∃ y ∈ t.memberships, y.id = r.holderId
  inside : ∀ p ∈ t.addressPools, ∀ x ∈ taken t p, p.network.masked.contains x = true
  packed : ∀ p ∈ t.addressPools, Packed p.network.masked (taken t p)

variable {t t' : Tables} {p : AddressPool} {now : Time} {c : Checks} {req : RedeemRequest}

theorem dense_restore (h : Kept t) (hp : p ∈ t.addressPools) {a₀ a : Ipam.Allocator}
    (hnew : Ipam.new { pool := p.network } = .ok a₀)
    (hrestore : a₀.restore now (storedEntries t p) = .ok a) :
    a.pool = p.network.masked ∧ Dense a (taken t p) := by
  have hfitted : a.Fitted := by
    have hstep := Ipam.Allocator.step_fitted (Ipam.Allocator.new_fitted hnew)
      (now, .restore (storedEntries t p))
    simpa [Ipam.step, hrestore, Except.toOption] using hstep
  have hconfig : a₀.pool = p.network.masked ∧
      ∀ x, x ∈ a₀.reserved ↔ x ∈ Ipam.structural a₀.pool := by
    unfold Ipam.new at hnew
    obtain ⟨_, _, hnew⟩ := bind_eq_ok.1 hnew
    obtain ⟨_, hnew⟩ := Base.refuseIf_bind_eq_ok.1 hnew
    cases hnew
    exact ⟨rfl, fun x => by simp⟩
  obtain ⟨hin, rfl⟩ := Ipam.Allocator.restore_eq.1 hrestore
  have hun : ∀ e ∈ storedEntries t p, e.releasedAt = none := by
    intro e he
    obtain ⟨r, hr, rfl⟩ := List.mem_map.1 he
    exact (h.held r (List.mem_of_mem_filter hr)).1
  have hmap : taken t p = (storedEntries t p).map Ipam.Entry.addr := by
    simp [taken, storedEntries, Function.comp_def]
  have hinside : ∀ x ∈ taken t p, a₀.pool.contains x = true := hconfig.1 ▸ h.inside p hp
  -- None of the recorded addresses is a mapped one.
  have hunmap : ∀ e ∈ storedEntries t p, e.addr.unmap = e.addr := fun e he =>
    Prefix.unmap_eq_of_contains (hinside _ (hmap ▸ List.mem_map_of_mem he)) (hin e he)
  refine ⟨hconfig.1, hfitted, hconfig.2, ?_, rfl, fun x => ?_, hinside, hconfig.1 ▸ h.packed p hp⟩
  · have hnothing : Ipam.Allocator.withheld a₀.quarantine (storedEntries t p) = [] := by
      refine List.eq_nil_iff_forall_not_mem.2 fun x hx => ?_
      rcases Ipam.Allocator.mem_foldl_putEntry hx with hx | ⟨e, he, -, hfree⟩
      · cases hx
      · simp [Ipam.Entry.freeAt, hun e he] at hfree
    simp [Ipam.Allocator.reclaim, hnothing]
  · refine Ipam.Allocator.mem_keys_live.trans ?_
    rw [hmap, List.mem_map]
    constructor
    · rintro ⟨e, he, -, rfl⟩
      exact ⟨e, he, (hunmap e he).symm⟩
    · rintro ⟨e, he, rfl⟩
      exact ⟨e, he, hun e he, hunmap e he⟩

theorem Kept.accounted (h : Kept t) : Accounted t := by
  refine ⟨?_, fun r hr => .inl (h.held r hr).2⟩
  rintro now p hp ⟨a₀, a, e, hnew, hrestore, he⟩ x ⟨hx, hstruct⟩
  obtain ⟨hpool, hdense⟩ := dense_restore h hp hnew hrestore
  rw [← hpool] at hx hstruct
  obtain ⟨r, hr, rfl⟩ := List.mem_map.1 (hdense.mem_taken_of_refused he hx hstruct)
  obtain ⟨hr, hid⟩ := List.mem_filter.1 hr
  exact ⟨r, hr, of_decide_eq_true hid, rfl, .inl (h.held r hr).2⟩

theorem picked_packed (h : Kept t) {n : Id} {chosen : List ChosenAddress}
    (hpick : pickAddresses now t n = .ok chosen) {ch : ChosenAddress} (hch : ch ∈ chosen) :
    ∃ p ∈ t.addressPools, p.id = ch.poolId ∧ p.network.masked.contains ch.addr = true ∧
      Packed p.network.masked (ch.addr :: taken t p) := by
  have hmapM : (deviceAddressPools t n).mapM (pickOrRefuse now t) = .ok chosen := by
    unfold pickAddresses at hpick
    split at hpick
    · cases hpick
    · exact hpick
  obtain ⟨p, hp, hfrom⟩ := Base.mem_of_mapM hmapM hch
  have hp : p ∈ t.addressPools := by
    rcases List.mem_append.1 hp with hp | hp
    · exact List.mem_of_mem_filter hp
    · exact List.mem_of_mem_filter hp
  unfold pickOrRefuse at hfrom
  split at hfrom
  · rename_i hok
    cases hfrom
    obtain ⟨a₀, hnew, hok⟩ := bind_eq_ok.1 hok
    obtain ⟨a, hrestore, hok⟩ := bind_eq_ok.1 hok
    obtain ⟨addr, haddr, hok⟩ := bind_eq_ok.1 hok
    cases hok
    obtain ⟨hpool, hdense⟩ := dense_restore h hp hnew hrestore
    exact ⟨p, hp, rfl, hpool ▸ hdense.packed_allocate haddr⟩
  · cases hfrom

theorem kept_join {x : Membership} (h : Kept t) (hjoin : join c now t req = .ok (t', x)) :
    Kept t' := by
  obtain ⟨_, _, _, hj, _, _, chosen, hpick, hrows'⟩ := join_ok hjoin
  have hpools' : t'.addressPools = t.addressPools := by rw [hj.rest]
  have htaken : ∀ q y, y ∈ taken t' q ↔
      y ∈ taken t q ∨ ∃ ch ∈ chosen, ch.poolId = q.id ∧ ch.addr = y := by
    intro q y
    simp [taken, hrows', allocationRows, List.filter_append, List.filter_map, Function.comp_def,
      and_assoc]
  have hone : ∀ q ∈ t.addressPools, ∀ ch ∈ chosen, ch.poolId = q.id →
      q.network.masked.contains ch.addr = true ∧ Packed q.network.masked (ch.addr :: taken t q) := by
    intro q hq ch hch hid
    obtain ⟨p, hp, hpid, hpacked⟩ := picked_packed h hpick hch
    rwa [List.inj_on_of_nodup_map h.ids hq hp (hpid.trans hid).symm]
  refine ⟨hpools' ▸ h.ids, fun r hr => ?_, fun q hq y hy => ?_, fun q hq y hy z hz hstruct hle => ?_⟩
  · rw [hj.memberships]
    rw [hrows'] at hr
    rcases List.mem_append.1 hr with hr | hr
    · obtain ⟨hun, y, hy, hid⟩ := h.held r hr
      exact ⟨hun, y, List.mem_append_left _ hy, hid⟩
    · obtain ⟨ch, -, rfl⟩ := List.mem_map.1 hr
      exact ⟨rfl, x, List.mem_append_right _ (.head _), rfl⟩
  · rw [hpools'] at hq
    rcases (htaken q y).1 hy with hy | ⟨ch, hch, hid, rfl⟩
    · exact h.inside q hq y hy
    · exact (hone q hq ch hch hid).1
  · rw [hpools'] at hq
    rcases (htaken q y).1 hy with hy | ⟨ch, hch, hid, rfl⟩
    · exact (htaken q z).2 (.inl (h.packed q hq y hy z hz hstruct hle))
    · rcases List.mem_cons.1 ((hone q hq ch hch hid).2 _ (.head _) z hz hstruct hle) with
        rfl | hold
      · exact hy
      · exact (htaken q z).2 (.inl hold)

theorem Kept.congr (h : Kept t) (hpools : t'.addressPools = t.addressPools)
    (hrows : t'.addressAllocations = t.addressAllocations)
    (hmembers : ∀ y ∈ t.memberships, ∃ y' ∈ t'.memberships, y'.id = y.id) : Kept t' := by
  have htaken : ∀ q, taken t' q = taken t q := fun q => by simp only [taken, hrows]
  refine ⟨hpools ▸ h.ids, fun r hr => ?_, fun q hq => ?_, fun q hq => ?_⟩
  · obtain ⟨hun, y, hy, hid⟩ := h.held r (hrows ▸ hr)
    obtain ⟨y', hy', hid'⟩ := hmembers y hy
    exact ⟨hun, y', hy', hid'.trans hid⟩
  · rw [htaken]
    exact h.inside q (hpools ▸ hq)
  · rw [htaken]
    exact h.packed q (hpools ▸ hq)

theorem kept_step {m : Mesh} (h : Kept m.toTables) (e : Time × Act) (he : SparesMembers m e) :
    Kept (step c m e).toTables := by
  refine Base.attempt_inv (fun m' : Mesh => Kept m'.toTables) _ m (fun m' hok => ?_) h
  obtain ⟨now, act⟩ := e
  cases act with
  | enrol req =>
    obtain ⟨t, x, hjoin, rfl, _⟩ := redeem_ok hok
    rw [Mesh.toTables_recordAll]
    exact kept_join h hjoin
  | revoke n membership =>
    change revokeMembership now m n membership = .ok m' at hok
    unfold revokeMembership at hok
    split at hok
    · rename_i key _ _
      obtain ⟨rfl, _⟩ := bumpVersion_ok [.peerRemove key] rfl hok
      rw [Mesh.toTables_recordAll]
      refine h.congr rfl rfl fun y hy => ⟨_, List.mem_map_of_mem hy, ?_⟩
      split <;> rfl
    · cases hok
  | forget org device =>
    obtain ⟨_, _, hok⟩ := bind_eq_ok.1 hok
    obtain ⟨m₁, hall, hok⟩ := bind_eq_ok.1 hok
    cases hok
    obtain ⟨rfl, _⟩ := announceAll_ok (s := ⟨now, .forgetDevice org device⟩) hall
    have htables := Mesh.toTables_recordAll now m
      ((m.memberships.filter (·.deviceId = device)).flatMap (leaveBumps m.toTables))
    have hpools := congrArg Tables.addressPools htables
    have hrows := congrArg Tables.addressAllocations htables
    refine h.congr hpools hrows fun y hy => ⟨y, ?_, rfl⟩
    refine List.mem_filter.2 ⟨?_, decide_eq_true (he y hy)⟩
    rw [htables]
    exact hy

/-- From a deployment in which no address has been given out, in every history of enrolments,
revocations and forgets in which no member is forgotten, a pool lacks addresses only when members
that are there hold all of them. -/
theorem accounted_of_kept (c : Checks) (m₀ : Mesh)
    (hids : (m₀.addressPools.map AddressPool.id).Nodup) (hnone : m₀.addressAllocations = [])
    (es : List (Time × Act)) (hspared : Along (step c) SparesMembers m₀ es) :
    Accounted (run (step c) m₀ es).toTables := by
  have hstart : Kept m₀.toTables :=
    ⟨hids, by simp [hnone], by simp [taken, hnone], by simp [Packed, taken, hnone]⟩
  exact (run_inv_along (fun m : Mesh => Kept m.toTables) (fun m e h he => kept_step h e he) m₀ es
    hstart hspared).accounted

def cramped : Mesh :=
  history trusting
    [⟨0, .createOrganization "acme" "Acme"⟩,
     ⟨0, .createNetwork 1 "core" "" [.upTo (.v4 0x0A000000) 30]⟩,
     ⟨0, .createEnrollmentToken 2 (bytes "t") [] 10 100⟩]

def crampedPool : AddressPool :=
  ⟨3, 2, .upTo (.v4 0x0A000000) 30, .ipv4⟩

def enrolling (now : Time) (w : UInt8) : Time × Act :=
  (now, .enrol
    { token := "t", identityPublicKey := List.replicate 32 w, challenge := [], signature := []
      wireGuardPublicKey := Keys.keyText (List.replicate 32 w), name := "host", hostname := "" })

theorem accounted_of_kept_cramped :
    let es := [enrolling 1 7, enrolling 2 8, (3, .revoke 2 6)]
    let m := run (step trusting) cramped es
    Along (step trusting) SparesMembers cramped es ∧
      pickFrom 50 m.toTables crampedPool = .error .exhausted ∧ Accounted m.toTables := by
  intro es m
  have hspared : Along (step trusting) SparesMembers cramped es :=
    ⟨trivial, trivial, trivial, trivial⟩
  refine ⟨hspared, by decide +kernel, ?_⟩
  exact accounted_of_kept trusting cramped (by decide +kernel) (by decide +kernel) es hspared

/-- Two devices that joined and were forgotten have used the network up, long after the quarantine:
it has no members, and no address for one. -/
theorem addresses_lost :
    let es := [enrolling 1 7, (2, .forget 1 5), enrolling 3 8, (4, .forget 1 7)]
    let m := run (step trusting) cramped es
    m.memberships = [] ∧ pickFrom (10 ^ 12) m.toTables crampedPool = .error .exhausted ∧
      ¬Accounted m.toTables := by
  intro es m
  have hrun : m.memberships = [] ∧
      pickFrom (10 ^ 12) m.toTables crampedPool = .error .exhausted ∧
      ∃ r ∈ m.addressAllocations, r.releasedAt = none := by decide +kernel
  obtain ⟨hempty, hrefused, r, hr, hun⟩ := hrun
  refine ⟨hempty, hrefused, fun hall => ?_⟩
  rcases hall.2 r hr with ⟨y, hy, -⟩ | hreleased
  · rw [hempty] at hy
    cases hy
  · exact hreleased hun

end Meshp.Enroll
