import Mathlib

/-!
# Folding a Delta into a Keyed Table

A client holds a table of rows under their keys. The server holds the rows
themselves and a log that names rows by identifier when they appear and by key
when they go. What the client is sent is worked out at the end, from the log and
the rows that are left, and this module says when folding it into the old table
gives the new one.
-/

namespace Meshp.Base

variable {ρ ι κ ν : Type*}

section Tables

variable [DecidableEq κ]

def insertAll (key : ν → κ) (t : Finmap fun _ : κ => ν) (vs : List ν) : Finmap fun _ : κ => ν :=
  vs.foldl (fun t v => t.insert (key v) v) t

def eraseAll (t : Finmap fun _ : κ => ν) (ks : List κ) : Finmap fun _ : κ => ν :=
  ks.foldl (fun t k => t.erase k) t

theorem lookup_eraseAll (t : Finmap fun _ : κ => ν) (ks : List κ) (k : κ) :
    (eraseAll t ks).lookup k = if k ∈ ks then none else t.lookup k := by
  induction ks generalizing t with
  | nil => simp only [eraseAll, List.foldl_nil, List.not_mem_nil, if_false]
  | cons k' ks ih =>
    have hstep : eraseAll t (k' :: ks) = eraseAll (t.erase k') ks := rfl
    rw [hstep, ih]
    by_cases hmem : k ∈ ks
    · rw [if_pos hmem, if_pos (.tail _ hmem)]
    · rw [if_neg hmem]
      by_cases hk : k = k'
      · rw [hk, Finmap.lookup_erase, if_pos (.head _)]
      · rw [Finmap.lookup_erase_ne hk, if_neg]
        intro h
        rcases List.mem_cons.1 h with h | h
        · exact hk h
        · exact hmem h

theorem eraseAll_empty (ks : List κ) : eraseAll (∅ : Finmap fun _ : κ => ν) ks = ∅ := by
  refine Finmap.ext_lookup fun k => ?_
  rw [lookup_eraseAll, Finmap.lookup_empty, ite_self]

variable {vs : List ν}

theorem lookup_insertAll_of_notMem {key : ν → κ} (t : Finmap fun _ : κ => ν) {k : κ}
    (h : ∀ v ∈ vs, key v ≠ k) : (insertAll key t vs).lookup k = t.lookup k := by
  induction vs generalizing t with
  | nil => rfl
  | cons v vs ih =>
    have hstep : insertAll key t (v :: vs) = insertAll key (t.insert (key v) v) vs := rfl
    rw [hstep, ih _ fun w hw => h w (.tail _ hw),
      Finmap.lookup_insert_of_ne _ (h v (.head _)).symm]

theorem lookup_insertAll_congr {key : ν → κ} {t t' : Finmap fun _ : κ => ν} {k : κ}
    (h : (∀ v ∈ vs, key v ≠ k) → t.lookup k = t'.lookup k) :
    (insertAll key t vs).lookup k = (insertAll key t' vs).lookup k := by
  induction vs generalizing t t' with
  | nil => exact h nofun
  | cons v vs ih =>
    refine ih (h := fun hvs => ?_)
    by_cases hk : key v = k
    · rw [← hk, Finmap.lookup_insert, Finmap.lookup_insert]
    · rw [Finmap.lookup_insert_of_ne _ (Ne.symm hk), Finmap.lookup_insert_of_ne _ (Ne.symm hk)]
      refine h fun w hw => ?_
      rcases List.mem_cons.1 hw with rfl | hw
      · exact hk
      · exact hvs w hw

theorem lookup_insertAll_map {α : Type*} {key : ν → κ} {f g : α → ν} (view : ν → ν)
    (hkey : ∀ a, key (f a) = key (g a)) (hview : ∀ a, view (f a) = view (g a)) (l : List α) (k : κ) :
    ((insertAll key ∅ (l.map f)).lookup k).map view =
      ((insertAll key ∅ (l.map g)).lookup k).map view := by
  have hgen : ∀ (t t' : Finmap fun _ : κ => ν), (t.lookup k).map view = (t'.lookup k).map view →
      ((insertAll key t (l.map f)).lookup k).map view =
        ((insertAll key t' (l.map g)).lookup k).map view := by
    induction l with
    | nil => exact fun _ _ h => h
    | cons a l ih =>
      intro t t' h
      refine ih (t.insert (key (f a)) (f a)) (t'.insert (key (g a)) (g a)) ?_
      rw [hkey a]
      by_cases hk : key (g a) = k
      · rw [← hk, Finmap.lookup_insert, Finmap.lookup_insert, Option.map_some, Option.map_some,
          hview a]
      · rw [Finmap.lookup_insert_of_ne _ (Ne.symm hk), Finmap.lookup_insert_of_ne _ (Ne.symm hk), h]
  exact hgen ∅ ∅ rfl

theorem lookup_insertAll_of_mem {key : ν → κ} (t : Finmap fun _ : κ => ν) {v : ν}
    (hsame : ∀ w ∈ vs, key w = key v → w = v) (hv : v ∈ vs) :
    (insertAll key t vs).lookup (key v) = some v := by
  induction vs generalizing t with
  | nil => cases hv
  | cons w vs ih =>
    have hstep : insertAll key t (w :: vs) = insertAll key (t.insert (key w) w) vs := rfl
    have hsame' : ∀ u ∈ vs, key u = key v → u = v := fun u hu =>
      hsame u (.tail _ hu)
    rw [hstep]
    by_cases hmem : v ∈ vs
    · exact ih _ hsame' hmem
    · -- Nothing after the head is under this key, or it would be `v` again.
      have hwv : w = v := by
        rcases List.mem_cons.1 hv with h | h
        · exact h.symm
        · exact absurd h hmem
      rw [lookup_insertAll_of_notMem, hwv, Finmap.lookup_insert]
      intro u hu hkey
      rw [hsame' u hu hkey] at hu
      exact hmem hu

theorem lookup_insertAll {key : ν → κ} (t : Finmap fun _ : κ => ν)
    (hsame : ∀ v ∈ vs, ∀ w ∈ vs, key w = key v → w = v) (k : κ) (v : ν) :
    (insertAll key t vs).lookup k = some v ↔
      (v ∈ vs ∧ key v = k) ∨ ((∀ w ∈ vs, key w ≠ k) ∧ t.lookup k = some v) := by
  by_cases h : ∃ w ∈ vs, key w = k
  · rcases h with ⟨w, hw, rfl⟩
    rw [lookup_insertAll_of_mem t (hsame w hw) hw, Option.some.injEq]
    constructor
    · rintro rfl
      exact .inl ⟨hw, rfl⟩
    · rintro (⟨hv, hkey⟩ | ⟨hnone, _⟩)
      · exact (hsame w hw v hv hkey).symm
      · exact absurd rfl (hnone w hw)
  · push Not at h
    rw [lookup_insertAll_of_notMem t h]
    constructor
    · exact fun ht => .inr ⟨h, ht⟩
    · rintro (⟨hv, hkey⟩ | ⟨_, ht⟩)
      · exact absurd hkey (h v hv)
      · exact ht

end Tables

/-- A log that names the identifiers `ups` and the keys `rems` explains how `before` became `after`.
-/
structure Explains (id : ρ → ι) (key : ρ → κ) (before after : List ρ) (ups : ι → Prop)
    (rems : κ → Prop) : Prop where
  added : ∀ r ∈ after, r ∈ before ∨ ups (id r)
  gone : ∀ r ∈ before, r ∈ after ∨ rems (key r)
  readded : ∀ r ∈ after, rems (key r) → ups (id r)

variable {id : ρ → ι} {key : ρ → κ} {before mid after : List ρ} {ups ups' : ι → Prop}
  {rems rems' : κ → Prop}

theorem Explains.refl (hrems : ∀ k, ¬rems k) : Explains id key before before ups rems where
  added := fun _ hr => .inl hr
  gone := fun _ hr => .inl hr
  readded := fun _ _ h => absurd h (hrems _)

theorem Explains.restrict {before' after' : List ρ} (h : Explains id key before after ups rems)
    (p : ρ → Prop) (hbefore : ∀ r, r ∈ before' ↔ r ∈ before ∧ p r)
    (hafter : ∀ r, r ∈ after' ↔ r ∈ after ∧ p r) : Explains id key before' after' ups rems where
  added := fun r hr => by
    rcases (hafter r).1 hr with ⟨hr, hp⟩
    rcases h.added r hr with hr | hup
    · exact .inl ((hbefore r).2 ⟨hr, hp⟩)
    · exact .inr hup
  gone := fun r hr => by
    rcases (hbefore r).1 hr with ⟨hr, hp⟩
    rcases h.gone r hr with hr | hrem
    · exact .inl ((hafter r).2 ⟨hr, hp⟩)
    · exact .inr hrem
  readded := fun r hr => h.readded r ((hafter r).1 hr).1

theorem Explains.step (h : Explains id key before mid ups rems)
    (hups : ∀ r ∈ after, ups (id r) → ups' (id r)) (hrems : ∀ k, rems k → rems' k)
    (hadd : ∀ r ∈ after, r ∈ mid ∨ ups' (id r)) (hgone : ∀ r ∈ mid, r ∈ after ∨ rems' (key r))
    (hkept : ∀ r ∈ after, r ∈ mid → rems' (key r) → rems (key r)) :
    Explains id key before after ups' rems' where
  added := fun r hr => by
    rcases hadd r hr with hmid | hup
    · rcases h.added r hmid with hbefore | hup
      · exact .inl hbefore
      · exact .inr (hups r hr hup)
    · exact .inr hup
  gone := fun r hr => by
    rcases h.gone r hr with hmid | hrem
    · exact hgone r hmid
    · exact .inr (hrems _ hrem)
  readded := fun r hr hrem => by
    rcases hadd r hr with hmid | hup
    · exact hups r hr (h.readded r hmid (hkept r hr hmid hrem))
    · exact hup

theorem foldDelta_eq [DecidableEq κ] {view : ρ → ν} {keyOf : ν → κ}
    (h : Explains id key before after ups rems) (hview : ∀ r, keyOf (view r) = key r)
    (hbefore : ∀ r ∈ before, ∀ s ∈ before, key s = key r → s = r)
    (hafter : ∀ r ∈ after, ∀ s ∈ after, key s = key r → s = r) {vs : List ν} {ks : List κ}
    (hvs : ∀ v, v ∈ vs ↔ ∃ r ∈ after, ups (id r) ∧ view r = v)
    (hks : ∀ k, k ∈ ks ↔ rems k ∧ ∀ v ∈ vs, keyOf v ≠ k) :
    insertAll keyOf (eraseAll (insertAll keyOf ∅ (before.map view)) ks) vs =
      insertAll keyOf ∅ (after.map view) := by
  -- Rows with distinct keys become values no two of which disagree about one.
  have hdistinct : ∀ rows : List ρ, (∀ r ∈ rows, ∀ s ∈ rows, key s = key r → s = r) →
      ∀ v ∈ rows.map view, ∀ w ∈ rows.map view, keyOf w = keyOf v → w = v := by
    intro rows hrows v hv w hw hkey
    rcases List.mem_map.1 hv with ⟨r, hr, rfl⟩
    rcases List.mem_map.1 hw with ⟨s, hs, rfl⟩
    rw [hview, hview] at hkey
    rw [hrows r hr s hs hkey]
  have hvsDistinct : ∀ v ∈ vs, ∀ w ∈ vs, keyOf w = keyOf v → w = v := by
    intro v hv w hw hkey
    rcases (hvs v).1 hv with ⟨r, hr, _, rfl⟩
    rcases (hvs w).1 hw with ⟨s, hs, _, rfl⟩
    exact hdistinct after hafter _ (List.mem_map_of_mem hr) _ (List.mem_map_of_mem hs) hkey
  refine Finmap.ext_lookup fun k => Option.ext fun v => ?_
  rw [lookup_insertAll _ hvsDistinct, lookup_insertAll _ (hdistinct after hafter),
    lookup_eraseAll]
  simp only [Finmap.lookup_empty, reduceCtorEq, and_false, or_false]
  constructor
  · rintro (⟨hv, hkey⟩ | ⟨hnone, hlook⟩)
    · rcases (hvs v).1 hv with ⟨r, hr, _, rfl⟩
      exact ⟨List.mem_map_of_mem hr, hkey⟩
    · -- Kept from before: it is still there, or its key would have been deleted.
      split at hlook
      · cases hlook
      rename_i hkeep
      rw [lookup_insertAll _ (hdistinct before hbefore)] at hlook
      simp only [Finmap.lookup_empty, reduceCtorEq, and_false, or_false] at hlook
      rcases hlook with ⟨hv, hkey⟩
      rcases List.mem_map.1 hv with ⟨r, hr, rfl⟩
      rcases h.gone r hr with hr' | hrem
      · exact ⟨List.mem_map_of_mem hr', hkey⟩
      · rw [← hview, hkey] at hrem
        exact absurd ((hks k).2 ⟨hrem, hnone⟩) hkeep
  · rintro ⟨hv, hkey⟩
    rcases List.mem_map.1 hv with ⟨r, hr, rfl⟩
    by_cases hup : ups (id r)
    · exact .inl ⟨(hvs _).2 ⟨r, hr, hup, rfl⟩, hkey⟩
    · -- Not named, so it was there before and no deletion touches its key.
      have hnone : ∀ w ∈ vs, keyOf w ≠ k := by
        intro w hw hwk
        rcases (hvs w).1 hw with ⟨s, hs, hsup, rfl⟩
        have hsr : s = r := hafter r hr s hs (by rw [← hview, ← hview, hwk, hkey])
        rw [hsr] at hsup
        exact hup hsup
      refine .inr ⟨hnone, ?_⟩
      rw [if_neg]
      · rw [lookup_insertAll _ (hdistinct before hbefore)]
        rcases h.added r hr with hr' | hup'
        · exact .inl ⟨List.mem_map_of_mem hr', hkey⟩
        · exact absurd hup' hup
      · intro hk
        have hrem := ((hks k).1 hk).1
        rw [← hkey, hview] at hrem
        exact hup (h.readded r hr hrem)

end Meshp.Base
