import Meshp.Base.Delta

/-!
# Tables That Are Wrong Only Where It Is Known

A client's table may disagree with the truth while changes are under way. It does
no harm as long as every key it is wrong about is one that has yet to be told
about: `Behind` says the table is right wherever a set of keys does not reach. A
delta mends a table when, whatever is written or removed is right, and whatever it
leaves alone was right already, again up to a set of keys that are still to come.
-/

namespace Meshp.Base

variable {κ ν : Type*} [DecidableEq κ] {key : ν → κ} {t truth truth' : Finmap fun _ : κ => ν}
  {since since' upTo upTo' : κ → Prop} {ks : List κ} {vs : List ν} {k : κ}

theorem lookup_insertAll_written (h : ∃ v ∈ vs, key v = k) :
    ∃ v ∈ vs, key v = k ∧ (insertAll key t vs).lookup k = some v := by
  induction vs generalizing t with
  | nil =>
    rcases h with ⟨v, hv, _⟩
    cases hv
  | cons w vs ih =>
    have hstep : insertAll key t (w :: vs) = insertAll key (t.insert (key w) w) vs := rfl
    rw [hstep]
    by_cases hlater : ∃ v ∈ vs, key v = k
    · rcases ih hlater (t := t.insert (key w) w) with ⟨v, hv, hvk, hlook⟩
      exact ⟨v, .tail _ hv, hvk, hlook⟩
    · -- Nothing after the head is under this key, so the head is what stays.
      push Not at hlater
      have hw : key w = k := by
        rcases h with ⟨v, hv, hvk⟩
        rcases List.mem_cons.1 hv with rfl | hv
        · exact hvk
        · exact absurd hvk (hlater v hv)
      refine ⟨w, .head _, hw, ?_⟩
      rw [lookup_insertAll_of_notMem _ hlater, ← hw, Finmap.lookup_insert]

def Behind (t truth : Finmap fun _ : κ => ν) (touched : κ → Prop) : Prop :=
  ∀ k, t.lookup k = truth.lookup k ∨ touched k

/-- A delta that writes `vs` and removes `ks` is right about what it says, up to the keys in `upTo`,
and silent only about keys that are in `upTo` or not in `since`. -/
structure Mends (key : ν → κ) (truth : Finmap fun _ : κ => ν) (since upTo : κ → Prop)
    (ks : List κ) (vs : List ν) : Prop where
  written : ∀ v ∈ vs, truth.lookup (key v) = some v ∨ upTo (key v)
  removed : ∀ k ∈ ks, (∀ v ∈ vs, key v ≠ k) → truth.lookup k = none ∨ upTo k
  unsaid : ∀ k, k ∉ ks → (∀ v ∈ vs, key v ≠ k) → since k → upTo k

theorem Mends.fold (h : Mends key truth since upTo ks vs) (ht : Behind t truth since) :
    Behind (insertAll key (eraseAll t ks) vs) truth upTo := by
  intro k
  by_cases hvs : ∃ v ∈ vs, key v = k
  · rcases lookup_insertAll_written (t := eraseAll t ks) hvs with ⟨v, hv, rfl, hlook⟩
    rw [hlook]
    rcases h.written v hv with hright | hto
    · exact .inl hright.symm
    · exact .inr hto
  · push Not at hvs
    rw [lookup_insertAll_of_notMem _ hvs, lookup_eraseAll]
    by_cases hks : k ∈ ks
    · rw [if_pos hks]
      rcases h.removed k hks hvs with hright | hto
      · exact .inl hright.symm
      · exact .inr hto
    · rw [if_neg hks]
      rcases ht k with hright | hsince
      · exact .inl hright
      · exact .inr (h.unsaid k hks hvs hsince)

theorem Behind.step (h : Behind t truth upTo)
    (hmoved : ∀ k, truth'.lookup k = truth.lookup k ∨ upTo' k) (hkept : ∀ k, upTo k → upTo' k) :
    Behind t truth' upTo' := by
  intro k
  rcases h k with hright | hto
  · rcases hmoved k with hsame | hto
    · exact .inl (hright.trans hsame.symm)
    · exact .inr hto
  · exact .inr (hkept k hto)

theorem Behind.mono (h : Behind t truth upTo) (hle : ∀ k, upTo k → upTo' k) :
    Behind t truth upTo' :=
  h.step (fun _ => .inl rfl) hle

theorem Mends.step (h : Mends key truth since upTo ks vs)
    (hmoved : ∀ k, truth'.lookup k = truth.lookup k ∨ upTo' k) (hkept : ∀ k, upTo k → upTo' k)
    (hsince : ∀ k, since' k → since k ∨ upTo' k) : Mends key truth' since' upTo' ks vs where
  written := fun v hv => by
    rcases h.written v hv with hright | hto
    · rcases hmoved (key v) with hsame | hto
      · exact .inl (hsame.trans hright)
      · exact .inr hto
    · exact .inr (hkept _ hto)
  removed := fun k hk hvs => by
    rcases h.removed k hk hvs with hright | hto
    · rcases hmoved k with hsame | hto
      · exact .inl (hsame.trans hright)
      · exact .inr hto
    · exact .inr (hkept _ hto)
  unsaid := fun k hk hvs hk' => by
    rcases hsince k hk' with hold | hto
    · exact hkept k (h.unsaid k hk hvs hold)
    · exact hto

theorem Behind.eq (h : Behind t truth upTo) (hnone : ∀ k, ¬upTo k) : t = truth := by
  refine Finmap.ext_lookup fun k => ?_
  rcases h k with hright | hto
  · exact hright
  · exact absurd hto (hnone k)

end Meshp.Base
