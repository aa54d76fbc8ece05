import Mathlib

/-!
# Tables as Lists of Rows

A table is a list of rows in the order they were inserted, a query is a `filter`
or a `find?` over it, and an update is a `map` that rewrites the rows it
matches. The lemmas here say when a write leaves a query's answer alone, and
when an insertion keeps a column's values distinct.
-/

namespace Meshp.Base

variable {α β : Type*}

variable {p q : α → Bool} {a : α} {l : List α} {f : α → β}

theorem mem_concat {b : α} : a ∈ l ++ [b] ↔ a ∈ l ∨ a = b := by
  rw [List.mem_append, List.mem_singleton]

theorem of_find? {p : α → Prop} [DecidablePred p] (h : l.find? (fun a => p a) = some a) :
    a ∈ l ∧ p a :=
  ⟨List.mem_of_find?_eq_some h, by simpa using List.find?_some h⟩

theorem filter_map_eq {f : α → α} (l : List α) (hp : ∀ a ∈ l, p (f a) = p a)
    (hf : ∀ a ∈ l, p a = true → f a = a) : (l.map f).filter p = l.filter p := by
  induction l with
  | nil => rfl
  | cons a l ih =>
    have ih' := ih (fun b hb => hp b (.tail _ hb))
      fun b hb => hf b (.tail _ hb)
    rw [List.map_cons, List.filter_cons, List.filter_cons, hp a (.head _), ih']
    by_cases ha : p a = true
    · rw [if_pos ha, if_pos ha, hf a (.head _) ha]
    · rw [if_neg ha, if_neg ha]

theorem filter_filter_eq (l : List α) (h : ∀ a ∈ l, p a = true → q a = true) :
    (l.filter q).filter p = l.filter p := by
  rw [List.filter_filter]
  refine List.filter_congr fun a ha => ?_
  by_cases hp : p a = true
  · rw [hp, h a ha hp, Bool.and_self]
  · rw [Bool.not_eq_true] at hp
    rw [hp, Bool.false_and]

theorem filter_concat_of_neg (l : List α) (h : p a = false) : (l ++ [a]).filter p = l.filter p := by
  rw [List.filter_append, List.filter_cons_of_neg (by simp [h]), List.filter_nil, List.append_nil]

theorem find?_filter_eq (l : List α) (h : ∀ a ∈ l, p a = true → q a = true) :
    (l.filter q).find? p = l.find? p := by
  induction l with
  | nil => rfl
  | cons a l ih =>
    have ih' := ih fun b hb => h b (.tail _ hb)
    by_cases hq : q a = true
    · rw [List.filter_cons_of_pos hq, List.find?_cons, List.find?_cons, ih']
    · have hp : p a = false := by
        by_contra hp
        exact hq (h a (.head _) (by simpa using hp))
      rw [List.filter_cons_of_neg hq, ih', List.find?_cons, hp]

theorem find?_filter_of_some (h : l.find? p = some a) (hq : q a = true) :
    (l.filter q).find? p = some a := by
  obtain ⟨hp, before, after, hsplit, hbefore⟩ := List.find?_eq_some_iff_append.1 h
  refine List.find?_eq_some_iff_append.2 ⟨hp, before.filter q, after.filter q, ?_, ?_⟩
  · rw [hsplit, List.filter_append, List.filter_cons_of_pos hq]
  · intro b hb
    exact hbefore b (List.mem_of_mem_filter hb)

theorem nodup_map_concat (hl : (l.map f).Nodup) (ha : ∀ b ∈ l, f b ≠ f a) :
    ((l ++ [a]).map f).Nodup := by
  rw [List.map_append, List.nodup_append]
  refine ⟨hl, List.nodup_singleton _, fun x hx y hy hxy => ?_⟩
  rcases List.mem_map.1 hx with ⟨b, hb, rfl⟩
  rw [List.map_singleton, List.mem_singleton] at hy
  exact ha b hb (hxy.trans hy)

theorem find?_of_nodup [DecidableEq β] (hl : (l.map f).Nodup) (ha : a ∈ l) :
    l.find? (fun b => decide (f b = f a)) = some a := by
  cases hfind : l.find? fun b => decide (f b = f a) with
  | none =>
    have hnone := List.find?_eq_none.1 hfind a ha
    simp only [decide_true, not_true_eq_false] at hnone
  | some b =>
    obtain ⟨hmem, hb⟩ := of_find? hfind
    rw [List.inj_on_of_nodup_map hl hmem ha hb]

theorem find?_reverse_of_nodup [DecidableEq β] (hl : (l.map f).Nodup) (b : β) :
    l.reverse.find? (fun a => decide (f a = b)) = l.find? fun a => decide (f a = b) := by
  cases h : l.find? fun a => decide (f a = b) with
  | none =>
    rw [List.find?_eq_none] at h ⊢
    exact fun a ha => h a (List.mem_reverse.1 ha)
  | some a =>
    obtain ⟨hmem, hfa⟩ := of_find? h
    have hl' : (l.reverse.map f).Nodup := by
      rw [List.map_reverse]
      exact List.nodup_reverse.2 hl
    rw [← hfa]
    exact find?_of_nodup hl' (List.mem_reverse.2 hmem)

theorem any_congr_mem (h : ∀ a ∈ l, p a = q a) : l.any p = l.any q := by
  rw [Bool.eq_iff_iff, List.any_eq_true, List.any_eq_true]
  exact exists_congr fun a => and_congr_right fun ha => by rw [h a ha]

theorem any_dedup [DecidableEq α] (l : List α) (q : α → Bool) : l.dedup.any q = l.any q := by
  rw [Bool.eq_iff_iff, List.any_eq_true, List.any_eq_true]
  exact exists_congr fun a => and_congr_left fun _ => List.mem_dedup

section Ordering

variable {κ : Type*} [LinearOrder κ] {r : α → α → Prop} [DecidableRel r] {key : α → κ}

theorem pairwise_sort (hr : ∀ a b, r a b ↔ key a ≤ key b) (l : List α) :
    (l.insertionSort r).Pairwise r := by
  have : Std.Total r := ⟨fun a b => by rw [hr, hr]; exact le_total _ _⟩
  have : IsTrans α r := ⟨fun a b c hab hbc => by rw [hr] at *; exact hab.trans hbc⟩
  exact List.pairwise_insertionSort r l

theorem sort_eq_of_perm (hr : ∀ a b, r a b ↔ key a ≤ key b) {l l' : List α} (h : l'.Perm l)
    (hl : ∀ a ∈ l, ∀ b ∈ l, key a = key b → a = b) :
    l'.insertionSort r = l.insertionSort r := by
  have hperm : (l'.insertionSort r).Perm (l.insertionSort r) :=
    (List.perm_insertionSort r l').trans (h.trans (List.perm_insertionSort r l).symm)
  refine hperm.eq_of_pairwise (fun a b ha hb hab hba => ?_) (pairwise_sort hr l')
    (pairwise_sort hr l)
  refine hl a (h.subset ((List.mem_insertionSort r).1 ha)) b ((List.mem_insertionSort r).1 hb) ?_
  exact le_antisymm ((hr a b).1 hab) ((hr b a).1 hba)

theorem sort_cons (a : α) (l : List α) :
    ∃ before after, l.insertionSort r = before ++ after ∧
      (a :: l).insertionSort r = before ++ a :: after :=
  ⟨_, _, (List.takeWhile_append_dropWhile).symm, List.insertionSort_cons_eq_take_drop r a l⟩

end Ordering

section Selecting

variable {r : α → α → Prop} [DecidableRel r] [IsTrans α r]

theorem filter_orderedInsert (p : α → Bool) (a : α) {l : List α} (hl : l.Pairwise r) :
    (l.orderedInsert r a).filter p =
      if p a = true then (l.filter p).orderedInsert r a else l.filter p := by
  induction l with
  | nil =>
    by_cases ha : p a = true
    · simp only [List.orderedInsert, List.filter_cons_of_pos ha, List.filter_nil, if_pos ha]
    · simp only [List.orderedInsert, List.filter_cons_of_neg ha, List.filter_nil, if_neg ha]
  | cons b l ih =>
    rcases List.pairwise_cons.1 hl with ⟨hb, hl'⟩
    by_cases hab : r a b
    · rw [List.orderedInsert_cons_of_le r l hab]
      by_cases ha : p a = true
      · rw [List.filter_cons_of_pos ha, if_pos ha]
        -- Whatever the filter keeps comes after `b`, and so after `a`.
        have hle : ∀ c ∈ (b :: l).filter p, r a c := by
          intro c hc
          rcases List.mem_cons.1 (List.mem_filter.1 hc).1 with rfl | hc
          · exact hab
          · exact IsTrans.trans _ _ _ hab (hb c hc)
        cases hkept : (b :: l).filter p with
        | nil => rfl
        | cons c kept =>
          rw [List.orderedInsert_cons_of_le r kept (hle c (hkept ▸ (.head _)))]
      · rw [List.filter_cons_of_neg ha, if_neg ha]
    · rw [List.orderedInsert_of_not_le r l hab, List.filter_cons, List.filter_cons, ih hl']
      by_cases hpb : p b = true
      · rw [if_pos hpb, if_pos hpb]
        by_cases ha : p a = true
        · rw [if_pos ha, if_pos ha, List.orderedInsert_of_not_le r _ hab]
        · rw [if_neg ha, if_neg ha]
      · rw [if_neg hpb, if_neg hpb]

theorem filter_sort [Std.Total r] (p : α → Bool) (l : List α) :
    (l.insertionSort r).filter p = (l.filter p).insertionSort r := by
  induction l with
  | nil => rfl
  | cons a l ih =>
    rw [List.insertionSort_cons, filter_orderedInsert p a (List.pairwise_insertionSort r l), ih]
    by_cases ha : p a = true
    · rw [if_pos ha, List.filter_cons_of_pos ha, List.insertionSort_cons]
    · rw [if_neg ha, List.filter_cons_of_neg ha]

end Selecting

end Meshp.Base
