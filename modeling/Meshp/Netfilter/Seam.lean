import Meshp.Netfilter.Ruleset

/-!
# A Seam in Somebody Else's Chain

An accept in one table cannot undo a drop in another, so a program that needs
packets past a policy it did not write has to put its accept where that policy is.
The usual way is one jump at the end of the other's chain, into a chain of the
program's own that it may then fill as it likes.
-/

namespace Meshp.Netfilter

open Table (addChain append call hasChain jumpDepth modifyChain passes refilled rulesOf)

def jumpTo (name : String) : Rule := { conds := [], verdict := .jump name }

namespace Table

/-- `own` filled with `rules`, and jumped to at the end of `host`. -/
def seam (t : Table) (host own : String) (rules : List Rule) : Table :=
  (t.refilled own rules).append host (jumpTo own)

/-- `t` with no chain `own`, and no jump to it or to `host`. -/
structure Clear (host own : String) (t : Table) : Prop where
  fresh : t.hasChain own = false
  noJump : ∀ c ∈ t.chains, ∀ r ∈ c.rules, r.target? ≠ some host ∧ r.target? ≠ some own

/-- `t` with the policy of `host` turned to accept. -/
def opened (t : Table) (host : String) : Table :=
  t.modifyChain host fun c => { c with base := c.base.map fun b => { b with policy := .accept } }

end Table

section Seam

variable {t : Table} {host own name : String} {rules : List Rule} {p : Packet}

theorem key_seam (t : Table) (host own : String) (rules : List Rule) :
    (t.seam host own rules).key = t.key :=
  key_refilled t own rules

theorem modifyChain_comm (t : Table) {a b : String} (hne : a ≠ b) {f g : Chain → Chain}
    (hf : ∀ c, (f c).name = c.name) (hg : ∀ c, (g c).name = c.name) :
    (t.modifyChain a f).modifyChain b g = (t.modifyChain b g).modifyChain a f := by
  simp only [modifyChain, List.map_map]
  congr 1
  refine List.map_congr_left fun c _ => ?_
  by_cases ha : c.name = a
  · have hb : c.name ≠ b := fun hb => hne (ha.symm.trans hb)
    simp only [Function.comp_apply, ha, if_true, hf, hne, if_false]
  · by_cases hb : c.name = b
    · simp only [Function.comp_apply, hb, if_true, if_false, hg, hne.symm]
    · simp only [Function.comp_apply, ha, hb, if_false]

theorem addChain_of_hasChain {name : String} {base : Option Base} (h : t.hasChain name = true) :
    t.addChain name base = t := by
  simp only [addChain, h, if_true]

theorem refilled_seam (hne : own ≠ host) (rules' : List Rule) :
    (t.seam host own rules).refilled own rules' = t.seam host own rules' := by
  have hhas : (t.seam host own rules).hasChain own = true :=
    (hasChain_modifyChain (f := fun c => { c with rules := c.rules ++ [jumpTo own] }) _ host own
      fun _ => rfl).trans (hasChain_refilled t own rules)
  have hswap := modifyChain_comm (t.refilled own rules) hne.symm
    (f := fun c => { c with rules := c.rules ++ [jumpTo own] })
    (g := fun c => { c with rules := rules' }) (fun _ => rfl) fun _ => rfl
  have honce := modifyChain_modifyChain (t.addChain own none) own
    (f := fun c => { c with rules }) (g := fun c => { c with rules := rules' }) fun _ => rfl
  rw [refilled, addChain_of_hasChain hhas]
  refine hswap.trans ?_
  rw [refilled, honce]
  rfl

theorem chains_seam (hne : own ≠ host) (hfresh : t.hasChain own = false) :
    (t.seam host own rules).chains =
      t.chains.map (fun c => if c.name = host then { c with rules := c.rules ++ [jumpTo own] }
        else c) ++ [⟨own, none, rules⟩] := by
  have hothers : ∀ c ∈ t.chains, ¬c.name = own := by
    simpa only [hasChain, List.any_eq_false, decide_eq_true_eq] using hfresh
  have hmap : t.chains.map (fun c => if c.name = own then { c with rules } else c) = t.chains :=
    (List.map_congr_left fun c hc => if_neg (hothers c hc)).trans (List.map_id _)
  simp only [Table.seam, append, refilled, addChain, hfresh,
    Bool.false_eq_true, if_false, modifyChain, List.map_append, hmap, List.map_cons,
    List.map_nil, if_true, hne]

theorem rulesOf_modifyChain_ne {name name' : String} (hne : name' ≠ name) {f : Chain → Chain}
    (hf : ∀ c, (f c).name = c.name) :
    (t.modifyChain name f).rulesOf name' = t.rulesOf name' := by
  rcases t with ⟨k, cs⟩
  simp only [rulesOf, modifyChain]
  induction cs with
  | nil => rfl
  | cons c cs ih =>
    by_cases hc : c.name = name
    · simp only [List.map_cons, hc, if_true, List.find?_cons, hf, hne.symm, decide_false, ih]
    · by_cases hc' : c.name = name'
      · simp only [List.map_cons, List.find?_cons, hc', hne, if_false, decide_true]
      · simp only [List.map_cons, List.find?_cons, hc, hc', if_false, decide_false, ih]

theorem rulesOf_addChain (t : Table) {name name' : String} (hne : name' ≠ name)
    (base : Option Base) : (t.addChain name base).rulesOf name' = t.rulesOf name' := by
  unfold addChain
  cases h : t.hasChain name with
  | true => simp only [if_true]
  | false =>
    simp only [Bool.false_eq_true, if_false, rulesOf, List.find?_append, List.find?_cons,
      hne.symm, decide_false, List.find?_nil, Option.or_none]

theorem hasChain_refilled_ne (t : Table) (hown : name ≠ own) (rules : List Rule) :
    (t.refilled own rules).hasChain name = t.hasChain name := by
  have hadd : (t.addChain own none).hasChain name = t.hasChain name := by
    unfold addChain
    cases h : t.hasChain own with
    | true => simp only [if_true]
    | false => simp [hasChain, hown.symm]
  exact (hasChain_modifyChain (f := fun c => { c with rules }) _ own name fun _ => rfl).trans hadd

theorem rulesOf_refilled (t : Table) (hown : name ≠ own) (rules : List Rule) :
    (t.refilled own rules).rulesOf name = t.rulesOf name :=
  (rulesOf_modifyChain_ne (f := fun c => { c with rules }) hown fun _ => rfl).trans
    (rulesOf_addChain t hown none)

theorem hasChain_seam_host (hne : own ≠ host) :
    (t.seam host own rules).hasChain host = t.hasChain host :=
  (hasChain_modifyChain (f := fun c => { c with rules := c.rules ++ [jumpTo own] }) _ host host
    fun _ => rfl).trans (hasChain_refilled_ne t hne.symm rules)

theorem jump_mem_seam (h : (t.refilled own rules).hasChain host = true) :
    jumpTo own ∈ (t.seam host own rules).rulesOf host := by
  generalize hr : t.refilled own rules = r at h
  rcases r with ⟨k, cs⟩
  simp only [Table.seam, hr, append, modifyChain, rulesOf]
  simp only [hasChain] at h
  clear hr
  induction cs with
  | nil => cases h
  | cons c cs ih =>
    by_cases hc : c.name = host
    · simp [hc]
    · simp only [List.any_cons, hc, decide_false, Bool.false_or] at h
      simp only [List.map_cons, hc, if_false, List.find?_cons, decide_false]
      exact ih h

theorem rulesOf_seam (hhost : name ≠ host) (hown : name ≠ own) :
    (t.seam host own rules).rulesOf name = t.rulesOf name :=
  (rulesOf_modifyChain_ne (f := fun c => { c with rules := c.rules ++ [jumpTo own] }) hhost
    fun _ => rfl).trans (rulesOf_refilled t hown rules)

theorem rulesOf_seam_own (hne : own ≠ host) (hfresh : t.hasChain own = false) :
    (t.seam host own rules).rulesOf own = rules := by
  have hothers : (t.chains.map (fun c => if c.name = host then
      { c with rules := c.rules ++ [jumpTo own] } else c)).find? (·.name = own) = none := by
    simp only [List.find?_eq_none, List.mem_map, decide_eq_true_eq]
    rintro _ ⟨c, hc, rfl⟩
    have hname : ¬c.name = own := by
      simp only [hasChain, List.any_eq_false, decide_eq_true_eq] at hfresh
      exact hfresh c hc
    by_cases h : c.name = host
    · simp only [h, if_true, hne.symm, not_false_eq_true]
    · simp only [h, if_false, hname, not_false_eq_true]
  simp only [rulesOf, chains_seam hne hfresh, List.find?_append, hothers, Option.none_or,
    List.find?_cons, decide_true, Option.map_some, Option.getD_some]

theorem mem_rulesOf {name : String} {r : Rule} (h : r ∈ t.rulesOf name) :
    ∃ c ∈ t.chains, r ∈ c.rules := by
  simp only [rulesOf] at h
  cases hc : t.chains.find? (·.name = name) with
  | none => simp only [hc, Option.map_none, Option.getD_none, List.not_mem_nil] at h
  | some c =>
    simp only [hc, Option.map_some, Option.getD_some] at h
    exact ⟨c, List.mem_of_find?_eq_some hc, h⟩

theorem call_seam (h : t.Clear host own) (depth : Nat) (hhost : name ≠ host) (hown : name ≠ own) :
    (t.seam host own rules).call p depth name = t.call p depth name := by
  induction depth generalizing name with
  | zero => rfl
  | succ depth ih =>
    simp only [call, rulesOf_seam hhost hown]
    refine decideRules_congr _ fun r hr c hc => ?_
    rcases mem_rulesOf hr with ⟨d, hd, hrd⟩
    have hjump := h.noJump d hd r hrd
    rw [hc] at hjump
    exact ih (fun e => hjump.1 (congrArg some e)) fun e => hjump.2 (congrArg some e)

variable {c : Chain}

theorem decideRules_seam (h : t.Clear host own) (depth : Nat) (hc : c ∈ t.chains) :
    decideRules ((t.seam host own rules).call p depth) p c.rules =
      decideRules (t.call p depth) p c.rules := by
  refine decideRules_congr _ fun r hr name hname => ?_
  have hjump := h.noJump c hc r hr
  rw [hname] at hjump
  exact call_seam h depth (fun e => hjump.1 (congrArg some e)) fun e => hjump.2 (congrArg some e)

theorem outcome_seam (h : t.Clear host own) (hc : c ∈ t.chains) :
    (t.seam host own rules).outcome p c = t.outcome p c :=
  decideRules_seam h _ hc

theorem outcome_seam_host (hne : own ≠ host) (h : t.Clear host own)
    (haccept : ∀ r ∈ rules, r.verdict = .act .accept) (hc : c ∈ t.chains) :
    (t.seam host own rules).outcome p { c with rules := c.rules ++ [jumpTo own] } =
      (t.outcome p c).or (if rules.any (·.hits p) then some .accept else none) := by
  have hjump : decideRules ((t.seam host own rules).call p jumpDepth) p [jumpTo own] =
      if rules.any (·.hits p) then some .accept else none := by
    simp only [decideRules, jumpTo, Rule.hits, List.all_nil, if_true, Option.or_none,
      jumpDepth, call, rulesOf_seam_own hne h.fresh]
    exact decideRules_uniform .accept rules haccept
  rw [Table.outcome, decideRules_append, decideRules_seam h _ hc, hjump]
  rfl

theorem opened_of_not_hasChain (h : t.hasChain host = false) : t.opened host = t := by
  rcases t with ⟨k, cs⟩
  simp only [hasChain, List.any_eq_false, decide_eq_true_eq] at h
  simp only [Table.opened, modifyChain]
  congr 1
  exact (List.map_congr_left fun c hc => if_neg (h c hc)).trans (List.map_id cs)

theorem rulesOf_opened : (t.opened host).rulesOf name = t.rulesOf name := by
  rcases t with ⟨k, cs⟩
  simp only [rulesOf, Table.opened, modifyChain]
  induction cs with
  | nil => rfl
  | cons c cs ih =>
    by_cases hc : c.name = host <;> by_cases hn : c.name = name <;>
      simp_all

theorem call_opened (depth : Nat) (name : String) :
    (t.opened host).call p depth name = t.call p depth name := by
  induction depth generalizing name with
  | zero => rfl
  | succ depth ih =>
    simp only [call, rulesOf_opened]
    exact decideRules_congr _ fun _ _ c _ => ih c

theorem outcome_opened (c : Chain) : (t.opened host).outcome p c = t.outcome p c :=
  decideRules_congr _ fun _ _ name _ => call_opened jumpDepth name

theorem all_map_congr {α β : Type} {l : List α} {g : α → β} {f : α → Bool} {f' : β → Bool}
    (h : ∀ a ∈ l, f' (g a) = f a) : (l.map g).all f' = l.all f := by
  rw [List.all_map, Bool.eq_iff_iff, List.all_eq_true, List.all_eq_true]
  exact forall₂_congr fun a ha => by rw [Function.comp_apply, h a ha]

theorem any_map_congr {α β : Type} {l : List α} {g : α → β} {f : α → Bool} {f' : β → Bool}
    (h : ∀ a ∈ l, f' (g a) = f a) : (l.map g).any f' = l.any f := by
  rw [List.any_map, Bool.eq_iff_iff, List.any_eq_true, List.any_eq_true]
  exact exists_congr fun a => and_congr_right fun ha => by rw [Function.comp_apply, h a ha]

theorem lets_seam_host (hne : own ≠ host) (h : t.Clear host own)
    (haccept : ∀ r ∈ rules, r.verdict = .act .accept) (hc : c ∈ t.chains) (b : Base) :
    (t.seam host own rules).lets p { c with rules := c.rules ++ [jumpTo own] } b =
      if rules.any (·.hits p) then t.lets p c { b with policy := .accept } else t.lets p c b := by
  simp only [Table.lets, outcome_seam_host hne h haccept hc]
  cases hhit : rules.any (·.hits p) with
  | true => rcases t.outcome p c with _ | _ | _ | _ <;> rfl
  | false => simp only [Bool.false_eq_true, if_false, Option.or_none]

theorem passes_seam (hne : own ≠ host) (h : t.Clear host own)
    (haccept : ∀ r ∈ rules, r.verdict = .act .accept) (hook : Hook) :
    (t.seam host own rules).passes hook p =
      if rules.any (·.hits p) then (t.opened host).passes hook p else t.passes hook p := by
  have hchains : (t.seam host own rules).passes hook p = t.chains.all fun c => c.base.all fun b =>
      !b.sees t.key.family hook p || if c.name = host ∧ rules.any (·.hits p) then
        t.lets p c { b with policy := .accept } else t.lets p c b := by
    rw [passes, chains_seam hne h.fresh, List.all_append, key_seam]
    simp only [List.all_cons, List.all_nil, Option.all_none, Bool.and_true]
    refine all_map_congr fun c hc => ?_
    by_cases hname : c.name = host
    · rw [if_pos hname]
      simp only [lets_seam_host hne h haccept hc, and_iff_right hname]
    · rw [if_neg hname]
      simp only [Table.lets, outcome_seam h hc, hname, false_and, if_false]
  rw [hchains]
  cases hhit : rules.any (·.hits p) with
  | true =>
    refine (all_map_congr fun c _ => ?_).symm
    by_cases hname : c.name = host
    · rw [if_pos hname]
      simp only [Option.all_map, and_iff_right hname, if_true, Table.lets, outcome_opened]
      rfl
    · rw [if_neg hname]
      simp only [hname, false_and, if_false, Table.lets, outcome_opened]
      rfl
  | false => simp only [Bool.false_eq_true, and_false, if_false, passes]

theorem rewrites_seam (hne : own ≠ host) (h : t.Clear host own)
    (haccept : ∀ r ∈ rules, r.verdict = .act .accept) (how : Rewrite) :
    (t.seam host own rules).rewrites p how = t.rewrites p how := by
  rw [Table.rewrites, chains_seam hne h.fresh, List.any_append, key_seam]
  simp only [List.any_cons, List.any_nil, Option.any_none, Bool.or_false]
  refine any_map_congr fun c hc => ?_
  by_cases hname : c.name = host
  · rw [if_pos hname]
    simp only [outcome_seam_host hne h haccept hc]
    cases rules.any (·.hits p) <;> cases t.outcome p c <;> simp
  · rw [if_neg hname]
    simp only [outcome_seam h hc]

theorem passes_modify_seam {rs : Ruleset} {k : Key} (hne : own ≠ host)
    (h : ∀ t ∈ rs, t.key = k → t.Clear host own)
    (haccept : ∀ r ∈ rules, r.verdict = .act .accept) (hook : Hook) :
    (rs.modify k (·.seam host own rules)).passes hook p =
      if rules.any (·.hits p) then (rs.modify k (·.opened host)).passes hook p
      else rs.passes hook p := by
  have htables : (rs.modify k (·.seam host own rules)).passes hook p = rs.all fun t =>
      if t.key = k ∧ rules.any (·.hits p) then (t.opened host).passes hook p
      else t.passes hook p := by
    refine all_map_congr fun t ht => ?_
    by_cases hk : t.key = k
    · rw [if_pos hk]
      simp only [passes_seam hne (h t ht hk) haccept, and_iff_right hk]
    · simp only [hk, false_and, if_false]
  rw [htables]
  cases hhit : rules.any (·.hits p) with
  | true =>
    refine (all_map_congr fun t _ => ?_).symm
    by_cases hk : t.key = k
    · rw [if_pos hk]
      simp only [and_iff_right hk, if_true]
    · simp only [hk, false_and, if_false]
  | false => simp only [Bool.false_eq_true, and_false, if_false, Ruleset.passes]

theorem rewrites_modify_seam {rs : Ruleset} {k : Key} (hne : own ≠ host)
    (h : ∀ t ∈ rs, t.key = k → t.Clear host own)
    (haccept : ∀ r ∈ rules, r.verdict = .act .accept) (how : Rewrite) :
    (rs.modify k (·.seam host own rules)).rewrites p how = rs.rewrites p how := by
  refine any_map_congr fun t ht => ?_
  by_cases hk : t.key = k
  · rw [if_pos hk]
    exact rewrites_seam hne (h t ht hk) haccept how
  · rw [if_neg hk]

end Seam

end Meshp.Netfilter
