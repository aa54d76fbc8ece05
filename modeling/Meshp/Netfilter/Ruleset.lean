import Meshp.Netfilter.Chain

/-!
# Rulesets and Scripts

All the tables of a host, what they come to for a packet, and the commands that
change them. Every base chain at a hook runs, and a drop in any of them ends the
packet, so a packet passes a hook when no chain of no table stops it there; that
is a conjunction over the tables, and it splits wherever the ruleset does.
-/

namespace Meshp.Netfilter

open Function (comp_apply)
open List (append_assoc append_nil map_append map_congr_left map_cons map_id map_map map_nil)
open Option (all_none bind_some)

def TableFamily.sees : TableFamily → Packet → Bool
  | inet, _ => true
  | ip, p => p.src.is4
  | ip6, p => !p.src.is4

def Base.sees (b : Base) (family : TableFamily) (hook : Hook) (p : Packet) : Bool :=
  decide (b.hook = hook) && family.sees p && (decide (b.type = .filter) || decide (p.ct = .new))

namespace Table

def lets (t : Table) (p : Packet) (c : Chain) (b : Base) : Bool :=
  match t.outcome p c with
  | some .drop => false
  | some .reject => false
  | some _ => true
  | none => decide (b.policy = .accept)

def passes (t : Table) (hook : Hook) (p : Packet) : Bool :=
  t.chains.all fun c => c.base.all fun b => !b.sees t.key.family hook p || t.lets p c b

def rewrites (t : Table) (p : Packet) (how : Rewrite) : Bool :=
  t.chains.any fun c => c.base.any fun b =>
    decide (b.type = .nat) && b.sees t.key.family .postrouting p &&
      decide (t.outcome p c = some (.rewrite how))

def hasChain (t : Table) (name : String) : Bool :=
  t.chains.any (·.name = name)

def modifyChain (t : Table) (name : String) (f : Chain → Chain) : Table :=
  { t with chains := t.chains.map fun c => if c.name = name then f c else c }

/-- `add chain`: one that is already there stays. -/
def addChain (t : Table) (name : String) (base : Option Base) : Table :=
  if t.hasChain name then t else { t with chains := t.chains ++ [⟨name, base, []⟩] }

/-- `flush chain`. -/
def flush (t : Table) (name : String) : Table :=
  t.modifyChain name fun c => { c with rules := [] }

/-- `add rule`: at the end of its chain. -/
def append (t : Table) (name : String) (r : Rule) : Table :=
  t.modifyChain name fun c => { c with rules := c.rules ++ [r] }

end Table

abbrev Ruleset := List Table

namespace Ruleset

def passes (rs : Ruleset) (hook : Hook) (p : Packet) : Bool :=
  rs.all (·.passes hook p)

def rewrites (rs : Ruleset) (p : Packet) (how : Rewrite) : Bool :=
  rs.any (·.rewrites p how)

def named (rs : Ruleset) (k : Key) : Ruleset :=
  rs.filter (·.key = k)

def without (rs : Ruleset) (k : Key) : Ruleset :=
  rs.filter (·.key ≠ k)

def has (rs : Ruleset) (k : Key) : Bool :=
  rs.any (·.key = k)

def hasChain (rs : Ruleset) (k : Key) (name : String) : Bool :=
  rs.any fun t => decide (t.key = k) && t.hasChain name

def modify (rs : Ruleset) (k : Key) (f : Table → Table) : Ruleset :=
  rs.map fun t => if t.key = k then f t else t

end Ruleset

inductive Command
  | addTable (table : Key)
  | deleteTable (table : Key)
  | addChain (table : Key) (chain : String) (base : Option Base)
  | flushChain (table : Key) (chain : String)
  | addRule (table : Key) (chain : String) (rule : Rule)

namespace Command

def run (rs : Ruleset) : Command → Option Ruleset
  | addTable k => some (if rs.has k then rs else rs ++ [⟨k, []⟩])
  | deleteTable k => if rs.has k then some (rs.without k) else none
  | addChain k name base =>
    if rs.has k then some (rs.modify k (·.addChain name base)) else none
  | flushChain k name =>
    if rs.hasChain k name then some (rs.modify k (·.flush name)) else none
  | addRule k name r =>
    if rs.hasChain k name && r.target?.all (rs.hasChain k) then
      some (rs.modify k (·.append name r))
    else none

end Command

/-- `nft -f`: all the commands, or none of them. -/
def load : Ruleset → List Command → Option Ruleset
  | rs, [] => some rs
  | rs, c :: cs => (c.run rs).bind (load · cs)

/-- `nft -f` on lines of text, one of which may be no command it can read. -/
def loadLines (rs : Ruleset) (lines : List (Option Command)) : Option Ruleset :=
  (lines.mapM id).bind (load rs)

def remove (k : Key) : List Command :=
  [.addTable k, .deleteTable k]

def Chain.script (k : Key) (c : Chain) : List Command :=
  .addChain k c.name c.base :: c.rules.map (.addRule k c.name)

def Table.script (t : Table) : List Command :=
  .addTable t.key :: t.chains.flatMap (Chain.script t.key)

def refill (k : Key) (name : String) (rules : List Rule) : List Command :=
  .addChain k name none :: .flushChain k name :: rules.map (.addRule k name)

def Table.refilled (t : Table) (name : String) (rules : List Rule) : Table :=
  (t.addChain name none).modifyChain name fun c => { c with rules }

namespace Ruleset

variable {rs rs' : Ruleset} {k k' : Key} {p : Packet}

theorem passes_split (rs : Ruleset) (k : Key) (hook : Hook) :
    rs.passes hook p = ((rs.without k).passes hook p && (rs.named k).passes hook p) := by
  induction rs with
  | nil => rfl
  | cons t rs ih =>
    by_cases h : t.key = k <;>
      simp_all [passes, without, named, Bool.and_left_comm, Bool.and_assoc]

theorem rewrites_split (rs : Ruleset) (k : Key) (how : Rewrite) :
    rs.rewrites p how = ((rs.without k).rewrites p how || (rs.named k).rewrites p how) := by
  induction rs with
  | nil => rfl
  | cons t rs ih =>
    by_cases h : t.key = k <;>
      simp_all [rewrites, without, named, Bool.or_left_comm, Bool.or_assoc]

@[simp]
theorem named_append : (rs ++ rs').named k = rs.named k ++ rs'.named k :=
  List.filter_append ..

@[simp]
theorem without_append : (rs ++ rs').without k = rs.without k ++ rs'.without k :=
  List.filter_append ..

@[simp]
theorem named_without_self : (rs.without k).named k = [] := by
  simp [named, without]

theorem named_without (h : k' ≠ k) : (rs.without k).named k' = rs.named k' := by
  simp only [named, without, List.filter_filter]
  refine List.filter_congr fun t _ => ?_
  by_cases ht : t.key = k'
  · simp [ht, h]
  · simp [ht]

@[simp]
theorem without_without_self : (rs.without k).without k = rs.without k := by
  simp [without]

theorem without_comm : (rs.without k).without k' = (rs.without k').without k := by
  simp only [without, List.filter_filter, Bool.and_comm]

theorem without_of_named_nil (h : rs.named k = []) : rs.without k = rs := by
  simp only [named, List.filter_eq_nil_iff, decide_eq_true_eq] at h
  simp only [without, List.filter_eq_self, decide_eq_true_eq]
  exact h

theorem has_iff : rs.has k = true ↔ rs.named k ≠ [] := by
  simp [has, named]

@[simp]
theorem named_table (t : Table) : named [t] t.key = [t] := by
  simp [named]

@[simp]
theorem without_table (t : Table) : without [t] t.key = [] := by
  simp [without]

/-- Tables of one key in the place of those there were. -/
theorem replaced (rs : Ruleset) {ts : Ruleset} (hts : ∀ t ∈ ts, t.key = k) :
    (rs.without k ++ ts).named k = ts ∧ (rs.without k ++ ts).without k = rs.without k ∧
      ∀ k' ≠ k, (rs.without k ++ ts).named k' = rs.named k' := by
  have hnamed : ts.named k = ts := List.filter_eq_self.2 fun t ht => by simp [hts t ht]
  have hwithout : ts.without k = [] := List.filter_eq_nil_iff.2 fun t ht => by simp [hts t ht]
  refine ⟨?_, ?_, fun k' hk => ?_⟩
  · rw [named_append, named_without_self, hnamed, List.nil_append]
  · rw [without_append, without_without_self, hwithout, append_nil]
  · have hother : ts.named k' = [] :=
      List.filter_eq_nil_iff.2 fun t ht => by simp [hts t ht, hk.symm]
    rw [named_append, named_without hk, hother, append_nil]

section Modify

variable {f g : Table → Table}

theorem modify_of_named_nil (h : rs.named k = []) : rs.modify k f = rs := by
  simp only [named, List.filter_eq_nil_iff, decide_eq_true_eq] at h
  calc rs.modify k f = rs.map id := map_congr_left fun t ht => if_neg (h t ht)
    _ = rs := map_id rs

theorem modify_last (h : rs.named k = []) {t : Table} (ht : t.key = k) :
    Ruleset.modify (rs ++ [t]) k f = rs ++ [f t] := by
  have hrs : rs.modify k f = rs := modify_of_named_nil h
  simp only [modify] at hrs ⊢
  simp only [map_append, hrs, map_cons, map_nil, ht, if_true]

theorem modify_modify (hf : ∀ t, (f t).key = t.key) :
    (rs.modify k f).modify k g = rs.modify k fun t => g (f t) := by
  simp only [modify, map_map]
  refine map_congr_left fun t _ => ?_
  by_cases hk : t.key = k
  · simp only [comp_apply, hk, if_true, hf]
  · simp only [comp_apply, hk, if_false]

theorem named_modify_ne (hf : ∀ t, (f t).key = t.key) (h : k' ≠ k) :
    (rs.modify k f).named k' = rs.named k' := by
  induction rs with
  | nil => rfl
  | cons t rs ih =>
    simp only [named, modify] at ih ⊢
    by_cases hk : t.key = k
    · simp [hk, hf, h.symm, ih]
    · by_cases hk' : t.key = k' <;> simp [hk, hk', ih, h]

theorem named_modify_self (hf : ∀ t, (f t).key = t.key) :
    (rs.modify k f).named k = (rs.named k).map f := by
  induction rs with
  | nil => rfl
  | cons t rs ih =>
    simp only [named, modify] at ih ⊢
    by_cases hk : t.key = k
    · simp [hk, hf, ih]
    · simp [hk, ih]

theorem without_modify (hf : ∀ t, (f t).key = t.key) :
    (rs.modify k f).without k' = (rs.without k').modify k f := by
  simp only [without, modify, List.filter_map]
  refine congrArg _ (List.filter_congr fun t _ => ?_)
  by_cases hk : t.key = k
  · simp only [comp_apply, hk, if_true, hf]
  · simp only [comp_apply, hk, if_false]

theorem hasChain_modify (hf : ∀ t, (f t).key = t.key) {name : String} (hhas : rs.has k = true)
    (hname : ∀ t, (f t).hasChain name = true) : (rs.modify k f).hasChain k name = true := by
  simp only [has, List.any_eq_true, decide_eq_true_eq] at hhas
  rcases hhas with ⟨t, ht, hk⟩
  simp only [hasChain, List.any_eq_true, Bool.and_eq_true, decide_eq_true_eq]
  refine ⟨f t, List.mem_map.2 ⟨t, ht, by simp only [hk, if_true]⟩, by rw [hf, hk], hname t⟩

end Modify

end Ruleset

section Load

open Ruleset

variable {rs : Ruleset} {k : Key} {name : String}

theorem load_append (rs : Ruleset) (cs cs' : List Command) :
    load rs (cs ++ cs') = (load rs cs).bind (load · cs') := by
  induction cs generalizing rs with
  | nil => rfl
  | cons c cs ih =>
    simp only [List.cons_append, load, ih, Option.bind_assoc]

theorem load_remove (rs : Ruleset) (k : Key) : load rs (remove k) = some (rs.without k) := by
  cases h : rs.has k with
  | true => simp only [remove, load, Command.run, h, if_true, bind_some]
  | false =>
    have hhas : Ruleset.has (rs ++ [⟨k, []⟩]) k = true := by simp [has]
    have hlast : Ruleset.without [⟨k, []⟩] k = [] := without_table ⟨k, []⟩
    simp only [remove, load, Command.run, h, Bool.false_eq_true, if_false, bind_some,
      hhas, if_true, without_append, hlast, append_nil]

theorem modifyChain_last {cs : List Chain} {c : Chain} (hname : ∀ c' ∈ cs, c'.name ≠ c.name)
    (f : Chain → Chain) :
    Table.modifyChain ⟨k, cs ++ [c]⟩ c.name f = ⟨k, cs ++ [f c]⟩ := by
  have hothers : cs.map (fun c' => if c'.name = c.name then f c' else c') = cs :=
    (map_congr_left fun c' hc' => if_neg (hname c' hc')).trans (map_id cs)
  simp only [Table.modifyChain, map_append, hothers, map_cons, map_nil, if_true]

theorem load_rules (hk : rs.named k = []) (cs : List Chain) (base : Option Base)
    (hname : ∀ c ∈ cs, c.name ≠ name) (rules todo : List Rule)
    (hact : ∀ r ∈ todo, r.target? = none) :
    load (rs ++ [⟨k, cs ++ [⟨name, base, rules⟩]⟩]) (todo.map (.addRule k name)) =
      some (rs ++ [⟨k, cs ++ [⟨name, base, rules ++ todo⟩]⟩]) := by
  induction todo generalizing rules with
  | nil => simp only [map_nil, load, append_nil]
  | cons r todo ih =>
    have hhas : Ruleset.hasChain (rs ++ [⟨k, cs ++ [⟨name, base, rules⟩]⟩]) k name = true := by
      simp [Ruleset.hasChain, Table.hasChain]
    have hrun : Command.run (rs ++ [⟨k, cs ++ [⟨name, base, rules⟩]⟩]) (.addRule k name r) =
        some (rs ++ [⟨k, cs ++ [⟨name, base, rules ++ [r]⟩]⟩]) := by
      simp only [Command.run, hhas, hact r (.head _), all_none, Bool.and_self,
        if_true, modify_last hk, Table.append]
      rw [modifyChain_last (c := ⟨name, base, rules⟩) hname]
    simp only [map_cons, load, hrun, bind_some]
    rw [ih (rules ++ [r]) fun r' hr' => hact r' (.tail _ hr')]
    simp only [append_assoc, List.singleton_append]

theorem load_chain (hk : rs.named k = []) (cs : List Chain) (c : Chain)
    (hname : ∀ c' ∈ cs, c'.name ≠ c.name) (hact : ∀ r ∈ c.rules, r.target? = none) :
    load (rs ++ [⟨k, cs⟩]) (c.script k) = some (rs ++ [⟨k, cs ++ [c]⟩]) := by
  have hhas : Ruleset.has (rs ++ [⟨k, cs⟩]) k = true := by simp [Ruleset.has]
  have hnot : Table.hasChain ⟨k, cs⟩ c.name = false := by
    simp only [Table.hasChain, List.any_eq_false, decide_eq_true_eq]
    exact hname
  simp only [Chain.script, load, Command.run, hhas, if_true, bind_some, modify_last hk,
    Table.addChain, hnot, Bool.false_eq_true, if_false]
  rw [load_rules hk cs c.base hname [] c.rules hact, List.nil_append]

theorem load_chains (hk : rs.named k = []) (cs todo : List Chain)
    (hname : ((cs ++ todo).map Chain.name).Nodup)
    (hact : ∀ c ∈ todo, ∀ r ∈ c.rules, r.target? = none) :
    load (rs ++ [⟨k, cs⟩]) (todo.flatMap (Chain.script k)) = some (rs ++ [⟨k, cs ++ todo⟩]) := by
  induction todo generalizing cs with
  | nil => simp only [List.flatMap_nil, load, append_nil]
  | cons c todo ih =>
    have hfresh : ∀ c' ∈ cs, c'.name ≠ c.name := by
      rw [map_append, List.nodup_append] at hname
      intro c' hc'
      exact hname.2.2 _ (List.mem_map_of_mem hc') _ (by simp)
    rw [List.flatMap_cons, load_append,
      load_chain hk cs c hfresh (hact c (.head _)), bind_some,
      ih (cs ++ [c]) (by simpa using hname) fun c' hc' => hact c' (.tail _ hc')]
    simp only [append_assoc, List.singleton_append]

theorem load_replace (rs : Ruleset) (t : Table) (hname : (t.chains.map Chain.name).Nodup)
    (hact : ∀ c ∈ t.chains, ∀ r ∈ c.rules, r.target? = none) :
    load rs (remove t.key ++ t.script) = some (rs.without t.key ++ [t]) := by
  have hk : (rs.without t.key).named t.key = [] := named_without_self
  have hhas : (rs.without t.key).has t.key = false := by
    rw [← Bool.not_eq_true, has_iff, not_not]
    exact hk
  rw [load_append, load_remove, bind_some, Table.script, load]
  simp only [Command.run, hhas, Bool.false_eq_true, if_false, bind_some]
  rw [load_chains hk [] t.chains (by simpa using hname) hact, List.nil_append]

variable (t : Table)

theorem hasChain_addChain (name : String) (base : Option Base) :
    (t.addChain name base).hasChain name = true := by
  unfold Table.addChain
  cases h : t.hasChain name with
  | true => simp only [if_true, h]
  | false => simp [Table.hasChain]

theorem hasChain_modifyChain (name name' : String) {f : Chain → Chain}
    (hf : ∀ c, (f c).name = c.name) :
    (t.modifyChain name f).hasChain name' = t.hasChain name' := by
  simp only [Table.hasChain, Table.modifyChain, List.any_map]
  congr 1
  funext c
  by_cases hc : c.name = name
  · simp only [comp_apply, hc, if_true, hf]
  · simp only [comp_apply, hc, if_false]

theorem modifyChain_modifyChain (name : String) {f g : Chain → Chain}
    (hf : ∀ c, (f c).name = c.name) :
    (t.modifyChain name f).modifyChain name g = t.modifyChain name fun c => g (f c) := by
  simp only [Table.modifyChain, map_map]
  congr 1
  refine map_congr_left fun c _ => ?_
  by_cases hc : c.name = name
  · simp only [comp_apply, hc, if_true, hf]
  · simp only [comp_apply, hc, if_false]

theorem key_addChain (name : String) (base : Option Base) :
    (t.addChain name base).key = t.key := by
  unfold Table.addChain
  cases h : t.hasChain name <;> rfl

theorem key_refilled (name : String) (rules : List Rule) :
    (t.refilled name rules).key = t.key :=
  key_addChain t name none

theorem hasChain_refilled (name : String) (rules : List Rule) :
    (t.refilled name rules).hasChain name = true :=
  (hasChain_modifyChain (f := fun c => { c with rules }) _ name name fun _ => rfl).trans
    (hasChain_addChain t name none)

theorem hasChain_named (rs : Ruleset) (k : Key) (name : String) :
    rs.hasChain k name = (rs.named k).any (·.hasChain name) := by
  simp only [Ruleset.hasChain, Ruleset.named, List.any_filter]

theorem load_refill_rules (hhas : rs.has k = true) (name : String) (rules todo : List Rule)
    (hact : ∀ r ∈ todo, r.target? = none) :
    load (rs.modify k (·.refilled name rules)) (todo.map (.addRule k name)) =
      some (rs.modify k (·.refilled name (rules ++ todo))) := by
  induction todo generalizing rules with
  | nil => simp only [map_nil, load, append_nil]
  | cons r todo ih =>
    have hchain : (rs.modify k (·.refilled name rules)).hasChain k name = true :=
      hasChain_modify (fun t => key_refilled t name rules) hhas
        fun t => hasChain_refilled t name rules
    have hmore : ∀ t : Table, (t.refilled name rules).append name r =
        t.refilled name (rules ++ [r]) := fun t => modifyChain_modifyChain _ _ fun _ => rfl
    simp only [map_cons, load, Command.run, hchain, hact r (.head _),
      all_none, Bool.and_self, if_true, bind_some,
      modify_modify fun t => key_refilled t name rules, hmore]
    rw [ih (rules ++ [r]) fun r' hr' => hact r' (.tail _ hr')]
    simp only [append_assoc, List.singleton_append]

theorem load_refill (hhas : rs.has k = true) (name : String) (rules : List Rule)
    (hact : ∀ r ∈ rules, r.target? = none) :
    load rs (refill k name rules) = some (rs.modify k (·.refilled name rules)) := by
  have hkey : ∀ t : Table, (t.addChain name none).key = t.key := fun t => key_addChain t name none
  have hchain : (rs.modify k (·.addChain name none)).hasChain k name = true :=
    hasChain_modify hkey hhas fun t => hasChain_addChain t name none
  have hempty := load_refill_rules hhas name [] rules hact
  simp only [refill, load, Command.run, hhas, if_true, bind_some, hchain,
    modify_modify hkey]
  exact hempty

end Load

end Meshp.Netfilter
