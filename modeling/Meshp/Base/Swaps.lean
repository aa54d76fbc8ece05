import Meshp.Base.Run

/-!
# Ranges Rewritten Rule After Rule

A rule that rewrites the values of one range to those of another, and back. Rules
are applied in order, each to the value the one before left, so a value that was
rewritten may be caught again further down. There and back is then not what each
rule is alone.
-/

namespace Meshp.Base

open List (append_assoc append_of_mem foldl_cons mem_append_right mem_cons sublist_append_right)

/-- A rule between the values `src` holds of and those `dst` holds of. -/
structure Swap (α : Type*) where
  src : α → Bool
  dst : α → Bool
  out : α → α
  back : α → α
  back_src : ∀ y, dst y = true → src (back y) = true
  out_dst : ∀ x, src x = true → dst (out x) = true
  back_out : ∀ x, src x = true → back (out x) = x
  out_back : ∀ y, dst y = true → out (back y) = y

variable {α : Type*}

namespace Swap

def there (s : Swap α) (x : α) : α :=
  if s.src x then s.out x else x

def home (s : Swap α) (y : α) : α :=
  if s.dst y then s.back y else y

def thereBy (ss : List (Swap α)) (x : α) : α :=
  ss.foldl (fun x s => s.there x) x

def backBy (ss : List (Swap α)) (y : α) : α :=
  ss.foldl (fun y s => s.home y) y

def Apart (p q : α → Bool) : Prop :=
  ∀ x, p x = true → q x = false

def Inside (p q : α → Bool) : Prop :=
  ∀ x, p x = true → q x = true

def Moves (s : Swap α) : Prop :=
  Apart s.src s.dst ∧ ∃ x, s.src x = true

/-- Ranges are nested or apart, the outer one first, and what is inside a range comes right after
it. -/
structure Nested (ss : List (Swap α)) : Prop where
  pair : ss.Pairwise fun s t => Inside t.src s.src ∨ Apart t.src s.src
  block : ∀ s t u, [s, t, u].Sublist ss → Inside u.src s.src → Inside t.src s.src

def Live (xs : List (Swap α)) (s : Swap α) : Prop :=
  ∀ k ∈ xs, Apart s.src k.src

def Untangled (ss : List (Swap α)) : Prop :=
  ∀ xs s ys, ss = xs ++ s :: ys → Live xs s →
    (∀ k ∈ ys, Apart s.dst k.src) ∧ (∀ k ∈ xs, Apart s.dst k.dst) ∧ ∀ k ∈ ys, Apart s.src k.dst

theorem thereBy_append (xs ys : List (Swap α)) (x : α) :
    thereBy (xs ++ ys) x = thereBy ys (thereBy xs x) :=
  List.foldl_append

theorem backBy_append (xs ys : List (Swap α)) (y : α) :
    backBy (xs ++ ys) y = backBy ys (backBy xs y) :=
  List.foldl_append

variable {ss : List (Swap α)} {x y : α} {s : Swap α} {p : α → Bool}

theorem thereBy_eq_self (h : ∀ s ∈ ss, s.src x = false) : thereBy ss x = x := by
  induction ss with
  | nil => rfl
  | cons s ss ih =>
    have hs : s.there x = x := if_neg (by rw [h s (.head _)]; exact Bool.false_ne_true)
    rw [thereBy, foldl_cons, hs]
    exact ih fun t ht => h t (.tail _ ht)

theorem backBy_eq_self (h : ∀ s ∈ ss, s.dst y = false) : backBy ss y = y := by
  induction ss with
  | nil => rfl
  | cons s ss ih =>
    have hs : s.home y = y := if_neg (by rw [h s (.head _)]; exact Bool.false_ne_true)
    rw [backBy, foldl_cons, hs]
    exact ih fun t ht => h t (.tail _ ht)

theorem thereBy_cons (h : s.src x = true) : thereBy (s :: ss) x = thereBy ss (s.out x) := by
  rw [thereBy, foldl_cons, there, if_pos h]
  rfl

theorem backBy_cons (h : s.dst y = true) : backBy (s :: ss) y = backBy ss (s.back y) := by
  rw [backBy, foldl_cons, home, if_pos h]
  rfl

theorem thereBy_skip (h : s.src x = false) : thereBy (s :: ss) x = thereBy ss x := by
  rw [thereBy, foldl_cons, there, if_neg (by rw [h]; exact Bool.false_ne_true)]
  rfl

theorem backBy_skip (h : s.dst y = false) : backBy (s :: ss) y = backBy ss y := by
  rw [backBy, foldl_cons, home, if_neg (by rw [h]; exact Bool.false_ne_true)]
  rfl

theorem backBy_stays (h : ∀ s ∈ ss, Inside s.src p) (hy : p y = true) : p (backBy ss y) = true := by
  induction ss generalizing y with
  | nil => exact hy
  | cons s ss ih =>
    refine ih (fun t ht => h t (.tail _ ht)) ?_
    change p (s.home y) = true
    by_cases hs : s.dst y = true
    · rw [home, if_pos hs]
      exact h s (.head _) _ (s.back_src y hs)
    · rw [home, if_neg hs]
      exact hy

theorem exists_first {β : Type*} {P : β → Prop} {l : List β} (h : ∃ b ∈ l, P b) :
    ∃ xs b ys, l = xs ++ b :: ys ∧ P b ∧ ∀ c ∈ xs, ¬P c := by
  induction l with
  | nil =>
    obtain ⟨b, hb, _⟩ := h
    cases hb
  | cons a l ih =>
    by_cases ha : P a
    · exact ⟨[], a, l, rfl, ha, nofun⟩
    · obtain ⟨b, hb, hPb⟩ := h
      have hbl : b ∈ l := (mem_cons.1 hb).resolve_left fun hba => ha (hba ▸ hPb)
      obtain ⟨xs, c, ys, rfl, hc, hfirst⟩ := ih ⟨b, hbl, hPb⟩
      refine ⟨a :: xs, c, ys, rfl, hc, fun d hd => ?_⟩
      rcases mem_cons.1 hd with rfl | hd
      · exact ha
      · exact hfirst d hd

theorem inside_refl (p : α → Bool) : Inside p p := fun _ => id

theorem exists_of_not_apart {q : α → Bool} (h : ¬Apart p q) : ∃ x, p x = true ∧ q x = true := by
  by_contra hnone
  refine h fun x hp => ?_
  by_contra hq
  exact hnone ⟨x, hp, Bool.eq_true_of_not_eq_false hq⟩

section Order

variable {ss : List (Swap α)} (hnested : Nested ss)

include hnested

theorem inside_or_apart {xs ys : List (Swap α)} {s t : Swap α} (h : ss = xs ++ t :: ys)
    (hs : s ∈ xs) : Inside t.src s.src ∨ Apart t.src s.src := by
  have hpair := hnested.pair
  rw [h, List.pairwise_append] at hpair
  exact hpair.2.2 s hs t (.head _)

theorem exists_live {xs ys : List (Swap α)} {k : Swap α} (h : ss = xs ++ k :: ys) :
    ∃ as c ps, as.length ≤ xs.length ∧ ss = as ++ c :: (ps ++ ys) ∧ Live as c ∧
      Inside k.src c.src ∧ ∀ t ∈ ps, Inside t.src c.src := by
  by_cases hlive : Live xs k
  · exact ⟨xs, k, [], Nat.le_refl _, h, hlive, inside_refl _,
      nofun⟩
  · have houter : ∃ c ∈ xs, Inside k.src c.src := by
      by_contra hnone
      refine hlive fun c hc => ?_
      exact (inside_or_apart hnested h hc).resolve_left fun hin => hnone ⟨c, hc, hin⟩
    -- The first range around it is not itself inside another.
    obtain ⟨as, c, mid, rfl, hin, hfirst⟩ := exists_first houter
    have hc : ss = as ++ c :: (mid ++ k :: ys) := by rw [h, append_assoc]; rfl
    have hlength : as.length ≤ (as ++ c :: mid).length := by
      rw [List.length_append]
      exact Nat.le_add_right _ _
    refine ⟨as, c, mid ++ [k], hlength, by rw [hc, append_assoc]; rfl, fun d hd => ?_, hin,
      fun t ht => ?_⟩
    · rcases inside_or_apart hnested hc hd with hcd | hcd
      · exact absurd (fun x hx => hcd x (hin x hx)) (hfirst d hd)
      · exact hcd
    · rcases List.mem_append.1 ht with ht | ht
      · refine hnested.block c t k ?_ hin
        obtain ⟨mid₁, mid₂, rfl⟩ := append_of_mem ht
        rw [hc]
        refine List.Sublist.trans ?_ (sublist_append_right as _)
        refine List.Sublist.cons_cons c ?_
        rw [append_assoc]
        refine List.Sublist.trans ?_ (sublist_append_right mid₁ _)
        refine List.Sublist.cons_cons t ?_
        refine List.Sublist.trans ?_ (sublist_append_right mid₂ _)
        exact List.Sublist.cons_cons k (List.nil_sublist ys)
      · rw [List.mem_singleton.1 ht]
        exact hin

end Order

theorem backBy_lands (ss : List (Swap α)) (y : α) :
    (∀ s ∈ ss, s.dst y = false) ∨ ∃ s ∈ ss, s.src (backBy ss y) = true := by
  induction ss generalizing y with
  | nil => exact .inl nofun
  | cons s ss ih =>
    by_cases hs : s.dst y = true
    · right
      rw [backBy_cons hs]
      rcases ih (s.back y) with hnone | ⟨t, ht, hsrc⟩
      · rw [backBy_eq_self hnone]
        exact ⟨s, .head _, s.back_src y hs⟩
      · exact ⟨t, .tail _ ht, hsrc⟩
    · have hs : s.dst y = false := Bool.eq_false_iff.2 hs
      rw [backBy_skip hs]
      rcases ih y with hnone | ⟨t, ht, hsrc⟩
      · refine .inl fun t ht => ?_
        rcases mem_cons.1 ht with rfl | ht
        · exact hs
        · exact hnone t ht
      · exact .inr ⟨t, .tail _ ht, hsrc⟩

theorem backBy_eq_self_iff (h : ∀ s ∈ ss, s.src y = false) :
    backBy ss y = y ↔ ∀ s ∈ ss, s.dst y = false := by
  refine ⟨fun hself => ?_, backBy_eq_self⟩
  rcases backBy_lands ss y with hnone | ⟨s, hs, hsrc⟩
  · exact hnone
  · rw [hself, h s hs] at hsrc
    cases hsrc

theorem thereBy_live {xs ys : List (Swap α)} (hlive : Live xs s) (hx : s.src x = true) :
    thereBy (xs ++ s :: ys) x = thereBy ys (s.out x) := by
  rw [thereBy_append, thereBy_eq_self fun k hk => hlive k hk x hx, thereBy_cons hx]

theorem live_unique {xs ys as bs : List (Swap α)} {c : Swap α} (h : xs ++ s :: ys = as ++ c :: bs)
    (hs : Live xs s) (hc : Live as c) (hxs : s.src x = true) (hxc : c.src x = true) :
    xs = as ∧ s = c ∧ ys = bs := by
  rcases List.append_eq_append_iff.1 h with ⟨l, rfl, hl⟩ | ⟨l, rfl, hl⟩
  · cases l with
    | nil =>
      cases hl
      exact ⟨(List.append_nil xs).symm, rfl, rfl⟩
    | cons d l =>
      cases hl
      have hapart := hc s (mem_append_right _ (.head _)) x hxc
      rw [hxs] at hapart
      cases hapart
  · cases l with
    | nil =>
      cases hl
      exact ⟨List.append_nil as, rfl, rfl⟩
    | cons d l =>
      cases hl
      have hapart := hs c (mem_append_right _ (.head _)) x hxs
      rw [hxc] at hapart
      cases hapart

theorem backBy_thereBy_of_untangled (hnested : Nested ss) (huntangled : Untangled ss) (hs : s ∈ ss)
    (hx : s.src x = true) : backBy ss (thereBy ss x) = x := by
  obtain ⟨xs, ys, hsplit⟩ := append_of_mem hs
  obtain ⟨as, c, ps, _, hss, hlive, hin, _⟩ := exists_live hnested hsplit
  have hxc : c.src x = true := hin x hx
  obtain ⟨hthere, hbefore, hafter⟩ := huntangled as c (ps ++ ys) hss hlive
  have hdst := c.out_dst x hxc
  rw [hss, thereBy_live hlive hxc, thereBy_eq_self fun k hk => hthere k hk _ hdst, backBy_append,
    backBy_eq_self fun k hk => hbefore k hk _ hdst, backBy_cons hdst, c.back_out x hxc]
  exact backBy_eq_self fun k hk => hafter k hk x hxc

theorem stays_of_undone [Finite α] {ps qs : List (Swap α)} (hinside : ∀ t ∈ ps, Inside t.src p)
    (hundone : ∀ w, p w = true → backBy (ps ++ qs) w = w) (hy : p y = true) :
    p (backBy qs y) = true := by
  have hmaps : Set.MapsTo (backBy ps) {w | p w = true} {w | p w = true} :=
    fun w hw => backBy_stays hinside hw
  have hinj : Set.InjOn (backBy ps) {w | p w = true} := by
    intro v hv w hw hvw
    have hback := congrArg (backBy qs) hvw
    rwa [← backBy_append, ← backBy_append, hundone v hv, hundone w hw] at hback
  obtain ⟨v, hv, hvy⟩ := ((Set.toFinite _).injOn_iff_bijOn_of_mapsTo hmaps).1 hinj |>.surjOn hy
  rw [← hvy, ← backBy_append, hundone v hv]
  exact hv

section Necessary

variable {ss : List (Swap α)} (hnested : Nested ss) (hmoves : ∀ s ∈ ss, Moves s)
  (hround : ∀ s ∈ ss, ∀ x, s.src x = true → backBy ss (thereBy ss x) = x)

include hnested hmoves hround

variable {s : Swap α} {xs ys : List (Swap α)}

theorem apart_later (h : ss = xs ++ s :: ys) (hlive : Live xs s) : ∀ k ∈ ys, Apart s.dst k.src := by
  by_contra hnot
  push Not at hnot
  obtain ⟨k, hk, hcaught⟩ := hnot
  obtain ⟨y, hy, hky⟩ := exists_of_not_apart hcaught
  obtain ⟨l, c, tail, rfl, hc, hfirst⟩ :=
    exists_first (P := fun c : Swap α => c.src y = true) ⟨k, hk, hky⟩
  have hsmem : s ∈ ss := by rw [h]; exact mem_append_right _ (.head _)
  have hcmem : c ∈ ss := by
    rw [h]
    exact mem_append_right _ (.tail _
      (mem_append_right _ (.head _)))
  have hx := s.back_src y hy
  have hsy : s.src y = false := by
    by_contra hsy
    have hmoved := (hmoves s hsmem).1 y (Bool.eq_true_of_not_eq_false hsy)
    rw [hy] at hmoved
    cases hmoved
  have hl : ∀ t ∈ l, t.src y = false := fun t ht => Bool.eq_false_iff.2 (hfirst t ht)
  -- No earlier rule is around `y`, or it would be around the live one as well.
  have hxs : ∀ d ∈ xs, d.src y = false := by
    intro d hd
    by_contra hdy
    have hdy : d.src y = true := Bool.eq_true_of_not_eq_false hdy
    have hsplit : ss = (xs ++ s :: l) ++ c :: tail := by rw [h, append_assoc]; rfl
    rcases inside_or_apart hnested hsplit (List.mem_append_left _ hd) with hin | hapart
    · have hsub : [d, s, c].Sublist ss := by
        obtain ⟨xs₁, xs₂, rfl⟩ := append_of_mem hd
        rw [h, append_assoc]
        refine List.Sublist.trans ?_ (sublist_append_right xs₁ _)
        refine List.Sublist.cons_cons d ?_
        refine List.Sublist.trans ?_ (sublist_append_right xs₂ _)
        refine List.Sublist.cons_cons s ?_
        refine List.Sublist.trans ?_ (sublist_append_right l _)
        exact List.Sublist.cons_cons c (List.nil_sublist tail)
      obtain ⟨v, hv⟩ := (hmoves s hsmem).2
      have haround := hnested.block d s c hsub hin v hv
      rw [hlive d hd v hv] at haround
      cases haround
    · rw [hapart y hc] at hdy
      cases hdy
  have hfrom : thereBy ss (s.back y) = thereBy tail (c.out y) := by
    rw [h, thereBy_live hlive hx, s.out_back y hy, thereBy_append, thereBy_eq_self hl,
      thereBy_cons hc]
  have hdirect : thereBy ss y = thereBy tail (c.out y) := by
    rw [h, thereBy_append, thereBy_eq_self hxs, thereBy_skip hsy, thereBy_append,
      thereBy_eq_self hl, thereBy_cons hc]
  have hsame : s.back y = y := calc
    s.back y = backBy ss (thereBy ss (s.back y)) := (hround s hsmem _ hx).symm
    _ = backBy ss (thereBy ss y) := by rw [hfrom, hdirect]
    _ = y := hround c hcmem y hc
  rw [hsame, hsy] at hx
  cases hx

theorem undone_of_apart (h : ss = xs ++ s :: ys) (hlive : Live xs s)
    (hbefore : ∀ k ∈ xs, Apart s.dst k.dst) {x : α} (hx : s.src x = true) : backBy ys x = x := by
  have hsmem : s ∈ ss := by rw [h]; exact mem_append_right _ (.head _)
  have hdst := s.out_dst x hx
  have hthere : thereBy ss x = s.out x := by
    rw [h, thereBy_live hlive hx]
    exact thereBy_eq_self fun k hk => apart_later hnested hmoves hround h hlive k hk _ hdst
  have hback := hround s hsmem x hx
  rwa [hthere, h, backBy_append, backBy_eq_self fun k hk => hbefore k hk _ hdst, backBy_cons hdst,
    s.back_out x hx] at hback

variable [Finite α]

theorem apart_earlier (h : ss = xs ++ s :: ys) (hlive : Live xs s) :
    ∀ k ∈ xs, Apart s.dst k.dst := by
  -- By induction on how many rules come before, since the range that catches it
  -- is inside a live one that comes earlier still.
  induction hn : xs.length using Nat.strong_induction_on generalizing xs s ys with
  | _ n ih =>
    by_contra hnot
    push Not at hnot
    obtain ⟨k, hk, hcaught⟩ := hnot
    obtain ⟨z, hz, hkz⟩ := exists_of_not_apart hcaught
    obtain ⟨q₁, k₀, q₂, rfl, hk₀, hfirst⟩ :=
      exists_first (P := fun c : Swap α => c.dst z = true) ⟨k, hk, hkz⟩
    have hsplit : ss = q₁ ++ k₀ :: (q₂ ++ s :: ys) := by rw [h, append_assoc]; rfl
    obtain ⟨as, c, ps, hle, hss, hc, hin, hps⟩ := exists_live hnested hsplit
    have hlength : as.length < n := by
      simp only [List.length_append, List.length_cons] at hn
      omega
    -- What is left of the way back maps the live range around it to itself.
    have hundone : ∀ w, c.src w = true → backBy (ps ++ (q₂ ++ s :: ys)) w = w := fun w hw =>
      undone_of_apart hnested hmoves hround hss hc (ih as.length hlength hss hc rfl) hw
    have hstays := stays_of_undone hps hundone (hin _ (k₀.back_src z hk₀))
    -- And it leads to where `z` came from, which is in another.
    have hx := s.back_src z hz
    have hthere : thereBy ss (s.back z) = z := by
      rw [h, thereBy_live hlive hx, s.out_back z hz]
      exact thereBy_eq_self fun t ht => apart_later hnested hmoves hround h hlive t ht z hz
    have hback : backBy (q₂ ++ s :: ys) (k₀.back z) = s.back z := by
      have hsmem : s ∈ ss := by rw [h]; exact mem_append_right _ (.head _)
      have hreturn := hround s hsmem _ hx
      rwa [hthere, hsplit, backBy_append,
        backBy_eq_self fun t ht => Bool.eq_false_iff.2 (hfirst t ht), backBy_cons hk₀] at hreturn
    rw [hback] at hstays
    have hsame := (live_unique (h.symm.trans hss) hlive hc hx hstays).1
    rw [← hn, hsame] at hlength
    exact Nat.lt_irrefl _ hlength

theorem undone (h : ss = xs ++ s :: ys) (hlive : Live xs s) {x : α} (hx : s.src x = true) :
    backBy ys x = x :=
  undone_of_apart hnested hmoves hround h hlive (apart_earlier hnested hmoves hround h hlive) hx

theorem apart_home (h : ss = xs ++ s :: ys) (hlive : Live xs s) : ∀ k ∈ ys, Apart s.src k.dst := by
  by_contra hnot
  push Not at hnot
  obtain ⟨k, hk, hcaught⟩ := hnot
  obtain ⟨q₁, m, q₂, rfl, ⟨y, hy, hmy⟩, hfirst⟩ :=
    exists_first (P := fun c : Swap α => ∃ y, s.src y = true ∧ c.dst y = true)
      ⟨k, hk, exists_of_not_apart hcaught⟩
  have hsplit : ss = (xs ++ s :: q₁) ++ m :: q₂ := by rw [h, append_assoc]; rfl
  have hmmem : m ∈ ss := by rw [hsplit]; exact mem_append_right _ (.head _)
  have hfixed : ∀ w, s.src w = true → backBy (q₁ ++ m :: q₂) w = backBy (m :: q₂) w := by
    intro w hw
    rw [backBy_append]
    refine congrArg _ (backBy_eq_self fun t ht => ?_)
    exact Bool.eq_false_iff.2 fun htw => hfirst t ht ⟨w, hw, htw⟩
  have hmoved := m.back_src y hmy
  have hreturn : backBy q₂ (m.back y) = y := by
    have hid := undone hnested hmoves hround h hlive hy
    rwa [hfixed y hy, backBy_cons hmy] at hid
  have hsmem : s ∈ xs ++ s :: q₁ := mem_append_right _ (.head _)
  rcases inside_or_apart hnested hsplit hsmem with hin | hapart
  · -- Inside the range two values come to the same one.
    have hstill : m.dst (m.back y) = false := (hmoves m hmmem).1 _ hmoved
    have hid := undone hnested hmoves hround h hlive (hin _ hmoved)
    rw [hfixed _ (hin _ hmoved), backBy_skip hstill, hreturn] at hid
    rw [← hid, hmy] at hstill
    cases hstill
  · -- Outside it there is no way back into it.
    obtain ⟨as, c, ps, _, hss, hc, hinc, hps⟩ := exists_live hnested hsplit
    have hundone : ∀ w, c.src w = true → backBy (ps ++ q₂) w = w :=
      fun w hw => undone hnested hmoves hround hss hc hw
    have hstays := stays_of_undone hps hundone (hinc _ hmoved)
    rw [hreturn] at hstays
    have hsame := (live_unique (h.symm.trans hss) hlive hc hy hstays).2.1
    have hnot := hapart _ hmoved
    rw [hsame, hinc _ hmoved] at hnot
    cases hnot

end Necessary

theorem roundTrip_iff [Finite α] (hnested : Nested ss) (hmoves : ∀ s ∈ ss, Moves s) :
    (∀ s ∈ ss, ∀ x, s.src x = true → backBy ss (thereBy ss x) = x) ↔ Untangled ss := by
  constructor
  · intro hround xs s ys h hlive
    exact ⟨apart_later hnested hmoves hround h hlive, apart_earlier hnested hmoves hround h hlive,
      apart_home hnested hmoves hround h hlive⟩
  · intro huntangled s hs x hx
    exact backBy_thereBy_of_untangled hnested huntangled hs hx

end Swap

end Meshp.Base
