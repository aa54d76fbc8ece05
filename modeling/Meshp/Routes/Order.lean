import Meshp.Base.Rows
import Meshp.Routes.Select

/-!
# What the Order of Candidates Depends On

The comparison candidates are sorted by is a lexicographic one: draining last,
then health, priority, score and identifier. Read as one key, it is a linear
order, and advertisers with different identifiers have different keys. So the
list offered to a device is decided by which advertisers are eligible and by
nothing else.
-/

namespace Meshp.Routes

open Store (AdminState HealthState)

variable {S : Type}

/-- May be offered to a device that is using `current`: in service, not observably failing, and not
draining unless the device is on it. -/
def Eligible (current : String) (a : Advertiser) : Prop :=
  a.admin ≠ .disabled ∧ (a.health = .healthy ∨ a.health = .degraded ∨ a.health = .unknown) ∧
    (a.admin = .draining → a.id = current)

instance decidableEligible (current : String) (a : Advertiser) : Decidable (Eligible current a) :=
  inferInstanceAs (Decidable (_ ∧ _ ∧ _))

theorem healthClass_isSome (h : HealthState) :
    (healthClass h).isSome ↔ h = .healthy ∨ h = .degraded ∨ h = .unknown := by
  cases h <;> decide

theorem rank_map (score : Scorer S) (req : Request) (a : Advertiser) :
    (rank score req a).map Candidate.advertiser =
      if Eligible req.current a then some a else none := by
  unfold rank
  by_cases hdisabled : a.admin = .disabled
  · rw [if_pos hdisabled, if_neg fun h => h.1 hdisabled]
    rfl
  · rw [if_neg hdisabled]
    cases hclass : healthClass a.health with
    | none =>
      have hfailing : ¬Eligible req.current a := by
        intro h
        have := (healthClass_isSome a.health).2 h.2.1
        rw [hclass] at this
        cases this
      rw [if_neg hfailing]
      rfl
    | some n =>
      have hhealth := (healthClass_isSome a.health).1 (by rw [hclass]; rfl)
      simp only
      by_cases hdraining : a.admin = .draining ∧ a.id ≠ req.current
      · rw [if_pos hdraining, if_neg fun h => hdraining.2 (h.2.2 hdraining.1)]
        rfl
      · have heligible : Eligible req.current a := by
          refine ⟨hdisabled, hhealth, fun h => ?_⟩
          by_contra hid
          exact hdraining ⟨h, hid⟩
        rw [if_neg hdraining, if_pos heligible]
        rfl

def key (c : Candidate S) : Bool ×ₗ Nat ×ₗ Int ×ₗ Sᵒᵈ ×ₗ String :=
  toLex (c.draining, toLex (c.healthRank, toLex (c.advertiser.priority,
    toLex (OrderDual.toDual c.score, c.advertiser.id))))

theorem outranks_iff [LinearOrder S] (a b : Candidate S) : outranks a b = true ↔ key a < key b := by
  simp only [outranks, key, Prod.Lex.toLex_lt_toLex, OrderDual.toDual_lt_toDual,
    OrderDual.toDual_inj]
  by_cases hdraining : a.draining = b.draining
  · by_cases hhealth : a.healthRank = b.healthRank
    · by_cases hpriority : a.advertiser.priority = b.advertiser.priority
      · by_cases hscore : a.score = b.score
        · simp [hdraining, hhealth, hpriority, hscore]
        · simp [hdraining, hhealth, hpriority, hscore]
      · simp [hdraining, hhealth, hpriority]
    · simp [hdraining, hhealth]
  · cases ha : a.draining with
    | false | true => cases hb : b.draining <;> simp_all

theorem not_outranks_iff [LinearOrder S] (a b : Candidate S) :
    (!outranks b a) = true ↔ key a ≤ key b := by
  rw [Bool.not_eq_true', ← Bool.not_eq_true, outranks_iff, not_lt]

theorem key_id {a b : Candidate S} (h : key a = key b) : a.advertiser.id = b.advertiser.id := by
  simp only [key, EmbeddingLike.apply_eq_iff_eq, Prod.mk.injEq] at h
  exact h.2.2.2.2

def ordered [LinearOrder S] (score : Scorer S) (req : Request) : List (Candidate S) :=
  (req.advertisers.filterMap (rank score req)).insertionSort fun a b => !outranks b a

theorem pinned_of_mode {req : Request} (hmode : req.mode ≠ .pinned) : pinned req = none :=
  if_neg fun h => hmode h.1

theorem pinned_of_current {req : Request} (hcurrent : req.current = "") : pinned req = none :=
  if_neg fun h => h.2 hcurrent

theorem select_eq [LinearOrder S] (score : Scorer S) (req : Request)
    (hpinned : pinned req = none) :
    select score req = (ordered score req).map Candidate.advertiser := by
  rw [select, hpinned]
  rfl

theorem filterMap_rank (score : Scorer S) (req : Request) (l : List Advertiser) :
    (l.filterMap (rank score req)).map Candidate.advertiser =
      l.filter (Eligible req.current ·) := by
  rw [List.map_filterMap, ← List.filterMap_eq_filter]
  congr 1
  funext a
  rw [rank_map]
  by_cases h : Eligible req.current a
  · rw [if_pos h, Option.guard, if_pos (decide_eq_true h)]
  · rw [if_neg h, Option.guard, if_neg (by simpa using h)]

theorem select_perm [LinearOrder S] (score : Scorer S) (req : Request)
    (hpinned : pinned req = none) :
    (select score req).Perm (req.advertisers.filter (Eligible req.current ·)) := by
  rw [select_eq score req hpinned, ← filterMap_rank score]
  exact (List.perm_insertionSort _ _).map _

theorem candidate_eq_of_key (score : Scorer S) (req : Request) {l : List Advertiser}
    (hids : (l.map Advertiser.id).Nodup) :
    ∀ a ∈ l.filterMap (rank score req), ∀ b ∈ l.filterMap (rank score req),
      key a = key b → a = b := by
  have hrank : ∀ (x : Advertiser) (c : Candidate S), rank score req x = some c →
      c.advertiser = x := by
    intro x c hc
    have hmap := rank_map score req x
    rw [hc] at hmap
    by_cases hx : Eligible req.current x
    · rw [if_pos hx] at hmap
      exact Option.some.inj hmap
    · rw [if_neg hx] at hmap
      cases hmap
  intro a ha b hb hkey
  rcases List.mem_filterMap.1 ha with ⟨x, hx, hxa⟩
  rcases List.mem_filterMap.1 hb with ⟨y, hy, hyb⟩
  have hid := key_id hkey
  rw [hrank x a hxa, hrank y b hyb] at hid
  have hxy := List.inj_on_of_nodup_map hids hx hy hid
  rw [hxy, hyb] at hxa
  exact (Option.some.inj hxa).symm

theorem select_congr [LinearOrder S] (score : Scorer S) (req : Request) (hmode : req.mode ≠ .pinned)
    (hids : (req.advertisers.map Advertiser.id).Nodup) {l : List Advertiser}
    (hl : l.Perm req.advertisers) :
    select score { req with advertisers := l } = select score req := by
  rw [select_eq score req (pinned_of_mode hmode),
    select_eq score { req with advertisers := l } (pinned_of_mode hmode)]
  refine congrArg (List.map Candidate.advertiser) ?_
  exact Base.sort_eq_of_perm (not_outranks_iff (S := S))
    (hl.filterMap (rank score req)) (candidate_eq_of_key score req hids)

theorem select_insert [LinearOrder S] (score : Scorer S) {req : Request}
    (hmode : req.mode ≠ .pinned) (a : Advertiser) :
    ∃ before after, select score req = before ++ after ∧
      select score { req with advertisers := a :: req.advertisers } =
        before ++ (if Eligible req.current a then [a] else []) ++ after := by
  rw [select_eq score req (pinned_of_mode hmode),
    select_eq score { req with advertisers := a :: req.advertisers } (pinned_of_mode hmode)]
  have hmap := rank_map score req a
  have hwhole : ordered score { req with advertisers := a :: req.advertisers } =
      ((a :: req.advertisers).filterMap (rank score req)).insertionSort
        fun a b => !outranks b a := rfl
  rw [hwhole]
  cases hrank : rank score req a with
  | none =>
    rw [hrank] at hmap
    have hnot : ¬Eligible req.current a := fun h => by
      rw [if_pos h] at hmap
      cases hmap
    refine ⟨(ordered score req).map Candidate.advertiser, [], (List.append_nil _).symm, ?_⟩
    rw [if_neg hnot, List.append_nil, List.append_nil, List.filterMap_cons_none hrank]
    rfl
  | some c =>
    rw [hrank] at hmap
    have heligible : Eligible req.current a := by
      by_contra h
      rw [if_neg h] at hmap
      cases hmap
    rw [if_pos heligible] at hmap
    have hc : c.advertiser = a := Option.some.inj hmap
    rcases Base.sort_cons (r := fun a b : Candidate S => (!outranks b a) = true) c
      (req.advertisers.filterMap (rank score req)) with ⟨before, after, hwithout, hwith⟩
    refine ⟨before.map Candidate.advertiser, after.map Candidate.advertiser, ?_, ?_⟩
    · rw [ordered, hwithout, List.map_append]
    · rw [List.filterMap_cons_some hrank, hwith, if_pos heligible, List.map_append,
        List.map_cons, hc, List.append_assoc, List.singleton_append]

/-- In a group that is not pinned, with advertisers told apart by their identifiers and any fixed
score: a device is offered exactly the eligible advertisers, each once; in an order that does not
depend on how they are listed; and with one advertiser more, listed anywhere, it is offered the same
with that one, if it is eligible, put in at one place. Read from right to left this is the removal
of one, and a device whose first choice is another keeps it. -/
theorem select_eligible [LinearOrder S] (score : Scorer S) (req : Request)
    (hmode : req.mode ≠ .pinned) (hids : (req.advertisers.map Advertiser.id).Nodup) :
    (select score req).Perm (req.advertisers.filter (Eligible req.current ·)) ∧
    ((select score req).map Advertiser.id).Nodup ∧
    (∀ l : List Advertiser, l.Perm req.advertisers →
      select score { req with advertisers := l } = select score req) ∧
    ∀ a : Advertiser, a.id ∉ req.advertisers.map Advertiser.id →
      ∀ l : List Advertiser, l.Perm (a :: req.advertisers) →
        (∃ before after, select score req = before ++ after ∧
          select score { req with advertisers := l } =
            before ++ (if Eligible req.current a then [a] else []) ++ after) ∧
        ((select score { req with advertisers := l }).head? ≠ some a →
          (select score req).head? = (select score { req with advertisers := l }).head?) := by
  have hperm := select_perm score req (pinned_of_mode hmode)
  refine ⟨hperm, ?_, fun l hl => select_congr score req hmode hids hl, fun a ha l hl => ?_⟩
  · refine (hperm.map Advertiser.id).nodup_iff.2 ?_
    exact hids.sublist (List.filter_sublist.map Advertiser.id)
  · have hids' : ((a :: req.advertisers).map Advertiser.id).Nodup := by
      rw [List.map_cons]
      exact List.nodup_cons.2 ⟨ha, hids⟩
    have hlisted := select_congr score { req with advertisers := a :: req.advertisers } hmode hids'
      hl
    rw [show select score { req with advertisers := l } =
      select score { req with advertisers := a :: req.advertisers } from hlisted]
    rcases select_insert score hmode a with ⟨before, after, hwithout, hwith⟩
    refine ⟨⟨before, after, hwithout, hwith⟩, fun hhead => ?_⟩
    rw [hwith] at hhead
    rw [hwithout, hwith]
    cases before with
    | cons b before => rfl
    | nil =>
      by_cases heligible : Eligible req.current a
      · rw [if_pos heligible] at hhead
        exact absurd rfl hhead
      · rw [if_neg heligible]
        rfl

def gateway (id : String) (health : HealthState) (admin : AdminState) : Advertiser :=
  { id, peerPublicKey := id, priority := 1, weight := 100, admin, health, region := "", city := ""
    displayName := id }

theorem select_eligible_gateways :
    let score : Scorer Nat := fun _ id _ => id.length
    let req : Request :=
      { deviceKey := "d", mode := .failover
        advertisers := [gateway "b" .unknown .enabled, gateway "c" .healthy .draining,
          gateway "a" .healthy .enabled] }
    select score req = [gateway "a" .healthy .enabled, gateway "b" .unknown .enabled] ∧
      (select score req).Perm (req.advertisers.filter (Eligible req.current ·)) ∧
      ∃ before after, select score req = before ++ after ∧
        select score
            { req with advertisers := gateway "d" .degraded .enabled :: req.advertisers } =
          before ++ [gateway "d" .degraded .enabled] ++ after := by
  intro score req
  have h := select_eligible score req (by decide) (by decide)
  refine ⟨by decide +kernel, h.1, ?_⟩
  exact (h.2.2.2 (gateway "d" .degraded .enabled) (by decide) _ (List.Perm.refl _)).1

end Meshp.Routes
