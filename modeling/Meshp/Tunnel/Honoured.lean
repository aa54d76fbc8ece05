import Meshp.Tunnel.Egress

/-!
# Claims Without a Carrier

A pass reads a state's route groups twice. The interface is configured from the
groups that can be honoured: one whose prefixes do not all parse, that has no
candidate, or whose carrier is not a peer, is left out and reported. Whether to
claim the default route is read off the same groups without asking whether any of
them was honoured.
-/

namespace Meshp.Tunnel

open Base.Calls (ensures_bind ensures_idle ensures_make_total ensures_seq exec_of_ensures make
  total)
open Netip (Prefix parsePrefix)
open Routeprobe (Chooser)
open Wgplan (Interface Key)
open Wgplan.Peer (publicKey)
open Wire (RouteGroupAssignment)

def honouredBy (site : Site) (i : Interface) (assignments : List RouteGroupAssignment) :
    List (Key × List Prefix) :=
  let mapped := mappedPrefixes site.canTranslate assignments
  honoured { site with
      claims := site.claims.map (·.declare i.name (declaredPrefixes mapped assignments)) }
    i.name mapped (i.peers.map publicKey) site.chooser assignments

def honoursEgress (site : Site) (i : Interface) (assignments : List RouteGroupAssignment) : Bool :=
  (honouredBy site i assignments).any fun c => c.2 = defaultRoutes

def Exits (i : Interface) : Prop :=
  ∃ q ∈ i.peers, ∀ d ∈ defaultRoutes, d ∈ q.allowedIPs

instance (i : Interface) : Decidable (Exits i) := by
  unfold Exits
  infer_instance

section Carried

variable {key : Key} {peers : List Wgplan.Peer}

theorem subset_carry (key : Key) (prefixes : List Prefix) {q : Wgplan.Peer} (hq : q ∈ peers) :
    ∃ q' ∈ carry key prefixes peers, q.allowedIPs ⊆ q'.allowedIPs := by
  induction peers with
  | nil => cases hq
  | cons peer peers ih =>
    unfold carry
    split
    · rcases List.mem_cons.1 hq with rfl | hq
      · exact ⟨_, .head _, List.subset_append_left _ _⟩
      · exact ⟨q, .tail _ hq, List.Subset.refl _⟩
    · rcases List.mem_cons.1 hq with rfl | hq
      · exact ⟨q, .head _, List.Subset.refl _⟩
      · obtain ⟨q', hq', hsub⟩ := ih hq
        exact ⟨q', .tail _ hq', hsub⟩

theorem given_carry (prefixes : List Prefix) (hkey : key ∈ peers.map publicKey) :
    ∃ q ∈ carry key prefixes peers, prefixes ⊆ q.allowedIPs := by
  induction peers with
  | nil => cases hkey
  | cons peer peers ih =>
    unfold carry
    split
    · exact ⟨_, .head _, List.subset_append_right _ _⟩
    · rename_i hlast
      have hmem : key ∈ peers.map publicKey := by
        by_contra hnot
        exact hlast ⟨((List.mem_cons.1 hkey).resolve_right hnot).symm, hnot⟩
      obtain ⟨q, hq, hsub⟩ := ih hmem
      exact ⟨q, .tail _ hq, hsub⟩

variable (site : Site) (owner : String) (mapped : List (Prefix × Prefix))

theorem subset_carryGroups {q : Wgplan.Peer} (hq : q ∈ peers) (chooser : Option Chooser)
    (as : List RouteGroupAssignment) :
    ∃ q' ∈ (carryGroups site owner mapped peers chooser as).1, q.allowedIPs ⊆ q'.allowedIPs := by
  induction as generalizing peers q chooser with
  | nil => exact ⟨q, hq, List.Subset.refl _⟩
  | cons a rest ih =>
    simp only [carryGroups]
    rcases judge site owner mapped (peers.map publicKey) chooser a with
      ⟨chooser', _ | ⟨key, prefixes⟩⟩
    · exact ih hq chooser'
    · obtain ⟨q₁, hq₁, hsub₁⟩ := subset_carry key prefixes hq
      obtain ⟨q₂, hq₂, hsub₂⟩ := ih hq₁ chooser'
      exact ⟨q₂, hq₂, List.Subset.trans hsub₁ hsub₂⟩

theorem carried_of_honoured {c : Key × List Prefix} (chooser : Option Chooser)
    (as : List RouteGroupAssignment)
    (hc : c ∈ honoured site owner mapped (peers.map publicKey) chooser as) :
    ∃ q ∈ (carryGroups site owner mapped peers chooser as).1, c.2 ⊆ q.allowedIPs := by
  induction as generalizing peers chooser with
  | nil => cases hc
  | cons a rest ih =>
    simp only [carryGroups, honoured] at hc ⊢
    rcases hjudge : judge site owner mapped (peers.map publicKey) chooser a with
      ⟨chooser', _ | ⟨key, prefixes⟩⟩
    · rw [hjudge] at hc
      exact ih chooser' hc
    · rw [hjudge] at hc
      rcases List.mem_cons.1 hc with rfl | hc
      · obtain ⟨q, hq, hsub⟩ := given_carry prefixes (judge_some hjudge).2
        obtain ⟨q', hq', hsub'⟩ := subset_carryGroups site owner mapped hq chooser' rest
        exact ⟨q', hq', List.Subset.trans hsub hsub'⟩
      · have hkeys : (carry key prefixes peers).map publicKey =
            peers.map publicKey := keys_carry peers
        rw [← hkeys] at hc
        exact ih chooser' hc

end Carried

theorem honouredBy_applied (site : Site) (i : Interface) (as : List RouteGroupAssignment) :
    honouredBy site (applyRouteGroups site i as).1 as = honouredBy site i as := by
  unfold honouredBy
  rw [(peers_applyRouteGroups site i as).keys]
  rfl

theorem exits_of_honoured {site : Site} {m : Membership} {told : Told} {i : Interface}
    {unhonoured : List String} (h : desired site m told = .ok (i, unhonoured))
    (hegress : honoursEgress site i told.routeGroups = true) : Exits i := by
  obtain ⟨i₀, _, happlied⟩ := Base.bind_eq_ok.1 h
  have hi : (applyRouteGroups site i₀ told.routeGroups).1 = i :=
    congrArg Prod.fst (Except.ok.inj happlied)
  subst hi
  unfold honoursEgress at hegress
  rw [honouredBy_applied] at hegress
  obtain ⟨c, hc, hdefault⟩ := List.any_eq_true.1 hegress
  obtain ⟨q, hq, hsub⟩ := carried_of_honoured _ _ _ _ _ hc
  rw [of_decide_eq_true hdefault] at hsub
  exact ⟨q, hq, fun d hd => hsub hd⟩

theorem prefixes_of_honoured {site : Site} {owner : String} {mapped : List (Prefix × Prefix)}
    {keys : List Key} {c : Key × List Prefix} {chooser : Option Chooser}
    {as : List RouteGroupAssignment} (hc : c ∈ honoured site owner mapped keys chooser as) :
    ∃ a ∈ as, groupPrefixes a = .ok c.2 := by
  induction as generalizing chooser with
  | nil => cases hc
  | cons a rest ih =>
    simp only [honoured] at hc
    rcases hjudge : judge site owner mapped keys chooser a with ⟨chooser', _ | carried⟩
    · rw [hjudge] at hc
      obtain ⟨b, hb, hprefixes⟩ := ih hc
      exact ⟨b, .tail _ hb, hprefixes⟩
    · rw [hjudge] at hc
      rcases List.mem_cons.1 hc with rfl | hc
      · exact ⟨a, .head _, (judge_some hjudge).1⟩
      · obtain ⟨b, hb, hprefixes⟩ := ih hc
        exact ⟨b, .tail _ hb, hprefixes⟩

theorem names_default {a : RouteGroupAssignment} (h : groupPrefixes a = .ok defaultRoutes) :
    a.prefixes.any (fun raw => (parsePrefix raw).any (·.bits = 0)) = true := by
  obtain ⟨read, hread, hroutes⟩ := Base.map_eq_ok.1 h
  rcases readPrefixes_ok hread with ⟨-, raw, hraw, hbits⟩ | ⟨ps, rfl, hps⟩
  · exact List.any_eq_true.2 ⟨raw, hraw, hbits⟩
  · have hmem : (⟨.v4 0, 0, Nat.zero_le _⟩ : Prefix) ∈ ps := by
      rw [show ps = defaultRoutes from hroutes]
      exact .head _
    rcases hps _ hmem with hnil | ⟨raw, -, r, -, hbits, hr⟩
    · cases hnil
    · exact absurd (congrArg Prefix.bits hr).symm hbits

namespace FullTunnel

open Base (Calls)
open Netfilter (Ruleset)
open Nftables (lockKey)

def Stops (r : Setup) (p : Input) (own : List Prefix) : Prop :=
  r.hasEgress = false ∨ (p.failClosed = true ∧ r.hasLock = false) ∨
    carveout r p (p.tunnels ++ own) = none

instance (r : Setup) (p : Input) (own : List Prefix) : Decidable (Stops r p own) := by
  unfold Stops
  infer_instance

section Total

variable {h : Host}

theorem total_passive {c : Call} (hc : Passive c) (h : Host) :
    total act c h = some h := by
  unfold total
  rw [act_passive hc]
  rfl

theorem ensures_claim_total (iface : String) (h : Host) :
    Calls.Ensures (total act) (fun _ => true) (fun _ => True)
      (fun done t => done = true ∧ t.claimed = true) (claim iface) h := by
  refine Calls.ensures_all_total (g := fun c t => (act c t).getD t) (fun _ _ => rfl)
    (fun _ _ _ => rfl) (fun _ _ _ _ => trivial) trivial ⟨rfl, ?_⟩
  simp [claimCalls, act, Host.claimed]

theorem ensures_wanting_total {r : Setup} {claimed : Bool} {iface : String} {p : Input}
    {own : List Prefix} (hwants : p.wantsEgress = true) :
    Calls.Ensures (total act) (fun _ => true) (fun _ => True)
      (fun _ t => (Stops r p own → t = h) ∧ (¬Stops r p own → t.claimed = true))
      (applyEgress r claimed iface own p) h := by
  unfold applyEgress
  rw [if_pos hwants]
  by_cases hblocked : r.hasEgress = false ∨ (p.failClosed = true ∧ r.hasLock = false)
  · rw [if_pos hblocked]
    exact ⟨fun _ => rfl, fun hgoes => absurd (hblocked.imp_right .inl) hgoes⟩
  rw [if_neg hblocked]
  refine ensures_idle rfl trivial fun listed hlisted => ?_
  rw [hlisted rfl, if_pos rfl]
  cases hcarve : carveout r p (p.tunnels ++ own) with
  | none => exact ⟨fun _ => rfl, fun hgoes => absurd (.inr (.inr hcarve)) hgoes⟩
  | some carve =>
    have hgoes : ¬Stops r p own := by
      rintro (hno | hno | hno)
      · exact hblocked (.inl hno)
      · exact hblocked (.inr hno)
      · rw [hcarve] at hno
        cases hno
    have hclaim : ∀ t : Host, Calls.Ensures (total act) (fun _ => true) (fun _ => True)
        (fun _ t => (Stops r p own → t = h) ∧ (¬Stops r p own → t.claimed = true))
        (claim iface >>= fun done =>
          if done = true then pure (true, []) else pure (claimed, ["egress"])) t := by
      intro t
      refine ensures_seq (ensures_claim_total iface t) fun done t' ht => ?_
      rw [if_pos ht.1]
      exact ⟨fun hstops => absurd hstops hgoes, fun _ => ht.2⟩
    simp only [lockFor]
    by_cases hclosed : p.failClosed = true
    · rw [if_pos hclosed]
      exact ensures_make_total rfl rfl trivial (hclaim _)
    · rw [if_neg hclosed]
      exact hclaim h

end Total

def Released (r : Setup) (m : Machine) : Prop :=
  if m.claimed = true then
    (r.hasEgress = true ∨ m.host.claimed = false) ∧ (r.hasLock = true ∨ m.host.locked = false)
  else m.host.Clean

theorem ensures_releaseEgress_iff (r : Setup) (claimed : Bool) (h : Host) :
    Calls.Ensures act (fun _ => true) (fun _ => True)
      (fun _ t => t.Clean ↔ Released r ⟨h, claimed⟩) (releaseEgress r claimed) h := by
  cases claimed with
  | false => exact Iff.rfl
  | true =>
    have hunlock : ∀ (routed : Bool) (t : Host), t.rules = h.rules →
        (t.claimed = false ↔ (r.hasEgress = true ∨ h.claimed = false)) →
        Calls.Ensures act (fun _ => true) (fun _ => True)
          (fun _ t => t.Clean ↔ Released r ⟨h, true⟩)
          (if r.hasLock = true then do
              let unlocked ← make (.applyLock "" ⟨[], []⟩ false)
              pure !(routed && unlocked)
            else do
              let unlocked ← pure true
              pure !(routed && unlocked)) t := by
      intro routed t hrules hclaimed
      have hlocked : t.locked = h.locked := congrArg (Ruleset.has · lockKey) hrules
      by_cases hlock : r.hasLock = true
      · rw [if_pos hlock]
        refine ensures_make_total rfl (act_unlock _ _) trivial ?_
        refine ⟨fun hclean => ⟨hclaimed.1 hclean.2, .inl hlock⟩, fun hreleased => ?_⟩
        exact ⟨locked_without .., hclaimed.2 hreleased.1⟩
      · rw [if_neg hlock]
        refine ⟨fun hclean => ⟨hclaimed.1 hclean.2, .inr (hlocked.symm.trans hclean.1)⟩, ?_⟩
        exact fun hreleased => ⟨hlocked.trans (hreleased.2.resolve_left hlock),
          hclaimed.2 hreleased.1⟩
    simp only [releaseEgress, if_true]
    by_cases hegress : r.hasEgress = true
    · rw [if_pos hegress]
      refine ensures_seq (ensures_release h) fun routed t ht => ?_
      obtain ⟨hrules, hclaimed, hall⟩ := ht
      exact hunlock routed t hrules
        ⟨fun _ => .inl hegress, fun _ => hclaimed (hall fun _ => rfl)⟩
    · rw [if_neg hegress]
      exact hunlock true h rfl ⟨.inr, fun hor => hor.resolve_left hegress⟩

section Passes

variable {r : Setup} {m : Machine} {p : Input}

theorem applied_wanting (hwants : p.wantsEgress = true) {i : Interface} {unhonoured : List String}
    (hdesired : desired p.site r.membership p.told = .ok (i, unhonoured))
    (hreached : (m.applied r p fun _ => true).1.reached = true)
    (hsucceeds : (apply r m.claimed p).succeeds act (fun _ => true) m.host = true) :
    (Stops r p i.addresses → (m.applied r p fun _ => true).2 = m.host) ∧
      (¬Stops r p i.addresses → (m.applied r p fun _ => true).2.claimed = true) := by
  have hsame : m.applied r p (fun _ => true) = _ := Calls.exec_of_succeeds_total hsucceeds
  rw [hsame] at hreached ⊢
  refine (exec_of_ensures (ensures_apply (I := fun _ => True)
    (Q := fun _ t => (Stops r p i.addresses → t = m.host) ∧
      (¬Stops r p i.addresses → t.claimed = true))
    (fun _ hc => total_passive hc) trivial (fun _ _ _ => trivial)
    fun _ i' unhonoured' hdesired' => ?_)).1 hreached
  cases hdesired.symm.trans hdesired'
  exact ensures_wanting_total hwants

theorem applied_unwanting (hwants : p.wantsEgress = false)
    (hreached : (m.applied r p fun _ => true).1.reached = true) :
    (m.applied r p fun _ => true).2.Clean ↔ Released r m := by
  refine (exec_of_ensures
    (ensures_apply (I := fun _ => True) (Q := fun _ t => t.Clean ↔ Released r m)
      (fun _ hc => act_passive hc) trivial (fun _ _ _ => trivial) fun _ i _ _ => ?_)).1 hreached
  unfold applyEgress
  rw [if_neg (by rw [hwants]; exact Bool.false_ne_true)]
  exact ensures_bind (ensures_releaseEgress_iff r m.claimed m.host)

def Reaches (r : Setup) (p : Input) (i : Interface) : Prop :=
  (Wgplan.planFor i p.observed).isOk = true ∧ (r.hasFilter = true ∨ p.policed = false)

instance (r : Setup) (p : Input) (i : Interface) : Decidable (Reaches r p i) :=
  inferInstanceAs (Decidable (_ ∧ _))

theorem ensures_enforce_total (r : Setup) (p : Input) (h : Host) :
    Calls.Ensures (total act) (fun _ => true) (fun _ => True)
      (fun enforced _ => enforced = true ↔ (r.hasFilter = true ∨ p.policed = false))
      (enforce r p) h := by
  unfold enforce
  by_cases hfilter : r.hasFilter = true
  · rw [if_pos hfilter]
    exact ensures_idle (f := pure) (total_passive (c := .filter) trivial h) trivial fun enforced henforced =>
      ⟨fun _ => .inl hfilter, fun _ => henforced rfl⟩
  · rw [if_neg hfilter]
    refine ⟨fun hopen => .inr ?_, fun hor => ?_⟩
    · simpa using hopen
    · simpa using hor.resolve_left hfilter

theorem reached_iff {i : Interface} {unhonoured : List String}
    (hdesired : desired p.site r.membership p.told = .ok (i, unhonoured))
    (hsucceeds : (apply r m.claimed p).succeeds act (fun _ => true) m.host = true) :
    (m.applied r p fun _ => true).1.reached = true ↔ Reaches r p i := by
  have hsame : m.applied r p (fun _ => true) = _ := Calls.exec_of_succeeds_total hsucceeds
  rw [hsame]
  refine exec_of_ensures (I := fun _ => True)
    (Q := fun (result : Result) _ => result.reached = true ↔ Reaches r p i) ?_
  simp only [apply, hdesired]
  refine ensures_idle (total_passive (c := .observe false) trivial m.host) trivial fun observed hobserved => ?_
  rw [hobserved rfl, if_pos rfl]
  unfold Reaches
  cases hops : Wgplan.planFor i p.observed with
  | error _ =>
    exact ⟨fun hno => absurd hno Bool.false_ne_true, fun hno => absurd hno.1 Bool.false_ne_true⟩
  | ok ops =>
    refine ensures_bind (Calls.ensures_all_total (fun _ _ => rfl) (fun _ _ _ => rfl)
      (fun _ _ _ _ => trivial) trivial ?_)
    rw [if_pos rfl]
    refine ensures_idle (total_passive (c := .observe true) trivial _) trivial fun _ _ => ?_
    refine ensures_seq (ensures_enforce_total r p _) fun enforced t henforced => ?_
    cases enforced with
    | false =>
      refine ⟨fun hno => absurd hno Bool.false_ne_true, fun hor => ?_⟩
      exact absurd (henforced.2 hor.2) Bool.false_ne_true
    | true =>
      rw [if_pos rfl]
      refine ensures_bind (Calls.ensures_of_forall (fun _ => trivial) fun _ _ => ?_)
      refine ensures_bind (Calls.ensures_of_forall (fun _ => trivial) fun _ _ => ?_)
      exact ⟨fun _ => ⟨rfl, henforced.1 rfl⟩, fun _ => rfl⟩

theorem applied_stopped (hstopped : (m.applied r p fun _ => true).1.reached = false) :
    (m.applied r p fun _ => true).2 = m.host :=
  ((exec_of_ensures (ensures_apply (I := fun _ => True) (Q := fun _ _ => True)
    (fun _ hc => act_passive hc) trivial (fun _ _ _ => trivial) fun _ _ _ _ =>
      Calls.ensures_of_forall (fun _ => trivial) fun _ _ => trivial)).2 hstopped).2

theorem wants_of_honoured {i : Interface}
    (hegress : honoursEgress p.site i p.told.routeGroups = true) : p.wantsEgress = true := by
  obtain ⟨c, hc, hdefault⟩ := List.any_eq_true.1 hegress
  obtain ⟨a, ha, hprefixes⟩ := prefixes_of_honoured hc
  rw [of_decide_eq_true hdefault] at hprefixes
  exact List.any_eq_true.2 ⟨a, ha, names_default hprefixes⟩

end Passes

def Warranted (p : Input) (i : Interface) (h : Host) : Prop :=
  (h.claimed = true → Exits i) ∧
    (honoursEgress p.site i p.told.routeGroups = false → h.Clean)

instance (p : Input) (i : Interface) (h : Host) : Decidable (Warranted p i h) :=
  inferInstanceAs (Decidable (_ ∧ _))

theorem warranted_of_clean {i : Interface} {p : Input} {h : Host} (hclean : h.Clean) :
    Warranted p i h := by
  refine ⟨fun hclaimed => ?_, fun _ => hclean⟩
  rw [hclean.2] at hclaimed
  cases hclaimed

/-- After a pass in which every call succeeds, made in any state, what is claimed is warranted
exactly when the pass that wants egress honours a group that names a default route, or finds the
host clean and cannot claim, and the pass that wants none can release what there is. A pass that is
stopped before it comes to egress leaves what was. -/
theorem warranted_iff (r : Setup) (m : Machine) (p : Input) (i : Interface)
    (unhonoured : List String)
    (hdesired : desired p.site r.membership p.told = .ok (i, unhonoured))
    (hsucceeds : (apply r m.claimed p).succeeds act (fun _ => true) m.host = true) :
    Warranted p i (m.applied r p fun _ => true).2 ↔
    if Reaches r p i then
      if p.wantsEgress = true then
        honoursEgress p.site i p.told.routeGroups = true ∨ (m.host.Clean ∧ Stops r p i.addresses)
      else Released r m
    else Warranted p i m.host := by
  have hiff := reached_iff hdesired hsucceeds
  by_cases hreached : (m.applied r p fun _ => true).1.reached = true
  swap
  · rw [if_neg (mt hiff.2 hreached), applied_stopped (Bool.eq_false_iff.2 hreached)]
  rw [if_pos (hiff.1 hreached)]
  by_cases hwants : p.wantsEgress = true
  · rw [if_pos hwants]
    obtain ⟨hstays, hclaims⟩ := applied_wanting hwants hdesired hreached hsucceeds
    constructor
    · rintro ⟨_, hnone⟩
      cases hegress : honoursEgress p.site i p.told.routeGroups with
      | true => exact .inl rfl
      | false =>
        right
        have hclean := hnone hegress
        -- A pass that could claim has claimed.
        have hstops : Stops r p i.addresses := by
          by_contra hgoes
          have hclaimed := hclaims hgoes
          rw [hclean.2] at hclaimed
          cases hclaimed
        rw [hstays hstops] at hclean
        exact ⟨hclean, hstops⟩
    · rintro (hegress | ⟨hclean, hstops⟩)
      · refine ⟨fun _ => exits_of_honoured hdesired hegress, fun hno => ?_⟩
        rw [hegress] at hno
        cases hno
      · rw [hstays hstops]
        exact warranted_of_clean hclean
  · rw [if_neg hwants]
    have hclean := applied_unwanting (r := r) (m := m) (Bool.eq_false_iff.2 hwants) hreached
    constructor
    · rintro ⟨_, hnone⟩
      refine hclean.1 (hnone ?_)
      exact Bool.eq_false_iff.2 fun hegress => hwants (wants_of_honoured hegress)
    · intro hreleased
      exact warranted_of_clean (hclean.2 hreleased)

theorem warranted_laptop : ∃ i unhonoured,
    desired {} laptop (carriedByFirst ["0.0.0.0/0"]) = .ok (i, unhonoured) ∧
      Warranted (throughExit .enforced) i
        ((Machine.mk bare false).applied portable (throughExit .enforced) fun _ => true).2 := by
  obtain ⟨⟨i, unhonoured⟩, hdesired, hreaches, hhonours⟩ :
      ∃ d, desired {} laptop (carriedByFirst ["0.0.0.0/0"]) = .ok d ∧
        Reaches portable (throughExit .enforced) d.1 ∧
        honoursEgress {} d.1 (carriedByFirst ["0.0.0.0/0"]).routeGroups = true := by
    decide +kernel
  refine ⟨i, unhonoured, hdesired, (warranted_iff portable ⟨bare, false⟩ (throughExit .enforced) i
    unhonoured hdesired (by decide +kernel)).2 ?_⟩
  rw [if_pos hreaches, if_pos (by decide +kernel)]
  exact .inl hhonours

def throughNobody (prefixes : List String) (candidates : List Wire.RouteCandidate) : Input :=
  { told := { carriedByFirst prefixes with
      routeGroups := (carriedByFirst prefixes).routeGroups.map ({ · with candidates }) }
    failClosedPolicy := .enforced }

/-- Three groups that nobody carries: the carrier is no peer, there is no candidate, and a prefix
before the default route cannot be read. Each is reported, no peer is allowed a default route, and
the host is claimed and locked. -/
theorem claimed_for_nobody :
    ([throughNobody ["0.0.0.0/0"] [⟨"C", "C", 0, 1, .healthy, "", "", "C"⟩],
        throughNobody ["0.0.0.0/0"] [],
        throughNobody ["10.0.0.0/33", "0.0.0.0/0"]
          [⟨"A", "A", 0, 1, .healthy, "", "", "A"⟩]].all fun p =>
      (apply portable false p).succeeds act (fun _ => true) bare = true ∧
        (desired p.site laptop p.told).toOption.any (fun d =>
          d.2 = ["office"] ∧ ¬Exits d.1 ∧ ¬Warranted p d.1
            ((Machine.mk bare false).applied portable p fun _ => true).2) = true ∧
        ((Machine.mk bare false).applied portable p fun _ => true).2.claimed = true ∧
        ((Machine.mk bare false).applied portable p fun _ => true).2.locked = true) = true := by
  decide +kernel

end FullTunnel

end Meshp.Tunnel
