import Meshp.Tunnel.Desired

/-!
# One Prefix, One Membership

The memberships of a device reconcile on timers of their own and share a registry
of what each is assigned. A pass declares all of its membership's prefixes, then
asks for every prefix of every group whether another membership declared it too,
and carries the groups that nobody contests. Declaring and each asking are
separate critical sections, so passes mix in any order. Whoever finds a prefix
uncontested has declared it before asking. The addresses of a network's own peers
are routed without being declared.
-/

namespace Meshp.Tunnel.Contest

open Base (run run_inv Along)
open Netip (Prefix)
open Wire (RouteGroupAssignment)

/-- A device, and what each membership is told, by the name of its interface: its groups, and
the allowed addresses of its peers. -/
structure Device where
  canTranslate : Bool := false
  assignments : String → List RouteGroupAssignment
  addresses : String → List Prefix

namespace Device

def mapped (d : Device) (owner : String) : List (Prefix × Prefix) :=
  mappedPrefixes d.canTranslate (d.assignments owner)

def routed (d : Device) (owner : String) (a : RouteGroupAssignment) : List Prefix :=
  match groupPrefixes a with
  | .ok ps => routedAs (d.mapped owner) ps
  | .error _ => []

def declared (d : Device) (owner : String) : List Prefix :=
  declaredPrefixes (d.mapped owner) (d.assignments owner)

/-- What a membership routes with none of its groups, as `wantRoutes` has it. -/
def own (d : Device) (owner : String) : List Prefix :=
  (d.addresses owner).map fun p => (mappedTo (d.mapped owner) p).getD p

end Device

/-- A run of `applyRouteGroups`: the groups still to judge, the prefixes of the current one that
are still to ask about and those asked, whether one was contested, and what is routed so far. -/
structure Pass where
  owner : String
  todo : List RouteGroupAssignment
  asking : List Prefix := []
  asked : List Prefix := []
  contested : Bool := false
  routes : List Prefix := []

/-- The registry, the passes under way, and what the latest description of each membership
routes. -/
structure World where
  claims : Claims := []
  passes : List Pass := []
  latest : String → List Prefix := fun _ => []

inductive Move
  /-- A pass declares. -/
  | declare (owner : String)
  /-- A pass asks whether its next prefix is contested. -/
  | ask (i : Nat)
  /-- A pass is done with a group, whose chosen candidate is a peer of the device or is not. -/
  | turn (i : Nat) (carried : Bool)

def step (d : Device) (w : World) : Move → World
  | .declare owner =>
    { w with
      claims := w.claims.declare owner (d.declared owner)
      passes := w.passes ++ [{ owner, todo := d.assignments owner, routes := d.own owner }] }
  | .ask i =>
    match w.passes[i]? with
    | some ⟨owner, todo, p :: asking, asked, contested, routes⟩ =>
      let contested := contested || (p.bits ≠ 0 && w.claims.contested owner p ≠ [])
      { w with passes := w.passes.set i ⟨owner, todo, asking, asked ++ [p], contested, routes⟩ }
    | _ => w
  | .turn i carried =>
    match w.passes[i]? with
    | some ⟨owner, todo, [], asked, contested, routes⟩ =>
      let routes := if carried ∧ contested = false then routes ++ asked else routes
      match todo with
      | [] =>
        { w with passes := w.passes.eraseIdx i, latest := Function.update w.latest owner routes }
      | a :: todo =>
        let asking := d.routed owner a
        { w with passes := w.passes.set i { owner, todo, asking, routes } }
    | _ => w

theorem mem_declare {c : Claims} {owner o : String} {ps qs : List Prefix} :
    (o, ps) ∈ c.declare owner qs ↔
      (o ≠ owner ∧ (o, ps) ∈ c) ∨ (o = owner ∧ ps = qs ∧ qs ≠ []) := by
  unfold Claims.declare
  by_cases hq : qs = []
  · simp [hq, and_comm]
  · simp only [hq, if_false, List.mem_cons, Prod.mk.injEq, List.mem_filter, decide_eq_true_eq]
    tauto

theorem contested_ne_nil {c : Claims} {owner o : String} {ps : List Prefix} {p : Prefix}
    (h : (o, ps) ∈ c) (ho : o ≠ owner) (hp : p ∈ ps) : c.contested owner p ≠ [] := by
  refine List.ne_nil_of_mem ((List.mem_insertionSort _).2 (List.mem_map.2 ⟨(o, ps), ?_, rfl⟩))
  simpa [List.mem_filter, h, ho] using hp

variable {d : Device} {w : World}

theorem bits_mappedTo {owner : String} {p q : Prefix} (h : mappedTo (d.mapped owner) p = some q) :
    q.bits = p.bits := by
  have hmem : (p, q) ∈ d.mapped owner := by
    obtain ⟨before, after, heq, -⟩ := List.lookup_eq_some_iff.1 h
    rw [← List.mem_reverse, heq]
    simp
  unfold Device.mapped mappedPrefixes at hmem
  split at hmem
  · obtain ⟨m, -, hm⟩ := List.mem_filterMap.1 hmem
    split at hm
    · split at hm
      · rename_i hbits
        cases hm
        exact hbits.1.symm
      · cases hm
    · cases hm
  · cases hmem

theorem declared_of_routed {owner : String} {a : RouteGroupAssignment} {p : Prefix}
    (ha : a ∈ d.assignments owner) (hp : p ∈ d.routed owner a) (hbits : p.bits ≠ 0) :
    p ∈ d.declared owner := by
  unfold Device.routed at hp
  split at hp
  · rename_i ps hps
    obtain ⟨q, hq, rfl⟩ := List.mem_map.1 hp
    obtain ⟨read, hread, rfl⟩ := Base.map_eq_ok.1 hps
    rcases readPrefixes_ok hread with ⟨rfl, -⟩ | ⟨ps, rfl, hall⟩
    · -- A default route is mapped to no more than another one.
      refine absurd ?_ hbits
      have hzero : q.bits = 0 := by
        simp only [Option.getD_none, defaultRoutes, List.mem_cons, List.not_mem_nil, or_false] at hq
        rcases hq with rfl | rfl <;> rfl
      cases hto : mappedTo (d.mapped owner) q.masked with
      | none => exact hzero
      | some range => exact (bits_mappedTo hto).trans hzero
    · rcases hall q hq with hnil | ⟨raw, hraw, r, hr, -, rfl⟩
      · cases hnil
      · refine List.mem_map.2 ⟨r.masked, List.mem_map.2 ⟨r, ?_, rfl⟩, rfl⟩
        exact List.mem_filterMap.2 ⟨raw, List.mem_flatMap.2 ⟨a, ha, hraw⟩, hr⟩
  · cases hp

def Pass.Sure (x : Pass) (p : Prefix) : Prop :=
  p ∈ x.routes ∨ x.contested = false ∧ p ∈ x.asked

def Sure (d : Device) (w : World) (o : String) (p : Prefix) : Prop :=
  p ∉ d.own o ∧ (p ∈ w.latest o ∨ ∃ x ∈ w.passes, x.owner = o ∧ x.Sure p)

structure Begun (d : Device) (c : Claims) (x : Pass) : Prop where
  claimed : d.declared x.owner ≠ [] → (x.owner, d.declared x.owner) ∈ c
  todo : ∀ a ∈ x.todo, a ∈ d.assignments x.owner
  asking : ∀ p ∈ x.asking, p.bits ≠ 0 → p ∈ d.declared x.owner

structure Exclusive (d : Device) (w : World) : Prop where
  begun : ∀ x ∈ w.passes, Begun d w.claims x
  sure : ∀ o p, Sure d w o p → p.bits ≠ 0 → p ∈ d.declared o ∧ (o, d.declared o) ∈ w.claims
  one : ∀ o o' p, Sure d w o p → Sure d w o' p → p.bits ≠ 0 → o = o'

theorem Exclusive.of_sure (h : Exclusive d w) {w' : World} (hclaims : w'.claims = w.claims)
    (hbegun : ∀ x ∈ w'.passes, Begun d w.claims x) (hsure : ∀ o p, Sure d w' o p → Sure d w o p) :
    Exclusive d w' :=
  ⟨hclaims ▸ hbegun, fun o p hs => hclaims ▸ h.sure o p (hsure o p hs),
    fun o o' p hs hs' => h.one o o' p (hsure o p hs) (hsure o' p hs')⟩

theorem exclusive_declare (h : Exclusive d w) (owner : String) :
    Exclusive d (step d w (.declare owner)) := by
  -- A membership that declares again declares the same.
  have hkept : ∀ o, d.declared o ≠ [] → (o, d.declared o) ∈ w.claims →
      (o, d.declared o) ∈ w.claims.declare owner (d.declared owner) := by
    intro o hne ho
    by_cases heq : o = owner
    · exact mem_declare.2 (.inr ⟨heq, heq ▸ rfl, heq ▸ hne⟩)
    · exact mem_declare.2 (.inl ⟨heq, ho⟩)
  have hsure : ∀ o p, Sure d (step d w (.declare owner)) o p → Sure d w o p := by
    rintro o p ⟨hown, hp | ⟨x, hx, rfl, hp⟩⟩
    · exact ⟨hown, .inl hp⟩
    · rcases List.mem_append.1 hx with hx | hx
      · exact ⟨hown, .inr ⟨x, hx, rfl, hp⟩⟩
      · -- The new pass routes only what needs no group.
        cases List.mem_singleton.1 hx
        rcases hp with hp | ⟨-, hp⟩
        · exact absurd hp hown
        · cases hp
  refine ⟨fun x hx => ?_, fun o p hs hp => ?_,
    fun o o' p hs hs' => h.one o o' p (hsure o p hs) (hsure o' p hs')⟩
  · rcases Base.mem_concat.1 hx with hx | rfl
    · exact { h.begun x hx with claimed := fun hne => hkept _ hne ((h.begun x hx).claimed hne) }
    · exact ⟨fun hne => mem_declare.2 (.inr ⟨rfl, rfl, hne⟩), fun a ha => ha, nofun⟩
  · obtain ⟨hmem, hclaim⟩ := h.sure o p (hsure o p hs) hp
    exact ⟨hmem, hkept o (List.ne_nil_of_mem hmem) hclaim⟩

theorem exclusive_ask (h : Exclusive d w) (i : Nat) : Exclusive d (step d w (.ask i)) := by
  simp only [step]
  split
  · rename_i owner todo p asking asked contested routes hi
    have hx := List.mem_of_getElem? hi
    obtain ⟨hclaimed, htodo, hasking⟩ := h.begun _ hx
    -- Whoever is sure now was so before, or has just found `p` uncontested.
    have hsure : ∀ o q, Sure d { w with passes := w.passes.set i ⟨owner, todo, asking,
        asked ++ [p], contested || (p.bits ≠ 0 && w.claims.contested owner p ≠ []), routes⟩ } o q →
        Sure d w o q ∨ o = owner ∧ q = p ∧ (p.bits ≠ 0 → w.claims.contested owner p = []) := by
      rintro o q ⟨hown, hq | ⟨y, hy, rfl, hq⟩⟩
      · exact .inl ⟨hown, .inl hq⟩
      · rcases List.mem_or_eq_of_mem_set hy with hy | rfl
        · exact .inl ⟨hown, .inr ⟨y, hy, rfl, hq⟩⟩
        · rcases hq with hq | ⟨hfree, hq⟩
          · exact .inl ⟨hown, .inr ⟨_, hx, rfl, .inl hq⟩⟩
          · obtain ⟨hbefore, hfree⟩ := Bool.or_eq_false_iff.1 hfree
            rcases List.mem_append.1 hq with hq | hq
            · exact .inl ⟨hown, .inr ⟨_, hx, rfl, .inr ⟨hbefore, hq⟩⟩⟩
            · refine .inr ⟨rfl, List.mem_singleton.1 hq, fun hbits => ?_⟩
              simpa [hbits] using hfree
    have hnew : p.bits ≠ 0 → p ∈ d.declared owner := hasking p (.head _)
    -- Another who is sure of it has declared it, so it was contested.
    have hother : ∀ o, p.bits ≠ 0 → w.claims.contested owner p = [] → Sure d w o p → o = owner := by
      intro o hbits hfree hs
      obtain ⟨hmem, hclaim⟩ := h.sure o p hs hbits
      by_contra hne
      exact contested_ne_nil hclaim hne hmem hfree
    refine ⟨fun y hy => ?_, fun o q hs hbits => ?_, fun o o' q hs hs' hbits => ?_⟩
    · rcases List.mem_or_eq_of_mem_set hy with hy | rfl
      · exact h.begun y hy
      · exact ⟨hclaimed, htodo, fun q hq => hasking q (.tail _ hq)⟩
    · rcases hsure o q hs with hs | ⟨rfl, rfl, -⟩
      · exact h.sure o q hs hbits
      · exact ⟨hnew hbits, hclaimed (List.ne_nil_of_mem (hnew hbits))⟩
    · rcases hsure o q hs with hold | ⟨rfl, rfl, hfree⟩
      · rcases hsure o' q hs' with hs' | ⟨rfl, rfl, hfree⟩
        · exact h.one o o' q hold hs' hbits
        · exact hother o hbits (hfree hbits) hold
      · rcases hsure o' q hs' with hs' | ⟨heq, -⟩
        · exact (hother o' hbits (hfree hbits) hs').symm
        · exact heq.symm
  · exact h

theorem exclusive_turn (h : Exclusive d w) (i : Nat) (carried : Bool) :
    Exclusive d (step d w (.turn i carried)) := by
  simp only [step]
  split
  · rename_i owner todo asked contested routes hi
    have hx := List.mem_of_getElem? hi
    obtain ⟨hclaimed, htodo, -⟩ := h.begun _ hx
    have hroutes : ∀ q, q ∉ d.own owner →
        q ∈ (if carried ∧ contested = false then routes ++ asked else routes) →
        Sure d w owner q := by
      intro q hown hq
      refine ⟨hown, .inr ⟨_, hx, rfl, ?_⟩⟩
      split at hq
      · rename_i hfree
        rcases List.mem_append.1 hq with hq | hq
        · exact .inl hq
        · exact .inr ⟨hfree.2, hq⟩
      · exact .inl hq
    cases todo with
    | nil =>
      refine h.of_sure rfl (fun y hy => h.begun y (List.mem_of_mem_eraseIdx hy)) ?_
      rintro o q ⟨hown, hq | ⟨y, hy, rfl, hq⟩⟩
      · by_cases ho : o = owner
        · subst ho
          exact hroutes q hown (by simpa only [Function.update_self] using hq)
        · exact ⟨hown, .inl (by simpa only [Function.update_of_ne ho] using hq)⟩
      · exact ⟨hown, .inr ⟨y, List.mem_of_mem_eraseIdx hy, rfl, hq⟩⟩
    | cons a todo =>
      refine h.of_sure rfl (fun y hy => ?_) ?_
      · rcases List.mem_or_eq_of_mem_set hy with hy | rfl
        · exact h.begun y hy
        · exact ⟨hclaimed, fun b hb => htodo b (.tail _ hb),
            fun q hq => declared_of_routed (htodo a (.head _)) hq⟩
      · rintro o q ⟨hown, hq | ⟨y, hy, rfl, hq⟩⟩
        · exact ⟨hown, .inl hq⟩
        · rcases List.mem_or_eq_of_mem_set hy with hy | rfl
          · exact ⟨hown, .inr ⟨y, hy, rfl, hq⟩⟩
          · rcases hq with hq | ⟨-, hq⟩
            · exact hroutes q hown hq
            · cases hq
  · exact h

theorem exclusive_step (w : World) (m : Move) (h : Exclusive d w) : Exclusive d (step d w m) := by
  cases m with
  | declare owner => exact exclusive_declare h owner
  | ask i => exact exclusive_ask h i
  | turn i carried => exact exclusive_turn h i carried

/-- At no time do the latest descriptions of two memberships route the same prefix, default
routes and the addresses of their peers apart. -/
theorem routes_exclusive (d : Device) (ms : List Move) {o o' : String} (ho : o ≠ o') {p : Prefix}
    (hbits : p.bits ≠ 0) (hown : p ∉ d.own o) (hown' : p ∉ d.own o')
    (hp : p ∈ (run (step d) {} ms).latest o) : p ∉ (run (step d) {} ms).latest o' := by
  have hnone : ∀ o p, ¬Sure d {} o p := by
    rintro o p ⟨-, h | ⟨x, h, -⟩⟩ <;> cases h
  have hinv : Exclusive d (run (step d) {} ms) :=
    run_inv (Exclusive d) exclusive_step _ ms
      ⟨nofun, fun o p hs => absurd hs (hnone o p), fun o o' p hs => absurd hs (hnone o p)⟩
  intro hp'
  exact ho (hinv.one o o' p ⟨hown, .inl hp⟩ ⟨hown', .inl hp'⟩ hbits)

def twins : Device where
  assignments _ := (carriedByFirst ["192.168.1.0/24"]).routeGroups
  addresses _ := [⟨.v4 0x645A0002, 32, Nat.le_refl _⟩]

def inTurn : List Move :=
  [.declare "a", .turn 0 true, .ask 0, .turn 0 true, .declare "b", .turn 0 true, .ask 0, .turn 0 true]

theorem routes_exclusive_twins :
    let lan : Prefix := ⟨.v4 0xC0A80100, 24, by decide⟩
    lan ∈ (run (step twins) {} inTurn).latest "a" ∧
      lan ∉ (run (step twins) {} inTurn).latest "b" := by
  intro lan
  have hlan : lan ∈ (run (step twins) {} inTurn).latest "a" := by decide +kernel
  exact ⟨hlan, routes_exclusive twins inTurn (by decide) (by decide) (by decide) (by decide) hlan⟩

/-- What no group routes is never asked about: both route to the peer of that address. -/
theorem addresses_shared :
    let p : Prefix := ⟨.v4 0x645A0002, 32, Nat.le_refl _⟩
    p.bits ≠ 0 ∧ p ∈ (run (step twins) {} inTurn).latest "a" ∧
      p ∈ (run (step twins) {} inTurn).latest "b" := by
  decide +kernel

structure Registry where
  claims : Claims := []
  gone : List String := []

def Registry.present (r : Registry) : Claims :=
  r.claims.filter (·.1 ∉ r.gone)

inductive Registry.Event
  | pass (site : Site) (m : Membership) (told : Told)
  | teardown (owner : String)

/-- A pass declares once it has read its peers and addresses. `Teardown` takes down the names, the
rulesets and the link, and does not come to the registry. -/
def Registry.step (r : Registry) : Event → Registry
  | .pass site m told =>
    match undivided site.relay m told.mtu told.peers with
    | .error _ => r
    | .ok i =>
      let mapped := mappedPrefixes site.canTranslate told.routeGroups
      { claims := r.claims.declare i.name (declaredPrefixes mapped told.routeGroups)
        gone := r.gone.filter (· ≠ i.name) }
  | .teardown owner => { r with gone := owner :: r.gone }

def Unhindered (r : Registry) : Registry.Event → Prop
  | .pass site m told => desired { site with claims := some r.claims } m told =
      desired { site with claims := some r.present } m told
  | .teardown _ => True

def Undeclared (r : Registry) : Registry.Event → Prop
  | .pass _ _ _ => True
  | .teardown owner => ∀ c ∈ r.claims, c.1 ≠ owner

theorem present_step {r : Registry} {e : Registry.Event} (h : ∀ c ∈ r.claims, c.1 ∉ r.gone)
    (hcond : Undeclared r e) : ∀ c ∈ (r.step e).claims, c.1 ∉ (r.step e).gone := by
  cases e with
  | teardown owner =>
    intro c hc
    exact List.not_mem_cons_of_ne_of_not_mem (hcond c hc) (h c hc)
  | pass site m told =>
    simp only [Registry.step]
    split
    · exact h
    · intro c hc
      rw [List.mem_filter]
      rcases mem_declare.1 hc with ⟨-, hold⟩ | ⟨howner, -⟩
      · exact fun hgone => h c hold hgone.1
      · exact fun hgone => of_decide_eq_true hgone.2 howner

/-- Where only memberships that claim nothing are torn down, no pass is hindered by one that left. -/
theorem unhindered_along (events : List Registry.Event)
    (h : Along Registry.step Undeclared {} events) :
    Along Registry.step Unhindered {} events := by
  have hstart : ∀ c ∈ ({} : Registry).claims, c.1 ∉ ({} : Registry).gone := nofun
  generalize ({} : Registry) = r at h hstart
  induction events generalizing r with
  | nil => trivial
  | cons e events ih =>
    refine ⟨?_, ih (r.step e) h.2 (present_step hstart h.1)⟩
    have hpresent : r.present = r.claims :=
      List.filter_eq_self.2 fun c hc => decide_eq_true (hstart c hc)
    cases e with
    | teardown owner => trivial
    | pass site m told => rw [Unhindered, hpresent]

theorem unhindered_released :
    let events := [.pass {} laptop (carriedByFirst ["192.168.1.0/24"]),
      .pass {} laptop { carriedByFirst [] with routeGroups := [] }, .teardown "meshp0",
      .pass {} { laptop with interfaceName := "meshp1" } (carriedByFirst ["192.168.1.0/24"])]
    Along Registry.step Unhindered {} events := by
  refine unhindered_along _ ⟨trivial, trivial, ?_, trivial, trivial⟩
  unfold Undeclared
  decide +kernel

/-- A membership is torn down, and what it claimed keeps another from carrying the same. -/
theorem claim_outlives_membership :
    ¬Along Registry.step Unhindered {} [.pass {} laptop (carriedByFirst ["192.168.1.0/24"]),
      .teardown "meshp0",
      .pass {} { laptop with interfaceName := "meshp1" } (carriedByFirst ["192.168.1.0/24"])] := by
  intro h
  -- The group is unhonoured with the claim there, and honoured without it.
  have hunhonoured := congrArg (Except.map Prod.snd) h.2.2.1
  revert hunhonoured
  decide +kernel

end Meshp.Tunnel.Contest
