import Meshp.Session.Collide

/-!
# An Agent at the Head Has the Ranges of the Head

A store, the table of mapped ranges beside it, and one agent that is sent what is
built for it and folds it in. Builds for other memberships happen too, and every
build may record ranges. What an agent holds goes stale in silence when something
changes it that no log says.
-/

namespace Meshp.Session

open Base (Along insertAll run)
open Store

structure World where
  mesh : Mesh := {}
  ranges : List MappedRange := []
  agent : Peerset.Set := {}

/-- A mutation, a state built for some membership, or one built for the agent that it folds in. -/
inductive Turn
  | mutate (s : Stamped)
  | build (membership : Id) (applied : Nat)
  | sync

def World.builder (b : Builder) (w : World) : Builder :=
  { b with mappings := fun device =>
      (ensureMappings defaultMappedBlock w.mesh w.ranges device).mappings }

def World.recorded (w : World) (membership : Id) (applied : Nat) : List MappedRange :=
  match sessionRow w.mesh membership with
  | .error _ => w.ranges
  | .ok row =>
    if readsRoutes w.mesh row applied ∧
        groupRows w.mesh.toTables row.membership.networkId ≠ [] then
      w.ranges ++
        (ensureMappings defaultMappedBlock w.mesh w.ranges row.membership.deviceId).fresh
    else w.ranges

/-- One turn of a world whose agent is membership `me`. -/
def World.turn (c : Enroll.Checks) (b : Builder) (me : Id) (w : World) : Turn → World
  | .mutate s => { w with mesh := apply c w.mesh s }
  | .build membership applied => { w with ranges := w.recorded membership applied }
  | .sync =>
    { w with
      ranges := w.recorded me w.agent.version
      agent :=
        match (w.builder b).for w.mesh me w.agent.version with
        | .ok d => w.agent.apply d
        | .error _ => w.agent }

def mappedOf (s : Peerset.Set) (group : String) : Option (List Wire.MappedPrefix) :=
  (s.routeGroups.lookup group).map Wire.RouteGroupAssignment.mappedPrefixes

def Heard (x : Membership) (w : World) : Turn → Prop
  | .mutate s => RoutesUnseen x.networkId w.mesh s ∧ KeepsCollision x.deviceId w.mesh s
  | .build membership _ =>
    ∀ y ∈ w.mesh.memberships, y.id = membership → y.deviceId ≠ x.deviceId →
      colliding (carriedPrefixesForDevice w.mesh.toTables x.deviceId) = [] ∨
        ∀ p ∈ colliding (carriedPrefixesForDevice w.mesh.toTables y.deviceId),
          x.networkId ∈
              networksCarrying (carriedPrefixesForDevice w.mesh.toTables y.deviceId) p →
            ∃ r ∈ w.ranges, r.networkId = x.networkId ∧ r.real = p
  | .sync => Roomy defaultMappedBlock w.mesh w.ranges x.deviceId

def RoutesLogged (m : Mesh) (n : Id) (F : Nat) : Prop :=
  m.Logged n F .routes ∨ ∃ id, m.Logged n F (.routeGroupRemove id)

def assignedTable (b : Builder) (w : World) (x : Membership) :
    Finmap fun _ : String => Wire.RouteGroupAssignment :=
  insertAll Wire.RouteGroupAssignment.routeGroupId ∅
    (routeGroupsFor (w.builder b) w.mesh.toTables x).assigned

/-- What is known of the agent: unless the log says otherwise, it holds the assignments of the head
and its device lacks no range; and a group it holds is still there or is named as deleted. -/
structure Tracking (b : Builder) (x : Membership) (w : World) : Prop where
  held : w.agent.version ≤ w.mesh.version x.networkId
  named : w.mesh.floor x.networkId ≤ w.agent.version →
    ∀ k, w.agent.routeGroups.lookup k ≠ none → ∃ id, idText id = k ∧
      (id ∈ (groupsOf w.mesh.toTables x.networkId).map RouteGroup.id ∨
        w.mesh.Logged x.networkId w.agent.version (.routeGroupRemove id))
  same : w.mesh.floor x.networkId ≤ w.agent.version →
    ¬RoutesLogged w.mesh x.networkId w.agent.version →
      w.agent.routeGroups = assignedTable b w x ∧
        (groupRows w.mesh.toTables x.networkId = [] ∨ Settled w.mesh w.ranges x.deviceId)

/-- The invariant of a world with an agent for membership `x`. -/
structure Tracks (c : Enroll.Checks) (b : Builder) (x : Membership) (w : World) : Prop where
  reached : ∃ ss, w.mesh = history c ss
  ranges : RangesInv w.ranges
  fresh : w.agent.version ≠ 0 → x.id < w.mesh.nextId
  tracking : x ∈ w.mesh.memberships → w.agent.version = 0 ∨ Tracking b x w

section Steps

variable {c : Enroll.Checks} {b : Builder} {x : Membership} {w : World}

theorem Tracks.inv (h : Tracks c b x w) : w.mesh.Inv := by
  rcases h.reached with ⟨ss, hss⟩
  rw [hss]
  exact inv_history ss

theorem assignedTable_congr {w' : World}
    (hrows : groupRows w'.mesh.toTables x.networkId = groupRows w.mesh.toTables x.networkId)
    (hmapped : groupRows w.mesh.toTables x.networkId = [] ∨
      mappedByNetwork ((w'.builder b).mappings x.deviceId) x.networkId =
        mappedByNetwork ((w.builder b).mappings x.deviceId) x.networkId) :
    assignedTable b w' x = assignedTable b w x := by
  have hscore : (w'.builder b).score = (w.builder b).score := rfl
  unfold assignedTable
  rw [assigned_eq, assigned_eq, hrows, hscore]
  rcases hmapped with hnil | hmapped
  · rw [hnil, List.filter_nil, List.map_nil, List.map_nil]
  · rw [hmapped]

theorem tracks_mutate (hact : x.state = .active) (h : Tracks c b x w) (s : Stamped)
    (hheard : Heard x w (.mutate s)) : Tracks c b x (w.turn c b x.id (.mutate s)) := by
  have hinv := h.inv
  have he : Effect c s w.mesh (apply c w.mesh s) := apply_effect hinv.routes
  rcases h.reached with ⟨ss, hss⟩
  refine ⟨⟨ss ++ [s], ?_⟩, h.ranges, fun hv => Nat.lt_of_lt_of_le (h.fresh hv) he.nextId_le,
    fun hx' => ?_⟩
  · change apply c w.mesh s = _
    rw [hss, history, history, Base.run_append]
    rfl
  change x ∈ (apply c w.mesh s).memberships at hx'
  by_cases hv : w.agent.version = 0
  · exact .inl hv
  -- An agent that has been sent something was there before, and is the same row.
  have hx : x ∈ w.mesh.memberships := by
    rcases he.member_of hx' with ⟨y, hy, _, hsame⟩ | hnew
    · rw [← hsame hact]
      exact hy
    · exact absurd (h.fresh hv) (Nat.not_lt.2 hnew)
  have ht := (h.tracking hx).resolve_left hv
  have hle : (apply c w.mesh s).version x.networkId ≥ w.mesh.version x.networkId := he.version_le
  refine .inr ⟨Nat.le_trans ht.held hle, fun hfl k hk => ?_, fun hfl hquiet => ?_⟩
  · rcases ht.named (Nat.le_trans he.floor_le hfl) k hk with ⟨id, hid, hstay | hlog⟩
    · exact ⟨id, hid, groupsOf_step he ht.held hstay⟩
    · exact ⟨id, hid, .inr (he.logged hinv hlog hfl nofun)⟩
  · have hfl₀ := Nat.le_trans he.floor_le hfl
    have hquiet₀ : ¬RoutesLogged w.mesh x.networkId w.agent.version := by
      rintro (hlog | ⟨id, hlog⟩)
      · exact hquiet (.inl (he.logged hinv hlog hfl nofun))
      · exact hquiet (.inr ⟨id, he.logged hinv hlog hfl nofun⟩)
    rcases ht.same hfl₀ hquiet₀ with ⟨hheld, hsettled⟩
    have hnone : ¬(apply c w.mesh s).Logged x.networkId w.agent.version .routes :=
      fun hlog => hquiet (.inl hlog)
    have hrows := (groupRows_step he hinv ht.held hheard.1).resolve_right hnone
    have hstep := carried_step he hinv hx hx' hact ht.held hnone
    -- What is carried only shrinks, so nothing new can lack a range.
    have hsettled' : groupRows w.mesh.toTables x.networkId = [] ∨
        Settled (apply c w.mesh s) w.ranges x.deviceId := by
      refine hsettled.imp_right fun hs p hp n hn => ?_
      have hsub := fun d hd => (hstep d).1 hd
      exact hs p (colliding_mono hsub hp) n (networksCarrying_mono hsub hn)
    refine ⟨hheld.trans (assignedTable_congr hrows ?_).symm, ?_⟩
    · rcases hsettled with hnil | hs
      · exact .inl hnil
      · rcases hsettled' with hnil | hs'
        · exact .inl hnil
        · right
          refine mapped_eq h.ranges h.ranges hs hs'
            (colliding_step he hinv hx hx' hact ht.held hnone hheard.2) (fun p => ?_)
            fun _ _ _ => Iff.rfl
          refine ⟨(hstep _).1, fun hd => ((hstep _).2 hd).resolve_right fun hlost => ?_⟩
          exact hlost.1 rfl
    · change groupRows (apply c w.mesh s).toTables x.networkId = [] ∨ _
      rw [hrows]
      exact hsettled'

theorem recorded_eq (membership : Id) (applied : Nat) :
    w.recorded membership applied = w.ranges ∨
      ∃ y ∈ w.mesh.memberships, y.id = membership ∧ w.recorded membership applied = w.ranges ++
        (ensureMappings defaultMappedBlock w.mesh w.ranges y.deviceId).fresh := by
  unfold World.recorded
  split
  · exact .inl rfl
  · rename_i row hrow
    rcases sessionRow_ok hrow with ⟨hmem, hid, _⟩
    split
    · exact .inr ⟨row.membership, hmem, hid, rfl⟩
    · exact .inl rfl

theorem tracking_record (hinv : RangesInv w.ranges) {membership : Id} {applied : Nat}
    (hheard : Heard x w (.build membership applied)) (h : Tracking b x w) :
    Tracking b x { w with ranges := w.recorded membership applied } := by
  refine ⟨h.held, h.named, fun hfl hquiet => ?_⟩
  rcases h.same hfl hquiet with ⟨hheld, hsettled⟩
  suffices hnew : assignedTable b { w with ranges := w.recorded membership applied } x =
      assignedTable b w x ∧ (groupRows w.mesh.toTables x.networkId = [] ∨
        Settled w.mesh (w.recorded membership applied) x.deviceId) by
    exact ⟨hheld.trans hnew.1.symm, hnew.2⟩
  rcases recorded_eq (w := w) membership applied with hrec | ⟨y, hy, hid, hrec⟩
  · rw [hrec]
    exact ⟨rfl, hsettled⟩
  rw [hrec]
  rcases hsettled with hnil | hs
  · exact ⟨assignedTable_congr rfl (.inl hnil), .inl hnil⟩
  by_cases hdev : y.deviceId = x.deviceId
  · rw [hdev, ensureMappings_settled hs]
    simp only [List.append_nil]
    exact ⟨trivial, .inr hs⟩
  · have hs' : Settled w.mesh (w.ranges ++
        (ensureMappings defaultMappedBlock w.mesh w.ranges y.deviceId).fresh) x.deviceId := by
      intro p hp n hn
      rcases hs p hp n hn with ⟨r, hr, hrow⟩
      exact ⟨r, List.mem_append_left _ hr, hrow⟩
    refine ⟨assignedTable_congr rfl (.inr ?_), .inr hs'⟩
    refine mapped_eq hinv (rangesInv_record hinv) hs hs' Iff.rfl (fun _ => Iff.rfl)
      fun hcol r hr => ⟨fun hmem => ?_, List.mem_append_left _⟩
    rcases List.mem_append.1 hmem with hmem | hmem
    · exact hmem
    · -- It recorded nothing for this network.
      rcases mem_needed.1 (mem_fresh hmem) with ⟨hp, hn, hnone⟩
      rw [hr] at hn hnone
      rcases (hheard y hy hid hdev).resolve_left hcol _ hp hn with ⟨r', hr', hrow⟩
      exact absurd hrow (hnone r' hr')

theorem rangesInv_recorded (hinv : RangesInv w.ranges) (membership : Id) (applied : Nat) :
    RangesInv (w.recorded membership applied) := by
  rcases recorded_eq (w := w) membership applied with hrec | ⟨y, _, _, hrec⟩
  · rw [hrec]
    exact hinv
  · rw [hrec]
    exact rangesInv_record hinv

theorem tracks_build (h : Tracks c b x w) (membership : Id) (applied : Nat)
    (hheard : Heard x w (.build membership applied)) :
    Tracks c b x (w.turn c b x.id (.build membership applied)) where
  reached := h.reached
  ranges := rangesInv_recorded h.ranges membership applied
  fresh := h.fresh
  tracking := fun hx => (h.tracking hx).imp_right fun ht => tracking_record h.ranges hheard ht

theorem recorded_own (hinv : w.mesh.Inv) (hranges : RangesInv w.ranges)
    (hx : x ∈ w.mesh.memberships) (hroomy : Roomy defaultMappedBlock w.mesh w.ranges x.deviceId)
    {row : SessionRow} {applied : Nat} (hrow : sessionRow w.mesh x.id = .ok row)
    (hmem : row.membership = x) (hreads : readsRoutes w.mesh row applied = true) :
    assignedTable b { w with ranges := w.recorded x.id applied } x = assignedTable b w x ∧
      (groupRows w.mesh.toTables x.networkId = [] ∨
        Settled w.mesh (w.recorded x.id applied) x.deviceId) := by
  by_cases hnil : groupRows w.mesh.toTables x.networkId = []
  · exact ⟨assignedTable_congr rfl (.inl hnil), .inl hnil⟩
  have hrec : w.recorded x.id applied = w.ranges ++
      (ensureMappings defaultMappedBlock w.mesh w.ranges x.deviceId).fresh := by
    unfold World.recorded
    rw [hrow]
    simp only [hmem]
    exact if_pos ⟨hreads, hnil⟩
  have hs := settled_of_roomy (hinv.members.memberDevice x hx) hroomy
  rw [hrec]
  exact ⟨assignedTable_congr rfl (.inr (mapped_record hranges hs)), .inr hs⟩

theorem tracking_sync (h : Tracks c b x w) (hx : x ∈ w.mesh.memberships)
    (hroomy : Heard x w .sync) {d : Wire.StateDelta}
    (hfor : (w.builder b).for w.mesh x.id w.agent.version = .ok d) :
    Tracking b x
      { w with ranges := w.recorded x.id w.agent.version, agent := w.agent.apply d } := by
  have hinv := h.inv
  rcases sessionRow_isOk hinv hx with ⟨row, hrow, hmem⟩
  rcases sessionRow_ok hrow with ⟨_, _, hver, hfloor⟩
  rw [hmem] at hver hfloor
  have hans : answer (w.builder b) w.mesh row w.agent.version = .ok d := by
    unfold Builder.for at hfor
    rw [hrow] at hfor
    exact hfor
  rcases answer_ok hinv.logBounded (by rw [hmem]; exact hrow) hans with ⟨hto, hcases⟩
  rw [hmem, hver] at hcases
  have hversion : (w.agent.apply d).version = w.mesh.version x.networkId := hto.trans hver
  -- Whichever answer it was, the agent now holds the assignments of the head.
  have htable : (w.agent.apply d).routeGroups =
        assignedTable b { w with ranges := w.recorded x.id w.agent.version } x ∧
      (groupRows w.mesh.toTables x.networkId = [] ∨
        Settled w.mesh (w.recorded x.id w.agent.version) x.deviceId) := by
    have hown : Heard x w (.build x.id w.agent.version) := by
      intro y hy hid hdev
      rw [hinv.member_eq hy hx hid] at hdev
      exact absurd rfl hdev
    have hquiet := fun hv => (tracking_record h.ranges hown ((h.tracking hx).resolve_left hv)).same
    rcases hcases with ⟨hsnap, hreads⟩ | ⟨hv, hfl, ⟨hsilent, hnone⟩ | ⟨hdelta, hreads⟩⟩
    · rcases recorded_own hinv h.ranges hx hroomy hrow hmem hreads with ⟨heq, hs⟩
      rcases snapshot_ok hsnap with ⟨y, hy, hid, hσ⟩
      rw [hinv.member_eq hy hx hid] at hσ
      refine ⟨?_, hs⟩
      rw [heq, Peerset.routeGroups_apply_snapshot hσ.fromVersion, hσ.routeGroups]
      rfl
    · have hfrom : d.fromVersion ≠ 0 := by
        rw [hsilent.fromVersion]
        exact hv
      rw [Peerset.routeGroups_apply hfrom, hsilent.routeGroups, hsilent.removedRouteGroupIds]
      exact hquiet hv (by rw [← hfloor]; exact hfl)
        (fun hlog => hlog.elim (hnone _) fun ⟨id, hlog⟩ => hnone _ hlog)
    · have hfrom : d.fromVersion ≠ 0 := by
        rw [hdelta.fromVersion]
        exact hv
      rw [hfloor] at hfl
      cases hmoved : routesMoved (changesSince w.mesh x.networkId w.agent.version
        (w.mesh.version x.networkId)) with
      | false =>
        rcases hdelta.noRoutes hmoved with ⟨hgroups, hremoved, _⟩
        rw [Peerset.routeGroups_apply hfrom, hgroups, hremoved]
        refine hquiet hv hfl fun hlog => ?_
        rw [Bool.eq_false_iff] at hmoved
        refine hmoved (routesMoved_iff.2 ?_)
        exact hlog.imp (mem_changesSince hinv.logBounded).2
          fun ⟨id, hlog⟩ => ⟨id, (mem_changesSince hinv.logBounded).2 hlog⟩
      | true =>
        rcases recorded_own hinv h.ranges hx hroomy hrow hmem (hreads.trans hmoved)
          with ⟨heq, hs⟩
        refine ⟨?_, hs⟩
        have ht := (h.tracking hx).resolve_left hv
        rw [heq, Peerset.routeGroups_apply hfrom]
        exact moved_table hinv.logBounded hdelta hmoved (ht.named hfl)
  refine ⟨Nat.le_of_eq hversion, fun _ k hk => ?_, fun _ _ => htable⟩
  change (w.agent.apply d).routeGroups.lookup k ≠ none at hk
  rw [htable.1] at hk
  rcases lookup_assigned hk with ⟨id, hid, hk⟩
  exact ⟨id, hk, .inl hid⟩

theorem tracks_sync (h : Tracks c b x w) (hheard : Heard x w .sync) :
    Tracks c b x (w.turn c b x.id .sync) := by
  unfold World.turn
  have hranges := rangesInv_recorded h.ranges x.id w.agent.version
  cases hfor : (w.builder b).for w.mesh x.id w.agent.version with
  | ok d =>
    refine ⟨h.reached, hranges, fun _ => ?_, fun hx => .inr (tracking_sync h hx hheard hfor)⟩
    rcases Base.bind_eq_ok.1 hfor with ⟨row, hrow, _⟩
    rcases sessionRow_ok hrow with ⟨hmem, hid, _⟩
    rw [← hid]
    exact h.inv.members.memberBelow _ hmem
  | error e =>
    refine ⟨h.reached, hranges, h.fresh, fun hx => (h.tracking hx).imp_right fun ht =>
      tracking_record h.ranges (fun y hy hid hdev => ?_) ht⟩
    rw [h.inv.member_eq hy hx hid] at hdev
    exact absurd rfl hdev

theorem tracks_turn (hact : x.state = .active) (h : Tracks c b x w) (e : Turn)
    (hheard : Heard x w e) : Tracks c b x (w.turn c b x.id e) := by
  cases e with
  | mutate s => exact tracks_mutate hact h s hheard
  | build membership applied => exact tracks_build h membership applied hheard
  | sync => exact tracks_sync h hheard

theorem tracks_start : Tracks c b x {} where
  reached := ⟨[], rfl⟩
  ranges := ⟨nofun, nofun⟩
  fresh := fun hv => absurd rfl hv
  tracking := fun _ => .inl rfl

theorem tracks_run (hact : x.state = .active) (es : List Turn)
    (hheard : Along (World.turn c b x.id) (Heard x) {} es) :
    Tracks c b x (run (World.turn c b x.id) {} es) :=
  Base.run_inv_along (Tracks c b x) (fun _ e h hcond => tracks_turn hact h e hcond) {} es
    tracks_start hheard

end Steps

/-- In every run that changes no range in silence, an agent that asks is brought to its network's
head, and one that is at the head holds, group by group, the ranges a snapshot built then would
carry. -/
theorem mapped_eq_snapshot_at_head (c : Enroll.Checks) (b : Builder) (x : Membership)
    (hact : x.state = .active) (es : List Turn)
    (hheard : Along (World.turn c b x.id) (Heard x) {} es)
    (hx : x ∈ (run (World.turn c b x.id) {} es).mesh.memberships) :
    ((run (World.turn c b x.id) {} (es ++ [.sync])).agent.version =
      (run (World.turn c b x.id) {} es).mesh.version x.networkId) ∧
    ((run (World.turn c b x.id) {} es).agent.version =
        (run (World.turn c b x.id) {} es).mesh.version x.networkId →
      ∃ σ, ((run (World.turn c b x.id) {} es).builder b).snapshot
          (run (World.turn c b x.id) {} es).mesh x.id = .ok σ ∧
        ∀ k, mappedOf (run (World.turn c b x.id) {} es).agent k =
          mappedOf (({} : Peerset.Set).apply σ) k) := by
  have h := tracks_run hact es hheard
  rw [Base.run_append]
  generalize run (World.turn c b x.id) {} es = w at h hx ⊢
  have hinv := h.inv
  constructor
  · rcases for_isOk hinv hx hact (w.builder b) w.agent.version with ⟨d, hfor⟩
    rcases sessionRow_isOk hinv hx with ⟨row, hrow, hmem⟩
    have hver := (sessionRow_ok hrow).2.2.1
    have hans : answer (w.builder b) w.mesh row w.agent.version = .ok d := by
      have := hfor
      unfold Builder.for at this
      rw [hrow] at this
      exact this
    have hto := (answer_ok hinv.logBounded (by rw [hmem]; exact hrow) hans).1
    rw [hver, hmem] at hto
    simp only [Base.run_cons, Base.run_nil, World.turn, hfor]
    exact hto
  · intro hhead
    rcases snapshot_isOk hinv hx hact (w.builder b) with ⟨σ, hσ⟩
    refine ⟨σ, hσ, fun k => ?_⟩
    rcases snapshot_ok hσ with ⟨y, hy, hid, hof⟩
    rw [hinv.member_eq hy hx hid] at hof
    rcases h.reached with ⟨ss, hss⟩
    have hpos : w.mesh.version x.networkId ≠ 0 := by
      have := hinv.networks x hx
      rw [hss] at this ⊢
      exact Nat.ne_of_gt (version_pos ss this)
    have hfl : w.mesh.floor x.networkId ≤ w.agent.version := by
      rw [hhead, hss]
      exact floor_le_version ss
    -- Nothing is logged above the head, so nothing the agent holds is out of date.
    have ht := (h.tracking hx).resolve_left (by rw [hhead]; exact hpos)
    have hquiet : ¬RoutesLogged w.mesh x.networkId w.agent.version := by
      rw [hhead]
      rintro (hlog | ⟨id, hlog⟩)
      · exact not_logged_version hinv.logBounded _ _ hlog
      · exact not_logged_version hinv.logBounded _ _ hlog
    unfold mappedOf
    rw [(ht.same hfl hquiet).1, Peerset.routeGroups_apply_snapshot hof.fromVersion,
      hof.routeGroups]
    rfl

instance decidableKeepsCollision (device : Id) (m : Mesh) (s : Stamped) :
    Decidable (KeepsCollision device m s) := by
  delta KeepsCollision
  rcases s with ⟨_, event⟩
  induction event using Store.Event.casesOn <;> infer_instance

instance decidableHeard (x : Membership) (w : World) (e : Turn) : Decidable (Heard x w e) := by
  cases e <;> unfold Heard <;> (try unfold Roomy) <;> infer_instance

def sites : List Turn :=
  (founding [] ++
    [⟨0, .createNetwork 1 "site" "" [⟨.v4 0x0A000100, 24, by decide⟩]⟩,
     ⟨0, .createEnrollmentToken 5 (bytes "u") [] 10 100⟩, joining 1 7, joining 1 8,
     ⟨1, .redeem
       { token := "u", identityPublicKey := List.replicate 32 7, challenge := [], signature := []
         wireGuardPublicKey := Keys.keyText (List.replicate 32 9), name := "host", hostname := "" }⟩,
     ⟨2, .createRouteGroup
       { networkId := 2, slug := "lab", name := "Lab", kind := "subnet"
         prefixes := [.upTo (.v4 0xC0A80100) 24] }⟩,
     ⟨2, .advertise { networkId := 2, groupSlug := "lab", membershipId := 11 }⟩,
     ⟨2, .createRouteGroup
       { networkId := 5, slug := "plant", name := "Plant", kind := "subnet"
         prefixes := [.upTo (.v4 0xC0A80100) 24] }⟩]).map .mutate

def technician : Membership :=
  { id := 9, deviceId := 8, networkId := 2, interfaceName := "meshp0"
    addressV4 := some (.v4 0x0A000001), addressV6 := none, state := .active, tags := []
    dnsLabel := "host" }

theorem mapped_eq_snapshot_after_deletion :
    let es : List Turn := sites ++ [.sync, .build 11 0, .build 12 0,
      .mutate ⟨3, .deleteRouteGroup 5 "plant"⟩, .sync]
    let w := run (World.turn trusting {} technician.id) {} es
    (Along (World.turn trusting {} technician.id) (Heard technician) {} es ∧
      technician ∈ w.mesh.memberships ∧ w.agent.version = w.mesh.version technician.networkId) ∧
    (mappedOf (run (World.turn trusting {} technician.id) {} (sites ++ [.sync])).agent (idText 13) =
      some [⟨"192.168.1.0/24", "100.71.0.0/24"⟩] ∧ mappedOf w.agent (idText 13) = some []) ∧
    ∃ σ, (w.builder {}).snapshot w.mesh technician.id = .ok σ ∧
      ∀ k, mappedOf w.agent k = mappedOf (({} : Peerset.Set).apply σ) k := by
  intro es w
  refine and_assoc.1 ((and_iff_left_of_imp fun hrun => ?_).2 (by decide +kernel))
  exact (mapped_eq_snapshot_at_head trusting {} technician rfl es hrun.1.1 hrun.1.2.1).2 hrun.1.2.2

/-- The technician is revoked in one network, which ends the collision and is said only there. The
agent of the other is at its head and keeps its range; a snapshot would have none. -/
theorem mapped_stale_after_revocation_elsewhere :
    let w := run (World.turn trusting {} 9) {}
      (sites ++ [.sync, .mutate ⟨3, .revokeMembership 5 12⟩, .sync])
    (technician ∈ w.mesh.memberships ∧ w.agent.version = w.mesh.version 2 ∧
      mappedOf w.agent (idText 13) = some [⟨"192.168.1.0/24", "100.71.0.0/24"⟩]) ∧
    ∃ σ, (w.builder {}).snapshot w.mesh 9 = .ok σ ∧
      mappedOf (({} : Peerset.Set).apply σ) (idText 13) = some [] := by
  decide +kernel

end Meshp.Session
