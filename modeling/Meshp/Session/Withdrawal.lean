import Meshp.Session.RouteDelta
import Meshp.Tunnel.Vacate

/-!
# An Advertiser that Stops

From the route tables of the control plane to the ruleset of an advertiser's host.
States are built for the advertiser while the tables change, are in flight for a
while, and are folded in and applied by an agent whose passes may fail; a timer
applies the last state that was applied again, and other memberships of the same
host load the same table.
-/

namespace Meshp.Session.Withdrawal

open Base (Along run)
open Netfilter (Ruleset)
open Nftables (Foreign forwardKey)
open Store
open Tunnel (Outcome Vacated dropsForwarded fresh passUntil)

def Unlisted (t : Tables) (n self : Id) : Prop :=
  ∀ g ∈ groupsOf t n, ∀ a ∈ t.routeAdvertisers,
    a.routeGroupId = g.id → a.membershipId = self → a.adminState = .disabled

instance (t : Tables) (n self : Id) : Decidable (Unlisted t n self) := by
  unfold Unlisted
  infer_instance

/-- A state in flight, with the groups of its network when it was built and whether any of them
listed the membership it is for. -/
structure Message where
  delta : Wire.StateDelta
  rows : List GroupRow
  unlisted : Bool

structure World where
  mesh : Mesh := {}
  inFlight : List Message := []
  agent : Peerset.Set := {}
  /-- The groups the last state folded in was built from. -/
  rows : List GroupRow := []
  /-- `lastState`: what the timer applies again. -/
  last : Option Peerset.Set := none
  device : Tunnel.Device
  /-- Whether the last state received was built when no group listed the membership, and was
  applied. -/
  stopped : Bool := false

def World.start (host : Foreign) (forwarding hasFilter : Bool) : World :=
  { device := fresh host forwarding hasFilter }

inductive Turn
  /-- A mutation commits. -/
  | mutate (s : Stamped)
  /-- A state is built, for an agent taken to hold some version, and sent. -/
  | build (b : Builder) (applied : Nat)
  /-- The connection is lost, with what is in flight. -/
  | reconnect
  /-- The agent receives a state and applies it. -/
  | receive (o : Outcome) (saved : Bool)
  /-- The timer. -/
  | reconcile (o : Outcome)
  /-- A pass of another membership of the host. -/
  | elsewhere (iface : String) (filter : Option Wire.PacketFilter)
      (advertised : Option Wire.AdvertisedRoutes) (o : Outcome)

/-- `handleState` of a state that is next in flight. A delta for another version is refused. A state
that could not be applied, or recorded as applied, leaves the agent with its contents under the
version it had. -/
def receive (iface : String) (w : World) (msg : Message) (o : Outcome) (saved : Bool) : World :=
  if msg.delta.fromVersion ≠ 0 ∧ msg.delta.fromVersion ≠ w.agent.version then w
  else
    let s := w.agent.apply msg.delta
    let applied := passUntil w.device iface s.filter s.advertised o
    match applied.2, saved with
    | some unapplied, true =>
      { w with
        agent := s
        rows := msg.rows
        last := some s
        device := applied.1
        stopped := decide (unapplied = []) && msg.unlisted }
    | _, _ =>
      { w with
        agent := { s with version := w.agent.version }
        rows := msg.rows
        device := applied.1
        stopped := false }

/-- One turn of a world whose agent is membership `x`, on interface `iface`. -/
def turn (c : Enroll.Checks) (x : Membership) (iface : String) (w : World) : Turn → World
  | .mutate s => { w with mesh := apply c w.mesh s }
  | .build b applied =>
    match b.for w.mesh x.id applied with
    | .error _ => w
    | .ok delta =>
      { w with
        inFlight := w.inFlight ++
          [⟨delta, groupRows w.mesh.toTables x.networkId,
            decide (Unlisted w.mesh.toTables x.networkId x.id)⟩] }
  | .reconnect => { w with inFlight := [] }
  | .receive o saved =>
    match w.inFlight with
    | [] => w
    | msg :: inFlight => receive iface { w with inFlight } msg o saved
  | .reconcile o =>
    match w.last with
    | none => w
    | some s => { w with device := (passUntil w.device iface s.filter s.advertised o).1 }
  | .elsewhere j filter advertised o =>
    if j = iface then w
    else { w with device := (passUntil w.device j filter advertised o).1 }

def Heard (host : Foreign) (x : Membership) (iface : String) (w : World) : Turn → Prop
  | .mutate s => RoutesUnseen x.networkId w.mesh s
  | .receive o _ => o.Clean w.device iface ∧ ∀ msg ∈ w.inFlight.head?, msg.rows = [] →
      carried w.agent = [] ∧ Vacated host iface w.device.kernel.rules
  | .reconcile o => o.Clean w.device iface
  | _ => True

def advertisedFrom (rows : List GroupRow) (self : Id) : Option Wire.AdvertisedRoutes :=
  if rows = [] then none else some ⟨rows.filterMap (carriedBy · self)⟩

/-- The groups are those of the head, unless the log says above a version that they moved. -/
structure Record (m : Mesh) (n : Id) (version : Nat) (rows : List GroupRow) : Prop where
  reached : version ≤ m.version n
  same : m.floor n ≤ version → ¬m.Logged n version .routes → rows = groupRows m.toTables n

/-- A message says what its groups say, or it says nothing and its groups are those of every version
it can be folded into. -/
structure Follows (me : Id) (version : Nat) (rows : List GroupRow) (msg : Message) : Prop where
  later : version ≤ msg.delta.toVersion
  content : msg.delta.advertised = advertisedFrom msg.rows me ∨
    msg.delta.fromVersion ≠ 0 ∧ msg.delta.advertised = none ∧
      (msg.delta.fromVersion ≤ version → rows = msg.rows)

/-- The invariant of a world whose agent is membership `x`. -/
structure Tracks (host : Foreign) (x : Membership) (iface : String) (w : World) : Prop where
  inv : w.mesh.Inv
  kept : Tunnel.Kept host iface w.device
  recorded : w.agent.version ≠ 0 → Record w.mesh x.networkId w.agent.version w.rows
  sent : ∀ msg ∈ w.inFlight, Record w.mesh x.networkId msg.delta.toVersion msg.rows ∧
    (msg.unlisted = true → msg.rows.filterMap (carriedBy · x.id) = [])
  next : ∀ msg ∈ w.inFlight, Follows x.id w.agent.version w.rows msg
  order : w.inFlight.Pairwise fun msg msg' => Follows x.id msg.delta.toVersion msg.rows msg'
  held : w.rows ≠ [] → w.agent.advertised = advertisedFrom w.rows x.id
  stopped : w.stopped = true → Vacated host iface w.device.kernel.rules ∧
    ∀ s ∈ w.last, ∀ a ∈ s.advertised, a.groups = []

section Steps

variable {c : Enroll.Checks} {host : Foreign} {x : Membership} {iface : String} {w : World}
  {m : Mesh} {n : Id} {version version' : Nat} {rows : List GroupRow} {msg : Message}

theorem Record.mono (h : Record m n version rows) (hle : version' ≤ version) :
    Record m n version' rows where
  reached := Nat.le_trans hle h.reached
  same := fun hfl hquiet =>
    h.same (Nat.le_trans hfl hle) fun hlog => hquiet (hlog.mono hle)

theorem Follows.mono {me : Id} (h : Follows me version rows msg) (hle : version' ≤ version) :
    Follows me version' rows msg where
  later := Nat.le_trans hle h.later
  content := h.content.imp_right fun ⟨hfrom, hnone, hsame⟩ =>
    ⟨hfrom, hnone, fun hv => hsame (Nat.le_trans hv hle)⟩

theorem Record.mutate (hinv : m.Inv) (h : Record m n version rows) {s : Stamped}
    (hunseen : RoutesUnseen n m s) : Record (apply c m s) n version rows := by
  have he : Effect c s m (apply c m s) := apply_effect hinv.routes
  refine ⟨Nat.le_trans h.reached he.version_le, fun hfl hquiet => ?_⟩
  have hquiet₀ : ¬m.Logged n version .routes :=
    fun hlog => hquiet (he.logged hinv hlog hfl nofun)
  rw [h.same (Nat.le_trans he.floor_le hfl) hquiet₀]
  exact ((groupRows_step he hinv h.reached hunseen).resolve_right hquiet).symm

theorem tracks_mutate (h : Tracks host x iface w) {s : Stamped}
    (hheard : Heard host x iface w (.mutate s)) :
    Tracks host x iface (turn c x iface w (.mutate s)) :=
  { h with
    inv := inv_apply h.inv
    recorded := fun hv => (h.recorded hv).mutate h.inv hheard
    sent := fun msg hmsg => ⟨(h.sent msg hmsg).1.mutate h.inv hheard, (h.sent msg hmsg).2⟩ }

def Home (x : Membership) (w : World) : Prop :=
  ∀ y ∈ w.mesh.memberships, y.id = x.id → y.networkId = x.networkId

theorem for_says {b : Builder} {applied : Nat} {d : Wire.StateDelta} (hinv : m.Inv)
    (hhome : ∀ y ∈ m.memberships, y.id = x.id → y.networkId = x.networkId)
    (h : b.for m x.id applied = .ok d) :
    d.toVersion = m.version x.networkId ∧
      (d.advertised = advertisedFrom (groupRows m.toTables x.networkId) x.id ∨
        (d.fromVersion = applied ∧ applied ≠ 0 ∧ d.advertised = none ∧
          m.floor x.networkId ≤ applied ∧ ¬m.Logged x.networkId applied .routes)) := by
  rcases Base.bind_eq_ok.1 h with ⟨row, hrow, hans⟩
  rcases sessionRow_ok hrow with ⟨hmem, hid, hver, hfloor⟩
  have hnet := hhome _ hmem hid
  have hadv : (routeGroupsFor b m.toTables row.membership).advertised =
      advertisedFrom (groupRows m.toTables x.networkId) x.id := by
    rw [advertised_eq, hnet, hid]
    rfl
  rw [hnet] at hver hfloor
  rcases answer_ok hinv.logBounded (by rw [hid]; exact hrow) hans with ⟨hto, hcases⟩
  refine ⟨hto.trans hver, ?_⟩
  rw [hnet, hver, hfloor] at hcases
  rcases hcases with ⟨hsnap, _⟩ | ⟨hv, hfl, ⟨hsilent, hnone⟩ | ⟨hdelta, _⟩⟩
  · rcases snapshot_ok hsnap with ⟨y, hy, hyid, hσ⟩
    rw [hinv.member_eq hy hmem hyid] at hσ
    exact .inl (hσ.advertised.trans hadv)
  · exact .inr ⟨hsilent.fromVersion, hv, hsilent.advertised, hfl, hnone _⟩
  · cases hmoved : routesMoved (changesSince m row.membership.networkId applied
      (m.version row.membership.networkId)) with
    | true => exact .inl ((hdelta.routes hmoved).2.2.trans hadv)
    | false =>
      refine .inr ⟨hdelta.fromVersion, hv, (hdelta.noRoutes hmoved).2.2, hfl, fun hlog => ?_⟩
      rw [Bool.eq_false_iff] at hmoved
      rw [hnet] at hmoved
      exact hmoved (routesMoved_iff.2 (.inl ((mem_changesSince hinv.logBounded).2 hlog)))

theorem follows_built (hrec : version ≠ 0 → Record m x.networkId version rows)
    (hreach : version ≤ m.version x.networkId) {applied : Nat} {d : Wire.StateDelta}
    (hto : d.toVersion = m.version x.networkId)
    (htells : d.advertised = advertisedFrom (groupRows m.toTables x.networkId) x.id ∨
      (d.fromVersion = applied ∧ applied ≠ 0 ∧ d.advertised = none ∧
        m.floor x.networkId ≤ applied ∧ ¬m.Logged x.networkId applied .routes))
    (unlisted : Bool) :
    Follows x.id version rows ⟨d, groupRows m.toTables x.networkId, unlisted⟩ := by
  refine ⟨by rw [hto]; exact hreach, htells.imp_right ?_⟩
  rintro ⟨hfrom, hv, hnone, hfl, hquiet⟩
  refine ⟨by rw [hfrom]; exact hv, hnone, fun hle => ?_⟩
  rw [hfrom] at hle
  have hpos : version ≠ 0 := fun h0 => hv (Nat.le_zero.1 (h0 ▸ hle))
  exact (hrec hpos).same (Nat.le_trans hfl hle) fun hlog => hquiet (hlog.mono hle)

theorem tracks_build (h : Tracks host x iface w) (hhome : Home x w) (b : Builder)
    (applied : Nat) : Tracks host x iface (turn c x iface w (.build b applied)) := by
  unfold turn
  simp only
  cases hfor : b.for w.mesh x.id applied with
  | error e => exact h
  | ok d =>
    rcases for_says h.inv hhome hfor with ⟨hto, htells⟩
    have hreach : w.agent.version ≤ w.mesh.version x.networkId := by
      by_cases hv : w.agent.version = 0
      · rw [hv]
        exact Nat.zero_le _
      · exact (h.recorded hv).reached
    refine { h with sent := fun msg hmsg => ?_, next := fun msg hmsg => ?_, order := ?_ }
    · rcases Base.mem_concat.1 hmsg with hmsg | rfl
      · exact h.sent msg hmsg
      · refine ⟨⟨Nat.le_of_eq hto, fun _ _ => rfl⟩, fun hun => ?_⟩
        exact filterMap_carriedBy_eq_nil (of_decide_eq_true hun)
    · rcases Base.mem_concat.1 hmsg with hmsg | rfl
      · exact h.next msg hmsg
      · exact follows_built h.recorded hreach hto htells _
    · refine List.pairwise_append.2 ⟨h.order, List.pairwise_singleton _ _, ?_⟩
      intro msg hmsg msg' hmsg'
      rw [List.mem_singleton.1 hmsg']
      have hrec := (h.sent msg hmsg).1
      exact follows_built (fun _ => hrec) hrec.reached hto htells _

theorem Follows.held {s : Peerset.Set} (h : Follows x.id s.version rows msg)
    (haccepted : msg.delta.fromVersion = 0 ∨ msg.delta.fromVersion = s.version)
    (hheld : rows ≠ [] → s.advertised = advertisedFrom rows x.id) (hrows : msg.rows ≠ []) :
    (s.apply msg.delta).advertised = advertisedFrom msg.rows x.id := by
  rcases h.content with htells | ⟨hfrom, hnone, hsame⟩
  · have hsome : advertisedFrom msg.rows x.id =
        some ⟨msg.rows.filterMap (carriedBy · x.id)⟩ := if_neg hrows
    by_cases hzero : msg.delta.fromVersion = 0
    · rw [Peerset.advertised_apply_snapshot hzero, htells]
    · rw [Peerset.advertised_apply hzero, htells, hsome]
      rfl
  · -- A delta that says nothing is only folded into what it was built on.
    have hrows' := hsame (Nat.le_of_eq (haccepted.resolve_left hfrom))
    rw [Peerset.advertised_apply hfrom, hnone, ← hrows']
    exact hheld (by rw [hrows']; exact hrows)

theorem Follows.idle {s : Peerset.Set} (h : Follows x.id s.version rows msg)
    (hrows : msg.rows = []) (hidle : carried s = []) :
    ∀ a ∈ (s.apply msg.delta).advertised, a.groups = [] := by
  have hnone : msg.delta.advertised = none := by
    rcases h.content with htells | ⟨_, hnone, _⟩
    · rw [htells]
      exact if_pos hrows
    · exact hnone
  by_cases hzero : msg.delta.fromVersion = 0
  · rw [Peerset.advertised_apply_snapshot hzero, hnone]
    intro a ha
    cases ha
  · rw [Peerset.advertised_apply hzero, hnone]
    intro a ha
    change s.advertised = some a at ha
    unfold carried at hidle
    rw [ha] at hidle
    exact hidle

theorem vacated_receive (h : Tracks host x iface w) (hnext : Follows x.id w.agent.version w.rows msg)
    (hmsg : msg.unlisted = true → msg.rows.filterMap (carriedBy · x.id) = [])
    (haccepted : msg.delta.fromVersion = 0 ∨ msg.delta.fromVersion = w.agent.version)
    {o : Outcome} (ho : o.Clean w.device iface)
    (hlast : msg.rows = [] → carried w.agent = [] ∧ Vacated host iface w.device.kernel.rules)
    (hun : msg.unlisted = true)
    (happlied : (passUntil w.device iface (w.agent.apply msg.delta).filter
      (w.agent.apply msg.delta).advertised o).2 = some []) :
    Vacated host iface (passUntil w.device iface (w.agent.apply msg.delta).filter
        (w.agent.apply msg.delta).advertised o).1.kernel.rules ∧
      ∀ a ∈ (w.agent.apply msg.delta).advertised, a.groups = [] := by
  by_cases hrows : msg.rows = []
  · rcases hlast hrows with ⟨hidle, hvac⟩
    have hnothing := hnext.idle hrows hidle
    exact ⟨Tunnel.vacated_passUntil_of_vacated h.kept hvac _ (.inr hnothing) o, hnothing⟩
  · have hheld := hnext.held haccepted h.held hrows
    rw [advertisedFrom, if_neg hrows, hmsg hun] at hheld
    rw [hheld] at happlied ⊢
    refine ⟨Tunnel.vacated_passUntil h.kept ho _ happlied, fun a ha => ?_⟩
    cases ha
    rfl

theorem tracks_receive {inFlight : List Message} (h : Tracks host x iface w)
    (hw : w.inFlight = msg :: inFlight) {o : Outcome} (ho : o.Clean w.device iface)
    (hlast : msg.rows = [] → carried w.agent = [] ∧ Vacated host iface w.device.kernel.rules)
    (saved : Bool) : Tracks host x iface (receive iface { w with inFlight } msg o saved) := by
  have hmem : msg ∈ w.inFlight := by
    rw [hw]
    exact .head _
  have hrest : ∀ msg' ∈ inFlight, msg' ∈ w.inFlight := by
    intro msg' hmsg'
    rw [hw]
    exact .tail _ hmsg'
  have horder := h.order
  rw [hw] at horder
  rcases List.pairwise_cons.1 horder with ⟨hhead, htail⟩
  have hnext := h.next msg hmem
  rcases h.sent msg hmem with ⟨hrec, hun⟩
  unfold receive
  simp only
  split
  · exact { h with
      sent := fun msg' hmsg' => h.sent msg' (hrest msg' hmsg')
      next := fun msg' hmsg' => h.next msg' (hrest msg' hmsg')
      order := htail }
  · rename_i hrefused
    have haccepted : msg.delta.fromVersion = 0 ∨ msg.delta.fromVersion = w.agent.version := by
      by_cases hzero : msg.delta.fromVersion = 0
      · exact .inl hzero
      · exact .inr (by_contra fun hne => hrefused ⟨hzero, hne⟩)
    have hkept := Tunnel.kept_passUntil h.kept ho (w.agent.apply msg.delta).filter
      (w.agent.apply msg.delta).advertised
    have hheld := hnext.held haccepted h.held
    split
    · rename_i unapplied happlied
      refine ⟨h.inv, hkept, fun _ => hrec, fun msg' hmsg' => h.sent msg' (hrest msg' hmsg'),
        fun msg' hmsg' => hhead msg' hmsg', htail, hheld, fun hstopped => ?_⟩
      simp only [Bool.and_eq_true, decide_eq_true_eq] at hstopped
      rw [hstopped.1] at happlied
      rcases vacated_receive h hnext hun haccepted ho hlast hstopped.2 happlied with ⟨hvac, hnone⟩
      refine ⟨hvac, fun s hs => ?_⟩
      cases hs
      exact hnone
    · refine ⟨h.inv, hkept, fun _ => hrec.mono hnext.later,
        fun msg' hmsg' => h.sent msg' (hrest msg' hmsg'),
        fun msg' hmsg' => (hhead msg' hmsg').mono hnext.later, htail, hheld, fun hstopped => ?_⟩
      cases hstopped

theorem tracks_turn (h : Tracks host x iface w) (e : Turn) (hheard : Heard host x iface w e)
    (hhome : Home x w) : Tracks host x iface (turn c x iface w e) := by
  cases e with
  | mutate s => exact tracks_mutate h hheard
  | build b applied => exact tracks_build h hhome b applied
  | reconnect =>
    exact { h with sent := nofun, next := nofun, order := List.Pairwise.nil }
  | receive o saved =>
    unfold turn
    simp only
    split
    · exact h
    · rename_i msg inFlight hw
      rcases hheard with ⟨ho, hlast⟩
      exact tracks_receive h hw ho (hlast msg (by rw [hw]; rfl)) saved
  | reconcile o =>
    unfold turn
    simp only
    split
    · exact h
    · rename_i s hs
      refine { h with kept := Tunnel.kept_passUntil h.kept hheard _ _, stopped := fun hstopped => ?_ }
      rcases h.stopped hstopped with ⟨hvac, hnone⟩
      exact ⟨Tunnel.vacated_passUntil_of_vacated h.kept hvac _ (.inr (hnone s hs)) o, hnone⟩
  | elsewhere j filter advertised o =>
    unfold turn
    simp only
    split
    · exact h
    · rename_i hj
      refine { h with kept := Tunnel.kept_other h.kept hj _ _ o, stopped := fun hstopped => ?_ }
      rcases h.stopped hstopped with ⟨hvac, hnone⟩
      exact ⟨Tunnel.vacated_passUntil_of_vacated h.kept hvac _ (.inl hj) o, hnone⟩

theorem tracks_start (host : Foreign) (x : Membership) (iface : String)
    (forwarding hasFilter : Bool) : Tracks host x iface (.start host forwarding hasFilter) where
  inv := inv_history (c := trusting) []
  kept := Tunnel.kept_fresh host iface forwarding hasFilter
  recorded := fun hv => absurd rfl hv
  sent := nofun
  next := nofun
  order := List.Pairwise.nil
  held := fun hrows => absurd rfl hrows
  stopped := fun hstopped => by cases hstopped

theorem mesh_run (w : World) (es : List Turn) :
    ∃ ss, (run (turn c x iface) w es).mesh = run (apply c) w.mesh ss := by
  induction es generalizing w with
  | nil => exact ⟨[], rfl⟩
  | cons e es ih =>
    rcases ih (turn c x iface w e) with ⟨ss, hss⟩
    rw [Base.run_cons, hss]
    -- Only a mutation changes the tables.
    have hstep : (∃ s, (turn c x iface w e).mesh = apply c w.mesh s) ∨
        (turn c x iface w e).mesh = w.mesh := by
      cases e with
      | mutate s => exact .inl ⟨s, rfl⟩
      | build b applied | reconcile o | elsewhere j filter advertised o =>
        right
        unfold turn
        simp only
        split <;> rfl
      | reconnect => exact .inr rfl
      | receive o saved =>
        right
        unfold turn
        simp only
        split
        · rfl
        · unfold receive
          simp only
          split
          · rfl
          · split <;> rfl
    rcases hstep with ⟨s, hs⟩ | hs
    · exact ⟨s :: ss, by rw [hs]; rfl⟩
    · exact ⟨ss, by rw [hs]⟩

theorem along_home (hinv : w.mesh.Inv) (es : List Turn)
    (hx : x ∈ (run (turn c x iface) w es).mesh.memberships) :
    Along (turn c x iface) (fun w _ => Home x w) w es := by
  induction es generalizing w with
  | nil => trivial
  | cons e es ih =>
    refine ⟨fun y hy hid => ?_, ih ?_ hx⟩
    · obtain ⟨ss, hss⟩ : ∃ ss, (run (turn c x iface) w (e :: es)).mesh = run (apply c) w.mesh ss :=
        mesh_run w (e :: es)
      rw [hss] at hx
      have hsame := sameMember_run hinv ss hy hx hid.symm
      rw [← hsame]
    · obtain ⟨ss, hss⟩ : ∃ ss, (turn c x iface w e).mesh = run (apply c) w.mesh ss :=
        mesh_run w [e]
      rw [hss]
      exact Base.run_inv Mesh.Inv (fun m s hI => (apply_effect hI.routes).inv hI) _ ss hinv

end Steps

/-- In every run in which no advertiser is taken out unsaid, no pass fails between the table and the
carry chain while nothing is remembered to be carried, and no state from a network without groups
finds something carried: once an advertiser has applied a state built when no group listed it, its
host's forwarding table and carry chain hold nothing for it, nothing that comes in by its interface
is rewritten, and what is on no other membership's interface is forwarded as the host itself would.
-/
theorem vacated_after_withdrawal (c : Enroll.Checks) (host : Foreign) (x : Membership)
    (iface : String) (forwarding hasFilter : Bool) (es : List Turn)
    (hheard : Along (turn c x iface) (Heard host x iface) (.start host forwarding hasFilter) es)
    (hx : x ∈ (run (turn c x iface) (.start host forwarding hasFilter) es).mesh.memberships) :
    let w := run (turn c x iface) (.start host forwarding hasFilter) es
    w.stopped = true →
      Vacated host iface w.device.kernel.rules ∧
      (∀ p : Netfilter.Packet, p.iif = iface → ∀ how,
        Ruleset.rewrites (w.device.kernel.rules.named forwardKey) p how = false) ∧
      ∃ j, j ≠ iface ∧ ∀ (p : Netfilter.Packet) hook, p.iif ≠ j → p.oif ≠ j →
        ((w.device.kernel.rules.without Nftables.tableKey).without forwardKey).passes hook p =
          host.rules.passes hook p := by
  intro w hstopped
  have hstart := tracks_start host x iface forwarding hasFilter
  have htracks : Tracks host x iface w :=
    Base.run_inv_along (Tracks host x iface) (fun w e h hcond => tracks_turn h e hcond.1 hcond.2)
      _ es hstart (Base.along_and _ es hheard (along_home hstart.inv es hx))
  have hvac := (htracks.stopped hstopped).1
  exact ⟨hvac, fun p hp how => hvac.rewrites hp how, hvac.passes⟩

def gateway : Membership :=
  { id := 8, deviceId := 7, networkId := 2, interfaceName := "meshp0"
    addressV4 := some (.v4 0x0A000002), addressV6 := none, state := .active, tags := []
    dnsLabel := "host-2" }

def gatewayTurns (s : Stamped) : List Turn :=
  laboratory.map .mutate ++ [.build {} 0, .receive (.runs none) true, .mutate s,
    .build {} ((history trusting laboratory).version 2), .receive (.runs none) true]

def Plain (x : Membership) (w : World) : Turn → Prop
  | .mutate s => RoutesUnseen x.networkId w.mesh s
  | .receive o _ => o = .runs none ∧ ∀ msg ∈ w.inFlight.head?, msg.rows ≠ []
  | .reconcile o => o = .runs none
  | _ => True

instance (x : Membership) (w : World) (e : Turn) : Decidable (Plain x w e) := by
  cases e <;> unfold Plain <;> infer_instance

theorem heard_of_plain {host : Foreign} {x : Membership} {iface : String} (w : World) (e : Turn)
    (h : Plain x w e) : Heard host x iface w e := by
  cases e with
  | mutate s => exact h
  | receive o saved =>
    rcases h with ⟨rfl, hrows⟩
    exact ⟨nofun, fun msg hmsg hnil => absurd hnil (hrows msg hmsg)⟩
  | reconcile o =>
    rw [show o = .runs none from h]
    exact nofun
  | _ => trivial

theorem vacated_after_withdrawal_laboratory :
    let es := gatewayTurns ⟨3, .withdraw 2 "lab" 8⟩
    ∃ w, run (turn trusting gateway "meshp0") (.start dropsForwarded false true) es = w ∧
      (Along (turn trusting gateway "meshp0") (Heard dropsForwarded gateway "meshp0")
          (.start dropsForwarded false true) es ∧
        gateway ∈ w.mesh.memberships ∧ w.stopped = true) ∧
      Vacated dropsForwarded "meshp0" w.device.kernel.rules := by
  intro es
  have hrun : Along (turn trusting gateway "meshp0") (Plain gateway)
        (.start dropsForwarded false true) es ∧
      gateway ∈ (run (turn trusting gateway "meshp0") (.start dropsForwarded false true)
        es).mesh.memberships ∧
      (run (turn trusting gateway "meshp0") (.start dropsForwarded false true)
        es).stopped = true := by
    decide +kernel
  have hheard : Along (turn trusting gateway "meshp0")
      (Heard dropsForwarded gateway "meshp0") (.start dropsForwarded false true) es :=
    Base.along_mono heard_of_plain _ es hrun.1
  have h := vacated_after_withdrawal trusting dropsForwarded gateway "meshp0" false true
    es hheard hrun.2.1 hrun.2.2
  exact ⟨_, rfl, ⟨hheard, hrun.2⟩, h.1⟩

/-- The one group is deleted instead. No group lists the gateway when the state it applies is built,
and its host goes on accepting and rewriting what it carried. -/
theorem carries_after_last_group :
    let w := run (turn trusting gateway "meshp0") (.start dropsForwarded false true)
      (gatewayTurns ⟨3, .deleteRouteGroup 2 "lab"⟩)
    let p := Nftables.arriving "meshp0" (.v4 0xC0A80109)
    (gateway ∈ w.mesh.memberships ∧ w.stopped = true ∧ groupsOf w.mesh.toTables 2 = []) ∧
    Ruleset.rewrites (w.device.kernel.rules.named forwardKey) p .masquerade = true ∧
    dropsForwarded.rules.passes .forward p = false ∧
    w.device.kernel.rules.passes .forward p = true := by
  decide +kernel

end Meshp.Session.Withdrawal
