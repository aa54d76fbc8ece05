import Meshp.Base.Resume
import Meshp.Nftables.Mapping
import Meshp.Tunnel.Sharing
import Meshp.Wgplan.Kernel

/-!
# Passes in Flight While a Membership Is Left

A membership is left when the control plane revokes it or when somebody takes the
tunnels down. Both tear down the interface and its rulesets, then stop the session
and the timer that keep applying what was sent, and taking the tunnels down gives
back the default route and the lock as well. Passes are not stopped first, and
nothing waits for one that is under way.
-/

namespace Meshp.Tunnel.Leaving

open Base (Calls Resume run Along)
open Base.Calls (each make only_bind only_ite only_make)
open Base.Resume (all attempt exec_attempt exec_bind exec_pure exec_update keeps_attempt keeps_bind
  keeps_ite keeps_query ofCalls query update)
open FullTunnel (Call Host Input Part Setup release)
open Function (update)
open Netfilter (Ruleset)
open Netfilter.Ruleset (has_iff named_without named_without_self without_comm without_of_named_nil
  without_without_self)
open Netip (Prefix)
open Nftables
open Wire (PacketFilter AdvertisedRoutes AdvertisedGroup)

/-- The host as far as one membership goes, what its reconciler remembers, and whether its session
has been cancelled. -/
structure Scene where
  link : Option Wgplan.Link := none
  kernel : Kernel
  mapping : MapTable := {}
  routing : Part → Bool := fun _ => false
  lastFilter : Option PacketFilter := none
  lastAdvertised : Option AdvertisedRoutes := none
  lastMapped : List (Prefix × Prefix) := []
  claimed : Bool := false
  cancelled : Bool := false

namespace Scene

def egress (s : Scene) : Host :=
  ⟨s.kernel.rules, s.routing⟩

def withEgress (s : Scene) (h : Host) : Scene :=
  { s with kernel := { s.kernel with rules := h.rules }, routing := h.routing }

end Scene

def operate (chosen : Int) (op : Wgplan.Op) (s : Scene) : Option Scene :=
  if s.link = none ∧ op ≠ .createDevice then none
  else (FullTunnel.act (.operate 0 op) s.egress).map fun h =>
    { s.withEgress h with link := Wgplan.execute chosen s.link op }

/-- `Filter.Apply`. -/
def loadPolicy (iface : String) (want : Option PacketFilter) (s : Scene) : Option Scene :=
  (Filter.apply s.kernel iface want).toOption.map fun kernel => { s with kernel }

/-- The table of `Filter.ApplyForward`. -/
def loadForward (iface : String) (groups : List AdvertisedGroup) (s : Scene) : Option Scene :=
  ((renderForward iface groups).bind (Nftables.apply s.kernel)).toOption.map
    fun kernel => { s with kernel }

def fillCarry (iface : String) (groups : List AdvertisedGroup) (s : Scene) : Option Scene :=
  (Nftables.carryGroups s.kernel iface groups).toOption.map fun kernel => { s with kernel }

/-- `Filter.ApplyMap`, of a map written as a list of its entries, the latest last. -/
def loadMapping (iface : String) (mapped : List (Prefix × Prefix)) (s : Scene) : Option Scene :=
  (renderMap iface ((mapped.map Prod.fst).dedup.map fun real =>
    ⟨mappedTo mapped real, some real⟩)).toOption.map fun mapping => { s with mapping }

def kernelAct (c : Call) (s : Scene) : Option Scene :=
  (FullTunnel.act c s.egress).map s.withEgress

def underContext (f : Scene → Option Scene) (s : Scene) : Option Scene :=
  if s.cancelled then none else f s

def needsLink : Call → Bool
  | .setEgressMark _ => true
  | .interfaceByName _ => true
  | .add (.table _) => true
  | _ => false

def egressAct : Sharing.Act → Scene → Option Scene
  | .kernel (.applyLock iface carve dns), s =>
    underContext (kernelAct (.applyLock iface carve dns)) s
  | .kernel c, s => if needsLink c = true ∧ s.link = none then none else kernelAct c s
  | .ask, s => if s.claimed then some s else none
  | .set claimed, s => some { s with claimed }

structure Update where
  input : Input
  filter : Option PacketFilter := none
  advertised : Option AdvertisedRoutes := none

/-- `applyFilter`, and whether the policy is in force. -/
def applyFilter (r : Setup) (want : Option PacketFilter) : Resume Scene Bool :=
  if r.hasFilter = false then pure (decide (want = none))
  else do
    let last ← query Scene.lastFilter
    if last = want then pure true
    else if ← attempt (underContext (loadPolicy r.membership.interfaceName want)) then
      update fun s => { s with lastFilter := want }
      pure true
    else pure false

def sameMap (mapped last : List (Prefix × Prefix)) : Bool :=
  (mapped ++ last).all fun entry => mappedTo mapped entry.1 = mappedTo last entry.1

def applyMappings (r : Setup) (mapped : List (Prefix × Prefix)) : Resume Scene Unit :=
  if r.hasFilter = false then pure ()
  else do
    let last ← query Scene.lastMapped
    if sameMap mapped last then pure ()
    else if ← attempt (underContext (loadMapping r.membership.interfaceName mapped)) then
      update fun s => { s with lastMapped := mapped }
    else pure ()

/-- `applyForwarding`. The host is let forward before the table is loaded. -/
def applyForwarding (r : Setup) : Option AdvertisedRoutes → Resume Scene Unit
  | none => pure ()
  | some advertised =>
    if r.hasFilter = false then pure ()
    else do
      let last ← query Scene.lastAdvertised
      if last = some advertised then pure ()
      else
        update fun s => if advertised.groups = [] then s
          else { s with kernel := enableForwarding s.kernel }
        if ← attempt
            (underContext (loadForward r.membership.interfaceName advertised.groups)) then
          if ← attempt
              (underContext (fillCarry r.membership.interfaceName advertised.groups)) then
            update fun s => { s with lastAdvertised := some advertised }
          else pure ()
        else pure ()

def applyRest (r : Setup) (u : Update) (own : List Prefix) : Resume Scene Unit := do
  if ← applyFilter r u.filter then
    let _ ← ofCalls egressAct (Sharing.egressStep r u.input own)
    applyMappings r (mappedPrefixes u.input.site.canTranslate u.input.told.routeGroups)
    applyForwarding r u.advertised
  else pure ()

/-- `Apply`. -/
def pass (r : Setup) (chosen : Int) (u : Update) : Resume Scene Unit :=
  match desired u.input.site r.membership u.input.told with
  | .error _ => pure ()
  | .ok (i, _) => do
    let observed ← query fun s => Wgplan.observe s.link
    match Wgplan.planFor i observed with
    | .error _ => pure ()
    | .ok ops =>
      if ← all (ops.map (operate chosen)) then applyRest r u i.addresses else pure ()

/-- `ApplyForward` of no groups. -/
def withdrawForward (r : Setup) : Resume Scene Bool := do
  if ← attempt (loadForward r.membership.interfaceName []) then
    attempt (fillCarry r.membership.interfaceName [])
  else pure false

def withdraw (r : Setup) : Resume Scene Unit :=
  if r.hasFilter = false then pure ()
  else do
    let _ ← attempt (loadPolicy r.membership.interfaceName none)
    let _ ← withdrawForward r
    let _ ← attempt (loadMapping r.membership.interfaceName [])
    update fun s => { s with lastFilter := none, lastAdvertised := none, lastMapped := [] }

def teardown (r : Setup) (chosen : Int) : Resume Scene Unit := do
  withdraw r
  let observed ← query fun s => Wgplan.observe s.link
  let _ ← all ((Wgplan.teardown observed).map (operate chosen))

def cancel : Resume Scene Unit :=
  update fun s => { s with cancelled := true }

def releaseRoute : Resume Scene Bool := do
  if ← query fun s => s.egress.claimed then ofCalls kernelAct release else pure true

def releaseLock (r : Setup) : Resume Scene Bool := do
  if ← query fun s => r.hasLock && s.egress.locked then
    attempt (kernelAct (.applyLock "" ⟨[], []⟩ false))
  else pure true

/-- `releaseEgress` of the agent: both halves of a claim, the routing first. -/
def releaseEgress (r : Setup) : Resume Scene Unit := do
  let _ ← releaseRoute
  let _ ← releaseLock r

inductive Parting
  | revoke
  | down
  deriving DecidableEq

/-- `revoke` and `down`, as far as the host goes. -/
def parting (r : Setup) (chosen : Int) : Parting → Resume Scene Unit
  | .revoke => do
    teardown r chosen
    cancel
  | .down => do
    teardown r chosen
    cancel
    releaseEgress r

inductive Stage
  | staying
  | going (program : Resume Scene Unit)
  | left

/-- The host, the passes under way on the threads `τ`, and leaving. -/
structure World (τ : Type) where
  scene : Scene
  passes : τ → Option (Resume Scene Unit) := fun _ => none
  stage : Stage := .staying

inductive Move (τ : Type)
  /-- A session or the timer begins a pass. -/
  | begin (thread : τ) (u : Update)
  /-- A pass makes its next call, or ends. -/
  | next (thread : τ)
  /-- The membership is revoked, or the tunnels are taken down. -/
  | part (how : Parting)
  /-- Leaving makes its next call, or returns. -/
  | proceed

variable {τ : Type} [DecidableEq τ]

def step (r : Setup) (chosen : Int) (w : World τ) : Move τ → World τ
  | .begin thread u =>
    match w.passes thread with
    | some _ => w
    | none => { w with passes := update w.passes thread (some (pass r chosen u)) }
  | .next thread =>
    match w.passes thread with
    | none => w
    | some (.done _) => { w with passes := update w.passes thread none }
    | some (.act f next) =>
      { w with
        scene := f w.scene
        passes := update w.passes thread (some (next w.scene)) }
  | .part how =>
    match w.stage with
    | .staying => { w with stage := .going (parting r chosen how) }
    | _ => w
  | .proceed =>
    match w.stage with
    | .going (.done _) => { w with stage := .left }
    | .going (.act f next) => { w with scene := f w.scene, stage := .going (next w.scene) }
    | _ => w

def World.start (host : Foreign) (forwarding : Bool) : World τ :=
  { scene := { kernel := ⟨host.rules, forwarding⟩ } }

def foreignPart (rs : Ruleset) : Ruleset :=
  ((rs.without tableKey).without forwardKey).without lockKey

/-- Nothing of the membership is left on the host: neither its interface, its policy, what it
forwards and translates, its claim nor its lock. A carry chain that is left is empty. -/
@[mk_iff]
structure Gone (host : Foreign) (s : Scene) : Prop where
  link : s.link = none
  policy : s.kernel.rules.named tableKey = []
  forward : s.kernel.rules.named forwardKey = []
  carried : foreignPart s.kernel.rules = host.rules ∨
    foreignPart s.kernel.rules = host.carrying []
  mapping : s.mapping = {}
  clean : s.egress.Clean

def Vanished (host : Foreign) (w : World τ) : Prop :=
  w.stage = .left → (∀ thread, w.passes thread = none) → Gone host w.scene

def Stopped (w : World τ) : Move τ → Prop
  | .begin _ _ => w.stage = .staying
  | .part how => (∀ thread, w.passes thread = none) ∧ (how = .revoke → w.scene.egress.Clean)
  | _ => True

section Calls

variable {s s' : Scene} {iface : String} {rs rs' : Ruleset} {k k' : Netfilter.Key}

theorem foreignPart_congr (hk : k = tableKey ∨ k = forwardKey ∨ k = lockKey)
    (h : rs'.without k = rs.without k) : foreignPart rs' = foreignPart rs := by
  have hpart : ∀ rs : Ruleset, foreignPart (rs.without k) = foreignPart rs := by
    intro rs
    unfold foreignPart
    rcases hk with rfl | rfl | rfl
    · rw [without_without_self]
    · have hcomm : (rs.without forwardKey).without tableKey =
          (rs.without tableKey).without forwardKey := without_comm
      rw [hcomm, without_without_self]
    · have hcomm : (rs.without lockKey).without tableKey =
          (rs.without tableKey).without lockKey := without_comm
      have hcomm' : ((rs.without tableKey).without lockKey).without forwardKey =
          ((rs.without tableKey).without forwardKey).without lockKey := without_comm
      rw [hcomm, hcomm', without_without_self]
  rw [← hpart rs', h, hpart]

theorem named_congr (hk : k' ≠ k) (h : rs'.without k = rs.without k) :
    rs'.named k' = rs.named k' := by
  rw [← named_without hk, h, named_without hk]

theorem loadPolicy_some {want : Option PacketFilter} (h : loadPolicy iface want s = some s') :
    interfaceNameOk iface = true ∧ ∃ kernel : Kernel, s' = { s with kernel } ∧
      kernel.rules.without tableKey = s.kernel.rules.without tableKey ∧
      (want = none → kernel.rules.named tableKey = []) := by
  obtain ⟨kernel, hkernel, rfl⟩ := Option.map_eq_some_iff.1 h
  obtain ⟨hname, ts, hts, rfl⟩ := Filter.apply_eq.1 (Base.toOption_eq_some.1 hkernel)
  obtain ⟨hnamed, hrest, _⟩ :=
    Ruleset.replaced s.kernel.rules fun t ht => ((policyTables_acts hts).2 t ht).1
  refine ⟨hname, _, rfl, hrest, fun hwant => ?_⟩
  subst hwant
  cases hts
  exact hnamed

theorem loadForward_some {groups : List AdvertisedGroup}
    (h : loadForward iface groups s = some s') :
    interfaceNameOk iface = true ∧ ∃ kernel : Kernel, s' = { s with kernel } ∧
      kernel.rules.without forwardKey = s.kernel.rules.without forwardKey ∧
      (groups = [] → kernel.rules.named forwardKey = []) := by
  obtain ⟨kernel, hkernel, rfl⟩ := Option.map_eq_some_iff.1 h
  obtain ⟨script, hscript, hload⟩ := Base.bind_eq_ok.1 (Base.toOption_eq_some.1 hkernel)
  obtain ⟨hname, c, hc, rfl⟩ := renderForward_eq.1 hscript
  obtain ⟨hone, hacts⟩ := forwardTables_acts iface groups c
  rw [Nftables.apply, load_tables s.kernel.rules forwardKey hone hacts] at hload
  cases hload
  obtain ⟨hnamed, hrest, _⟩ := Ruleset.replaced s.kernel.rules fun t ht => (hacts t ht).1
  refine ⟨hname, _, rfl, hrest, fun hgroups => ?_⟩
  subst hgroups
  cases hc
  exact hnamed

theorem fillCarry_some {groups : List AdvertisedGroup} (h : fillCarry iface groups s = some s') :
    ∃ (kernel : Kernel) (ps : List Prefix), s' = { s with kernel } ∧
      kernel.rules = Nftables.carry s.kernel.rules (carryChainRules iface ps) ∧
      (groups = [] → ps = []) ∧ (interfaceNameOk iface = false → kernel.rules = s.kernel.rules) := by
  obtain ⟨kernel, hkernel, rfl⟩ := Option.map_eq_some_iff.1 h
  obtain ⟨ps, hps, hfill⟩ := Base.bind_eq_ok.1 (Base.toOption_eq_some.1 hkernel)
  have hnil : groups = [] → ps = [] := by
    rintro rfl
    cases hps
    rfl
  refine ⟨kernel, ps, rfl, ?_, hnil, fun hname => ?_⟩
  · by_cases hname : interfaceNameOk iface = true
    · rw [applyCarry_eq hname] at hfill
      cases hfill
      rfl
    · -- A chain to fill is refused under a name that cannot be written.
      unfold applyCarry at hfill
      split at hfill
      · simp [renderCarry, Base.refuseIf, Bool.eq_false_iff.2 hname] at hfill
        cases hfill
      · rename_i hexists
        cases hfill
        rw [Nftables.carry, if_neg hexists]
  · unfold applyCarry at hfill
    split at hfill
    · simp [renderCarry, Base.refuseIf, hname] at hfill
      cases hfill
    · cases hfill
      rfl

theorem loadMapping_some {mapped : List (Prefix × Prefix)}
    (h : loadMapping iface mapped s = some s') :
    interfaceNameOk iface = true ∧ ∃ mapping, s' = { s with mapping } ∧
      (mapped = [] → mapping = {}) := by
  obtain ⟨mapping, hmapping, rfl⟩ := Option.map_eq_some_iff.1 h
  have hrender := Base.toOption_eq_some.1 hmapping
  unfold renderMap at hrender
  obtain ⟨hname, hrender⟩ := Base.refuseIf_bind_eq_ok.1 hrender
  refine ⟨by simpa using hname, mapping, rfl, ?_⟩
  rintro rfl
  cases hrender
  rfl

theorem kernelAct_some {c : Call} (h : kernelAct c s = some s') :
    ∃ (kernel : Kernel) (routing : Part → Bool), s' = { s with kernel, routing } ∧
      kernel.rules.without lockKey = s.kernel.rules.without lockKey ∧
      ((∀ iface carve dns, c ≠ .applyLock iface carve dns) → kernel.rules = s.kernel.rules) := by
  obtain ⟨t, ht, rfl⟩ := Option.map_eq_some_iff.1 h
  refine ⟨_, _, rfl, ?_⟩
  cases c with
  | applyLock iface carve dns =>
    simp only [FullTunnel.act] at ht
    obtain ⟨lines, hlines, ht⟩ := Option.bind_eq_some_iff.1 ht
    obtain ⟨rules, hrules, ht⟩ := Option.bind_eq_some_iff.1 ht
    cases ht
    exact ⟨without_of_loadLines (Base.toOption_eq_some.1 hlines) hrules,
      fun hno => absurd rfl (hno iface carve dns)⟩
  | operate n op => cases op <;> cases ht <;> exact ⟨rfl, fun _ => rfl⟩
  | _ => cases ht; exact ⟨rfl, fun _ => rfl⟩

theorem operate_some {chosen : Int} {op : Wgplan.Op} (h : operate chosen op s = some s') :
    ∃ routing, s' = { s with routing, link := Wgplan.execute chosen s.link op } := by
  unfold operate at h
  split at h
  · cases h
  · obtain ⟨t, ht, rfl⟩ := Option.map_eq_some_iff.1 h
    cases op <;> cases ht <;> exact ⟨_, rfl⟩

theorem underContext_some {f : Scene → Option Scene} (h : underContext f s = some s') :
    f s = some s' := by
  unfold underContext at h
  split at h
  · cases h
  · exact h

end Calls

def Unusable (r : Setup) : Prop :=
  r.hasFilter = false ∨ interfaceNameOk r.membership.interfaceName = false

/-- The host's own tables are as it had them, the carry chain aside, and what cannot be loaded is
not there. -/
structure Sound (host : Foreign) (r : Setup) (s : Scene) : Prop where
  own : foreignPart s.kernel.rules = host.rules ∨
    ∃ rules, foreignPart s.kernel.rules = host.carrying rules
  unusable : Unusable r → foreignPart s.kernel.rules = host.rules ∧
    s.kernel.rules.named tableKey = [] ∧ s.kernel.rules.named forwardKey = [] ∧ s.mapping = {}
  unlockable : r.hasLock = false → s.kernel.rules.named lockKey = []

section Sound

variable {host : Foreign} {r : Setup} {s s' : Scene}

theorem sound_start (hlock : host.rules.named lockKey = []) (forwarding : Bool) :
    Sound host r { kernel := ⟨host.rules, forwarding⟩ } := by
  have hpart : foreignPart host.rules = host.rules := by
    unfold foreignPart
    rw [without_of_named_nil host.noPolicy, without_of_named_nil host.noForward,
      without_of_named_nil hlock]
  exact ⟨.inl hpart, fun _ => ⟨hpart, host.noPolicy, host.noForward, rfl⟩, fun _ => hlock⟩

theorem Sound.same (h : Sound host r s) (hrules : s'.kernel.rules = s.kernel.rules)
    (hmapping : s'.mapping = s.mapping) : Sound host r s' where
  own := by
    rw [hrules]
    exact h.own
  unusable := by
    rw [hrules, hmapping]
    exact h.unusable
  unlockable := by
    rw [hrules]
    exact h.unlockable

theorem usable (hfilter : ¬r.hasFilter = false)
    (hname : interfaceNameOk r.membership.interfaceName = true) : ¬Unusable r := by
  rintro (hno | hno)
  · exact hfilter hno
  · rw [hname] at hno
    cases hno

theorem Sound.replaced (hs : Sound host r s) (husable : ¬Unusable r) {kernel : Kernel}
    {k : Netfilter.Key} (hk : k = tableKey ∨ k = forwardKey)
    (hrest : kernel.rules.without k = s.kernel.rules.without k) :
    Sound host r { s with kernel } := by
  have hpart := foreignPart_congr (hk.imp_right .inl) hrest
  refine ⟨?_, fun hno => absurd hno husable, fun hlock => ?_⟩
  · rw [hpart]
    exact hs.own
  · have hne : lockKey ≠ k := by rcases hk with rfl | rfl <;> decide
    exact (named_congr hne hrest).trans (hs.unlockable hlock)

theorem sound_loadPolicy (hfilter : ¬r.hasFilter = false) {want : Option PacketFilter}
    (hs : Sound host r s) (h : loadPolicy r.membership.interfaceName want s = some s') :
    Sound host r s' := by
  obtain ⟨hname, kernel, rfl, hrest, _⟩ := loadPolicy_some h
  exact hs.replaced (usable hfilter hname) (.inl rfl) hrest

theorem sound_loadForward (hfilter : ¬r.hasFilter = false) {groups : List AdvertisedGroup}
    (hs : Sound host r s) (h : loadForward r.membership.interfaceName groups s = some s') :
    Sound host r s' := by
  obtain ⟨hname, kernel, rfl, hrest, _⟩ := loadForward_some h
  exact hs.replaced (usable hfilter hname) (.inr rfl) hrest

theorem foreignPart_carry (rs : Ruleset) (rules : List Netfilter.Rule) :
    foreignPart (Nftables.carry rs rules) = Nftables.carry (foreignPart rs) rules := by
  unfold foreignPart
  rw [carry_without _ _ (by decide), carry_without _ _ (by decide), carry_without _ _ (by decide)]

theorem Sound.carried (h : Sound host r s) (rules : List Netfilter.Rule) :
    foreignPart (Nftables.carry s.kernel.rules rules) = host.carrying rules := by
  rw [foreignPart_carry]
  rcases h.own with hown | ⟨filled, hown⟩
  · rw [hown, host.carry_rules]
  · rw [hown, host.carry_carrying]

theorem sound_fillCarry (hfilter : ¬r.hasFilter = false) {groups : List AdvertisedGroup}
    (hs : Sound host r s) (h : fillCarry r.membership.interfaceName groups s = some s') :
    Sound host r s' := by
  obtain ⟨kernel, ps, rfl, hrules, _, hunwritten⟩ := fillCarry_some h
  by_cases hname : interfaceNameOk r.membership.interfaceName = true
  · refine ⟨.inr ⟨carryChainRules r.membership.interfaceName ps, ?_⟩,
      fun hno => absurd hno (usable hfilter hname), fun hlock => ?_⟩
    · change foreignPart kernel.rules = _
      rw [hrules]
      exact hs.carried _
    · change kernel.rules.named lockKey = []
      rw [hrules, carry_named _ _ (by decide)]
      exact hs.unlockable hlock
  · exact hs.same (hunwritten (Bool.eq_false_iff.2 hname)) rfl

theorem sound_loadMapping (hfilter : ¬r.hasFilter = false) {mapped : List (Prefix × Prefix)}
    (hs : Sound host r s) (h : loadMapping r.membership.interfaceName mapped s = some s') :
    Sound host r s' := by
  obtain ⟨hname, mapping, rfl, _⟩ := loadMapping_some h
  exact ⟨hs.own, fun hno => absurd hno (usable hfilter hname), hs.unlockable⟩

def Lockable (r : Setup) : Sharing.Act → Prop
  | .kernel (.applyLock _ _ _) => r.hasLock = true
  | _ => True

theorem sound_egressAct {c : Sharing.Act} (hc : Lockable r c) (hs : Sound host r s)
    (h : egressAct c s = some s') : Sound host r s' := by
  have hkernel : ∀ c : Call, Lockable r (.kernel c) → kernelAct c s = some s' →
      Sound host r s' := by
    intro c hc h
    obtain ⟨kernel, routing, rfl, hrest, hsame⟩ := kernelAct_some h
    have hpart := foreignPart_congr (.inr (.inr rfl)) hrest
    refine ⟨?_, fun hno => ?_, fun hlock => ?_⟩
    · rw [hpart]
      exact hs.own
    · obtain ⟨hown, hpolicy, hforward, hmapping⟩ := hs.unusable hno
      exact ⟨hpart.trans hown, (named_congr (by decide) hrest).trans hpolicy,
        (named_congr (by decide) hrest).trans hforward, hmapping⟩
    · have hunlocked : ∀ iface carve dns, c ≠ .applyLock iface carve dns := by
        rintro iface carve dns rfl
        rw [show r.hasLock = true from hc] at hlock
        cases hlock
      change kernel.rules.named lockKey = []
      rw [hsame hunlocked]
      exact hs.unlockable hlock
  cases c with
  | kernel c =>
    cases c with
    | applyLock iface carve dns => exact hkernel _ hc (underContext_some h)
    | _ =>
      simp only [egressAct] at h
      split at h
      · cases h
      · exact hkernel _ hc h
  | ask =>
    simp only [egressAct] at h
    split at h
    · cases h
      exact hs
    · cases h
  | set claimed =>
    cases h
    exact hs.same rfl rfl

theorem sound_operate {chosen : Int} {op : Wgplan.Op} (hs : Sound host r s)
    (h : operate chosen op s = some s') : Sound host r s' := by
  obtain ⟨routing, rfl⟩ := operate_some h
  exact hs.same rfl rfl

theorem keeps_underContext {f : Scene → Option Scene}
    (hf : ∀ s s', Sound host r s → f s = some s' → Sound host r s') :
    (attempt (underContext f)).Keeps (Sound host r) :=
  keeps_attempt fun s s' hs h => hf s s' hs (underContext_some h)

theorem keeps_applyFilter (want : Option PacketFilter) :
    (applyFilter r want).Keeps (Sound host r) := by
  refine keeps_ite (fun _ => trivial) fun hfilter => ?_
  refine keeps_bind (keeps_query _) fun last => ?_
  refine keeps_ite (fun _ => trivial) fun _ => ?_
  refine keeps_bind (keeps_underContext fun s s' hs h => sound_loadPolicy hfilter hs h)
    fun loaded => keeps_ite (fun _ => ?_) fun _ => trivial
  exact keeps_bind (Resume.keeps_update fun s hs => hs.same rfl rfl) fun _ => trivial

theorem keeps_applyMappings (mapped : List (Prefix × Prefix)) :
    (applyMappings r mapped).Keeps (Sound host r) := by
  refine keeps_ite (fun _ => trivial) fun hfilter => ?_
  refine keeps_bind (keeps_query _) fun last => ?_
  refine keeps_ite (fun _ => trivial) fun _ => ?_
  refine keeps_bind (keeps_underContext fun s s' hs h => sound_loadMapping hfilter hs h)
    fun loaded => keeps_ite (fun _ => ?_) fun _ => trivial
  exact Resume.keeps_update fun s hs => hs.same rfl rfl

theorem keeps_applyForwarding (advertised : Option AdvertisedRoutes) :
    (applyForwarding r advertised).Keeps (Sound host r) := by
  cases advertised with
  | none => trivial
  | some advertised =>
    refine keeps_ite (fun _ => trivial) fun hfilter => ?_
    refine keeps_bind (keeps_query _) fun last => ?_
    refine keeps_ite (fun _ => trivial) fun _ => ?_
    refine keeps_bind (Resume.keeps_update fun s hs => ?_) fun _ => ?_
    · split
      · exact hs
      · exact hs.same rfl rfl
    refine keeps_bind (keeps_underContext fun s s' hs h => sound_loadForward hfilter hs h)
      fun loaded => keeps_ite (fun _ => ?_) fun _ => trivial
    refine keeps_bind (keeps_underContext fun s s' hs h => sound_fillCarry hfilter hs h)
      fun filled => keeps_ite (fun _ => ?_) fun _ => trivial
    exact Resume.keeps_update fun s hs => hs.same rfl rfl

theorem only_router {p : Calls Call Bool} (hp : p = release ∨ ∃ iface, p = FullTunnel.claim iface) :
    (p.rename Sharing.Act.kernel).Only (Lockable r) := by
  have hdelete : ∀ ps : List Part, (each (ps.map Call.delete)).Only
      (fun c => Lockable r (.kernel c)) := by
    intro ps
    refine Calls.only_each fun c hc => ?_
    obtain ⟨part, _, rfl⟩ := List.mem_map.1 hc
    trivial
  refine Calls.only_rename ?_
  rcases hp with rfl | ⟨iface, rfl⟩
  · refine only_bind (only_make trivial) fun _ => only_ite (fun _ => ?_)
      fun _ => trivial
    refine only_bind (hdelete [.mark .ip, .suppress .ip, .mark .ip6, .suppress .ip6])
      fun _ => ?_
    refine only_bind (only_make trivial) fun _ => only_ite (fun _ => ?_)
      fun _ => trivial
    exact only_bind (hdelete [.table .ip, .table .ip6]) fun _ => trivial
  · refine Calls.only_all fun c hc => ?_
    simp only [FullTunnel.claimCalls, List.mem_cons, List.not_mem_nil, or_false] at hc
    rcases hc with rfl | rfl | rfl | rfl | rfl | rfl | rfl | rfl | rfl <;> trivial

theorem only_egressStep (u : Input) (own : List Prefix) :
    (Sharing.egressStep r u own).Only (Lockable r) := by
  refine only_ite (fun _ => ?_) fun _ => ?_
  · refine only_ite (fun _ => trivial) fun hable => ?_
    refine only_bind (only_make trivial) fun listed => ?_
    split
    · trivial
    · rename_i carve _
      have hlock : ((FullTunnel.lockFor u r.membership.interfaceName carve).rename
          Sharing.Act.kernel).Only (Lockable r) := by
        refine Calls.only_rename (only_ite (fun hclosed => ?_) fun _ => trivial)
        refine only_make ?_
        by_contra hno
        exact hable (.inr ⟨hclosed, Bool.eq_false_iff.2 hno⟩)
      refine only_bind hlock fun _ => only_ite (fun _ => ?_) fun _ => trivial
      refine only_bind (only_router (.inr ⟨_, rfl⟩)) fun _ =>
        only_ite (fun _ => ?_) fun _ => trivial
      exact only_make trivial
  · refine only_bind (only_make trivial) fun _ => only_ite (fun _ => ?_)
      fun _ => trivial
    have hset : ∀ done : Bool, Calls.Only (Lockable r)
        (if done = true then make (.set false) else pure true) :=
      fun _ => only_ite (fun _ => only_make trivial) fun _ => trivial
    have hunlock : ∀ routed : Bool, Calls.Only (Lockable r) (if r.hasLock = true then do
          let unlocked ← make (.kernel (.applyLock "" ⟨[], []⟩ false))
          if (routed && unlocked) = true then make (.set false) else pure true
        else do
          let unlocked ← pure true
          if (routed && unlocked) = true then make (.set false) else pure true) :=
      fun _ => only_ite (fun hlock => only_bind (only_make hlock) fun _ => hset _)
        fun _ => hset _
    refine only_ite (fun _ => ?_) fun _ => hunlock true
    exact only_bind (only_router (.inl rfl)) hunlock

theorem keeps_pass (chosen : Int) (u : Update) : (pass r chosen u).Keeps (Sound host r) := by
  unfold pass
  split
  · trivial
  · refine keeps_bind (keeps_query _) fun observed => ?_
    split
    · trivial
    · refine keeps_bind (Resume.keeps_all fun f hf s s' hs h => ?_) fun _ =>
        keeps_ite (fun _ => ?_) fun _ => trivial
      · obtain ⟨op, _, rfl⟩ := List.mem_map.1 hf
        exact sound_operate hs h
      · refine keeps_bind (keeps_applyFilter _) fun _ =>
          keeps_ite (fun _ => ?_) fun _ => trivial
        refine keeps_bind (Resume.keeps_ofCalls (only_egressStep _ _)
          fun c hc s s' hs h => sound_egressAct hc hs h) fun _ => ?_
        exact keeps_bind (keeps_applyMappings _) fun _ => keeps_applyForwarding _

end Sound

section Parting

variable {host : Foreign} {r : Setup} {s : Scene} {iface : String}

theorem loadPolicy_none (hname : interfaceNameOk iface = true) (s : Scene) :
    loadPolicy iface none s =
      some { s with kernel := { s.kernel with rules := s.kernel.rules.without tableKey } } := by
  unfold loadPolicy
  rw [Filter.apply_eq.2 ⟨hname, [], rfl, rfl⟩, List.append_nil]
  rfl

theorem loadForward_nil (hname : interfaceNameOk iface = true) (s : Scene) :
    loadForward iface [] s =
      some { s with kernel := { s.kernel with rules := s.kernel.rules.without forwardKey } } := by
  have hrender : renderForward iface [] = .ok (Netfilter.remove forwardKey) :=
    renderForward_eq.2 ⟨hname, _, rfl, rfl⟩
  simp only [loadForward, hrender, Except.bind, Nftables.apply, Netfilter.load_remove]
  rfl

theorem fillCarry_nil (hname : interfaceNameOk iface = true) (s : Scene) :
    fillCarry iface [] s =
      some { s with kernel := { s.kernel with rules := Nftables.carry s.kernel.rules [] } } := by
  have hcarry : Nftables.carryGroups s.kernel iface [] = applyCarry s.kernel iface [] := rfl
  unfold fillCarry
  rw [hcarry, applyCarry_eq hname]
  rfl

theorem loadMapping_nil (hname : interfaceNameOk iface = true) (s : Scene) :
    loadMapping iface [] s = some { s with mapping := {} } := by
  have hrender : renderMap iface [] = .ok {} := by
    unfold renderMap
    exact Base.refuseIf_bind_eq_ok.2 ⟨by simpa using hname, rfl⟩
  change (renderMap iface []).toOption.map _ = _
  rw [hrender]
  rfl

structure Withdrawn (host : Foreign) (s t : Scene) : Prop where
  link : t.link = s.link
  routing : t.routing = s.routing
  lock : t.kernel.rules.named lockKey = s.kernel.rules.named lockKey
  policy : t.kernel.rules.named tableKey = []
  forward : t.kernel.rules.named forwardKey = []
  carried : foreignPart t.kernel.rules = host.rules ∨
    foreignPart t.kernel.rules = host.carrying []
  mapping : t.mapping = {}

theorem withdrawn_withdraw (hs : Sound host r s) : Withdrawn host s ((withdraw r).exec s).2 := by
  -- Where nothing could be loaded, nothing is there to remove.
  have hnothing : Unusable r → ∀ t : Scene, t.link = s.link → t.routing = s.routing →
      t.kernel = s.kernel → t.mapping = s.mapping → Withdrawn host s t := by
    intro hno t hlink hrouting hkernel hmapping
    obtain ⟨hown, hpolicy, hforward, hempty⟩ := hs.unusable hno
    rw [← hkernel] at hown hpolicy hforward
    exact ⟨hlink, hrouting, by rw [hkernel], hpolicy, hforward, .inl hown, hmapping.trans hempty⟩
  unfold withdraw
  by_cases hfilter : r.hasFilter = false
  · rw [if_pos hfilter]
    exact hnothing (.inl hfilter) s rfl rfl rfl rfl
  rw [if_neg hfilter]
  by_cases hname : interfaceNameOk r.membership.interfaceName = true
  · simp only [withdrawForward, exec_bind, exec_attempt, exec_update,
      loadPolicy_none hname, loadForward_nil hname, fillCarry_nil hname, loadMapping_nil hname,
      Option.isSome_some, Option.getD_some, if_true]
    refine ⟨rfl, rfl, ?_, ?_, ?_, .inr ?_, rfl⟩
    · rw [carry_named _ _ (by decide), named_without (by decide),
        named_without (by decide)]
    · rw [carry_named _ _ (by decide), named_without (by decide),
        named_without_self]
    · rw [carry_named _ _ (by decide), named_without_self]
    · rw [foreignPart_carry, foreignPart_congr (.inr (.inl rfl)) without_without_self,
        foreignPart_congr (.inl rfl) without_without_self, ← foreignPart_carry]
      exact hs.carried []
  · have hrefused : ∀ t, loadPolicy r.membership.interfaceName none t = none ∧
        loadForward r.membership.interfaceName [] t = none ∧
        loadMapping r.membership.interfaceName [] t = none := by
      intro t
      refine ⟨?_, ?_, ?_⟩
      · exact Option.eq_none_iff_forall_ne_some.2 fun _ h => hname (loadPolicy_some h).1
      · exact Option.eq_none_iff_forall_ne_some.2 fun _ h => hname (loadForward_some h).1
      · exact Option.eq_none_iff_forall_ne_some.2 fun _ h => hname (loadMapping_some h).1
    simp only [withdrawForward, exec_bind, exec_attempt, exec_update,
      (hrefused _).1, (hrefused _).2.1, (hrefused _).2.2, Option.isSome_none, Option.getD_none,
      Bool.false_eq_true, if_false, exec_pure]
    exact hnothing (.inr (Bool.eq_false_iff.2 hname)) _ rfl rfl rfl rfl

theorem exec_operations (chosen : Int) (s : Scene) :
    ∃ routing, (∀ f, routing (.mark f) = s.routing (.mark f)) ∧
      ((all ((Wgplan.teardown (Wgplan.observe s.link)).map (operate chosen))).exec s).2 =
        { s with link := none, routing } := by
  cases hlink : s.link with
  | none =>
    cases s
    subst hlink
    exact ⟨_, fun _ => rfl, rfl⟩
  | some l =>
    have hremove : ∀ op ∈ (Wgplan.sortPrefixes l.routes).map Wgplan.Op.removeRoute ++
          (Wgplan.sortPrefixes l.addresses).map Wgplan.Op.removeAddress,
        ∀ t, (∃ l', t = { s with link := some l' }) →
          ∃ t', operate chosen op t = some t' ∧ ∃ l', t' = { s with link := some l' } := by
      rintro op hop t ⟨l', rfl⟩
      rcases List.mem_append.1 hop with hop | hop
      · obtain ⟨p, _, rfl⟩ := List.mem_map.1 hop
        exact ⟨_, rfl, _, rfl⟩
      · obtain ⟨p, _, rfl⟩ := List.mem_map.1 hop
        exact ⟨_, rfl, _, rfl⟩
    obtain ⟨hdone, l', hl'⟩ := Resume.exec_all (s := s) hremove ⟨l, by rw [← hlink]⟩
    refine ⟨update (update s.routing (.table .ip) false) (.table .ip6) false,
      fun f => rfl, ?_⟩
    change ((all (((Wgplan.sortPrefixes l.routes).map Wgplan.Op.removeRoute ++
      (Wgplan.sortPrefixes l.addresses).map Wgplan.Op.removeAddress ++
      [Wgplan.Op.destroyDevice]).map (operate chosen))).exec s).2 = _
    rw [List.map_append, Resume.exec_all_append hdone, hl']
    rfl

theorem exec_kernelAct (p : Calls Call Bool) (s : Scene) :
    (ofCalls kernelAct p).exec s =
      ((p.exec FullTunnel.act (fun _ => true) s.egress).1,
        s.withEgress (p.exec FullTunnel.act (fun _ => true) s.egress).2) := by
  rw [Resume.exec_ofCalls]
  exact Calls.exec_lift Scene.egress Scene.withEgress (fun _ _ => rfl) (fun _ => rfl)
    (fun _ _ => rfl) (fun _ _ _ => rfl) p s

theorem exec_releaseRoute (s : Scene) :
    ∃ routing, (releaseRoute.exec s).2 = { s with routing } ∧
      (releaseRoute.exec s).2.egress.claimed = false := by
  unfold releaseRoute
  rw [Resume.exec_query_bind]
  by_cases hheld : s.egress.claimed = true
  · rw [if_pos hheld, exec_kernelAct]
    have hrelease : Calls.Ensures FullTunnel.act (fun _ => true) _ _ release s.egress :=
      FullTunnel.ensures_release s.egress
    obtain ⟨hrules, hgone, hdone⟩ := Calls.exec_of_ensures hrelease
    refine ⟨(release.exec FullTunnel.act (fun _ => true) s.egress).2.routing, ?_, ?_⟩
    · unfold Scene.withEgress
      rw [hrules]
      rfl
    · exact hgone (hdone fun _ => rfl)
  · rw [if_neg hheld]
    exact ⟨s.routing, rfl, Bool.eq_false_iff.2 hheld⟩

theorem exec_releaseLock (hlockable : r.hasLock = false → s.kernel.rules.named lockKey = []) :
    ∃ rules : Ruleset, ((releaseLock r).exec s).2 =
        { s with kernel := { s.kernel with rules } } ∧
      rules.without lockKey = s.kernel.rules.without lockKey ∧ rules.has lockKey = false := by
  unfold releaseLock
  rw [Resume.exec_query_bind]
  by_cases hheld : (r.hasLock && s.egress.locked) = true
  · have hunlock : kernelAct (.applyLock "" ⟨[], []⟩ false) s =
        some { s with kernel := { s.kernel with rules := s.kernel.rules.without lockKey } } := by
      unfold kernelAct
      rw [FullTunnel.act_unlock]
      rfl
    rw [if_pos hheld, exec_attempt, hunlock, Option.getD_some]
    refine ⟨_, rfl, without_without_self, ?_⟩
    exact FullTunnel.locked_without s.kernel.rules s.routing
  · rw [if_neg hheld]
    refine ⟨s.kernel.rules, rfl, rfl, Bool.eq_false_iff.2 fun hlocked => ?_⟩
    cases hlock : r.hasLock with
    | true => exact hheld (Bool.and_eq_true_iff.2 ⟨hlock, hlocked⟩)
    | false => exact has_iff.1 hlocked (hlockable hlock)

theorem withdrawn_teardown (chosen : Int) (hs : Sound host r s) :
    ∃ t, ((teardown r chosen).exec s).2 = t ∧ t.link = none ∧
      t.egress.claimed = s.egress.claimed ∧ Withdrawn host { s with link := none } { t with
        routing := s.routing } := by
  have hw := withdrawn_withdraw hs
  obtain ⟨routing, hmark, hops⟩ := exec_operations chosen ((withdraw r).exec s).2
  refine ⟨_, rfl, ?_⟩
  have hteardown : ((teardown r chosen).exec s).2 =
      Scene.mk none ((withdraw r).exec s).2.kernel ((withdraw r).exec s).2.mapping routing
        ((withdraw r).exec s).2.lastFilter ((withdraw r).exec s).2.lastAdvertised
        ((withdraw r).exec s).2.lastMapped ((withdraw r).exec s).2.claimed
        ((withdraw r).exec s).2.cancelled := by
    refine Eq.trans ?_ hops
    simp only [teardown, exec_bind, Resume.exec_query, exec_pure]
  rw [hteardown]
  refine ⟨rfl, ?_, ⟨rfl, rfl, hw.lock, hw.policy, hw.forward, hw.carried, hw.mapping⟩⟩
  change (routing (.mark .ip) || routing (.mark .ip6)) = _
  rw [hmark, hmark, hw.routing]
  rfl

theorem gone_parting (chosen : Int) (how : Parting) (hs : Sound host r s)
    (hclean : how = .revoke → s.egress.Clean) :
    Gone host ((parting r chosen how).exec s).2 := by
  obtain ⟨t, ht, hlink, hclaimed, hw⟩ := withdrawn_teardown chosen hs
  cases how with
  | revoke =>
    have hparting : ((parting r chosen .revoke).exec s).2 = { t with cancelled := true } := by
      rw [← ht]
      simp only [parting, cancel, exec_bind, exec_update]
    obtain ⟨hlocked, hunclaimed⟩ := hclean rfl
    rw [hparting]
    refine ⟨hlink, hw.policy, hw.forward, hw.carried, hw.mapping, ?_, ?_⟩
    · change t.kernel.rules.has lockKey = false
      rw [Bool.eq_false_iff, Ne, has_iff, not_not]
      rw [Host.locked, Bool.eq_false_iff, Ne, has_iff, not_not] at hlocked
      exact hw.lock.trans hlocked
    · exact hclaimed.trans hunclaimed
  | down =>
    have hparting : ((parting r chosen .down).exec s).2 =
        ((releaseLock r).exec (releaseRoute.exec { t with cancelled := true }).2).2 := by
      rw [← ht]
      simp only [parting, cancel, releaseEgress, exec_bind, exec_update,
        exec_pure]
    obtain ⟨routing, hroute, hunclaimed⟩ := exec_releaseRoute { t with cancelled := true }
    rw [hroute] at hparting hunclaimed
    obtain ⟨rules, hlock, hrest, hunlocked⟩ := exec_releaseLock (r := r)
      (s := { t with cancelled := true, routing }) fun hno => hw.lock.trans (hs.unlockable hno)
    rw [hparting, hlock]
    refine ⟨hlink, ?_, ?_, ?_, hw.mapping, hunlocked, hunclaimed⟩
    · exact (named_congr (by decide) hrest).trans hw.policy
    · exact (named_congr (by decide) hrest).trans hw.forward
    · rw [foreignPart_congr (.inr (.inr rfl)) hrest]
      exact hw.carried

end Parting

def Orderly (host : Foreign) (r : Setup) (w : World τ) : Prop :=
  match w.stage with
  | .staying => Sound host r w.scene ∧
      ∀ thread, ∀ p ∈ w.passes thread, Resume.Keeps (Sound host r) p
  | .going program => (∀ thread, w.passes thread = none) ∧ Gone host (program.exec w.scene).2
  | .left => (∀ thread, w.passes thread = none) ∧ Gone host w.scene

section Runs

variable {host : Foreign} {r : Setup} {w : World τ}

theorem keeps_update {τ' α : Type} [DecidableEq τ'] {P : α → Prop} {running : τ' → Option α}
    (h : ∀ thread, ∀ p ∈ running thread, P p) (thread : τ') {now : Option α}
    (hnow : ∀ p ∈ now, P p) :
    ∀ thread', ∀ p ∈ update running thread now thread', P p := by
  intro thread' p hp
  by_cases hsame : thread' = thread
  · subst hsame
    rw [Function.update_self] at hp
    exact hnow p hp
  · rw [Function.update_of_ne hsame] at hp
    exact h thread' p hp

theorem orderly_step (chosen : Int) (hw : Orderly host r w) (a : Move τ) (ha : Stopped w a) :
    Orderly host r (step r chosen w a) := by
  have hkept := hw
  unfold Orderly at hw
  cases a with
  | begin thread u =>
    have hstaying : w.stage = .staying := ha
    simp only [hstaying] at hw
    simp only [step]
    cases w.passes thread with
    | some p => exact hkept
    | none =>
      unfold Orderly
      simp only [hstaying]
      refine ⟨hw.1, keeps_update hw.2 thread fun p hp => ?_⟩
      cases hp
      exact keeps_pass chosen u
  | next thread =>
    simp only [step]
    cases hpass : w.passes thread with
    | none => exact hkept
    | some p =>
      -- A pass under way is one of a membership that stays.
      have hstaying : w.stage = .staying := by
        cases hstage : w.stage with
        | staying => rfl
        | going program | left =>
          rw [hstage] at hw
          cases (hw.1 thread).symm.trans hpass
      simp only [hstaying] at hw
      have hkeeps := hw.2 thread p hpass
      unfold Orderly
      cases p with
      | done a =>
        simp only [hstaying]
        exact ⟨hw.1, keeps_update hw.2 thread nofun⟩
      | act f next =>
        simp only [hstaying]
        refine ⟨hkeeps.1 _ hw.1, keeps_update hw.2 thread fun q hq => ?_⟩
        cases hq
        exact hkeeps.2 w.scene
  | part how =>
    simp only [step]
    cases hstage : w.stage with
    | staying =>
      rw [hstage] at hw
      exact ⟨ha.1, gone_parting chosen how hw.1 ha.2⟩
    | going program => exact hkept
    | left => exact hkept
  | proceed =>
    simp only [step]
    cases hstage : w.stage with
    | staying => exact hkept
    | going program =>
      rw [hstage] at hw
      cases program with
      | done a => exact hw
      | act f next => exact hw
    | left => exact hkept

end Runs

/-- In every run in which leaving begins with no pass under way and none begins after it, and a
revocation finds no claim and no lock, nothing of the membership is left once leaving has returned.
-/
theorem vanished_after_parting (host : Foreign) (hlock : host.rules.named lockKey = []) (r : Setup)
    (chosen : Int) (forwarding : Bool) (moves : List (Move τ))
    (stopped : Along (step r chosen) Stopped (World.start host forwarding) moves) :
    Vanished host (run (step r chosen) (World.start host forwarding) moves) := by
  have horderly := Base.run_inv_along (Orderly host r)
    (fun w a hw ha => orderly_step chosen hw a ha) (World.start host forwarding) moves ⟨sound_start hlock forwarding, nofun⟩ stopped
  intro hleft _
  unfold Orderly at horderly
  rw [hleft] at horderly
  exact horderly.2

section Laptop

open FullTunnel (portable throughExit)

instance decidableStaying : ∀ stage : Stage, Decidable (stage = .staying)
  | .staying => isTrue rfl
  | .going _ => isFalse nofun
  | .left => isFalse nofun

instance decidableLeft : ∀ stage : Stage, Decidable (stage = .left)
  | .staying => isFalse nofun
  | .going _ => isFalse nofun
  | .left => isTrue rfl

instance decidableGone (host : Foreign) (s : Scene) : Decidable (Gone host s) :=
  decidable_of_iff' _ (gone_iff host s)

instance decidableVanished [Fintype τ] (host : Foreign) (w : World τ) :
    Decidable (Vanished host w) := by
  unfold Vanished
  infer_instance

instance decidableStopped [Fintype τ] (w : World τ) : ∀ a : Move τ, Decidable (Stopped w a)
  | .begin _ _ => inferInstanceAs (Decidable (_ = _))
  | .next _ => inferInstanceAs (Decidable True)
  | .part _ => inferInstanceAs (Decidable (_ ∧ _))
  | .proceed => inferInstanceAs (Decidable True)

def untouched : Foreign where
  rules := []
  noPolicy := rfl
  noForward := rfl
  clear := nofun
  noJump := rfl

def policed : Update where
  input := throughExit .enforced
  filter := some ⟨true, [], []⟩

def afterMoves (moves : List (Move Unit)) : World Unit :=
  run (step portable 51820) (World.start untouched false) moves

def oneAfterTheOther : List (Move Unit) :=
  [.begin () policed] ++ List.replicate 60 (.next ()) ++ [.part .down] ++ List.replicate 40 .proceed

theorem vanished_laptop :
    Along (step portable 51820) Stopped (World.start untouched false) oneAfterTheOther ∧
      Vanished untouched (afterMoves oneAfterTheOther) := by
  refine (and_iff_left_of_imp fun hstopped => ?_).2 (by decide +kernel)
  exact vanished_after_parting untouched rfl portable 51820 false oneAfterTheOther hstopped

def overtaken (how : Parting) : List (Move Unit) :=
  [.begin () policed, .next (), .part how] ++ List.replicate 6 .proceed ++
    List.replicate 60 (.next ()) ++ List.replicate 20 .proceed

/-- Left while a pass was under way, the membership has its interface and its policy back, and when
it was revoked its claim and its lock as well. Revoked with no pass under way, it keeps the claim
and the lock it had. -/
theorem left_behind :
    (∀ how ∈ [Parting.revoke, .down], ¬Vanished untouched (afterMoves (overtaken how)) ∧
      (afterMoves (overtaken how)).scene.link ≠ none ∧
      (afterMoves (overtaken how)).scene.kernel.rules.named tableKey ≠ []) ∧
    (afterMoves (overtaken .revoke)).scene.egress.claimed = true ∧
    (afterMoves (overtaken .revoke)).scene.egress.locked = true ∧
    ¬Vanished untouched (afterMoves ([.begin () policed] ++ List.replicate 60 (.next ()) ++
      [.part .revoke] ++ List.replicate 40 .proceed)) := by
  decide +kernel

end Laptop

end Meshp.Tunnel.Leaving
