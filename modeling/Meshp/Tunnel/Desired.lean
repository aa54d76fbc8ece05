import Meshp.Base.Text
import Meshp.Routeprobe.Chooser
import Meshp.Wgplan.Valid

/-!
# The Interface a Membership Wants

A membership and the state it was sent become the description of an interface: its
own addresses, a peer for each peer, and the prefixes of its route groups, each
given to the peer that carries it.
-/

namespace Meshp.Tunnel

open Base (refuseIf refuseIf_bind_eq_ok bind_eq_ok)
open Netip (AddrPort Prefix parsePrefix parseAddr parseAddrPort)
open Routeprobe (Chooser Time)
open Wgplan (Interface Key claims Contested)
open Wgplan.Peer (publicKey)
open Wire (RouteGroupAssignment RouteCandidate)

structure Membership where
  interfaceName : String
  privateKey : String
  addressV4 : String := ""
  addressV6 : String := ""
  listenPort : Int := 0

/-- What of the state a membership was sent the interface is derived from: `Tunnel`, `Peers` and
`RouteGroups` of a `peerset.Set`. -/
structure Told where
  mtu : Nat := 0
  peers : List Wire.Peer
  routeGroups : List RouteGroupAssignment

/-- `Claims`: what each membership on the device last said it carries, by interface. -/
abbrev Claims := List (String × List Prefix)

def Claims.declare (c : Claims) (owner : String) (prefixes : List Prefix) : Claims :=
  let others := c.filter (·.1 ≠ owner)
  if prefixes = [] then others else (owner, prefixes) :: others

/-- `Contested`: the other memberships claiming exactly this prefix. -/
def Claims.contested (c : Claims) (owner : String) (p : Prefix) : List String :=
  ((c.filter fun o => o.1 ≠ owner && o.2.contains p).map Prod.fst).insertionSort (· ≤ ·)

/-- What the device has besides: its relay, its chooser, what its memberships claim, whether it can
translate addresses, and the time. -/
structure Site where
  relay : Option (String → String → Option AddrPort) := none
  chooser : Option Chooser := none
  claims : Option Claims := none
  canTranslate : Bool := false
  now : Time := 0

inductive GroupFault
  | unreadable (raw : String)
  | empty

/-- The loop of `groupPrefixes`: the prefixes so far, and `none` at the first default route. -/
def readPrefixes : List Prefix → List String → Except GroupFault (Option (List Prefix))
  | acc, [] => if acc = [] then .error .empty else .ok (some acc)
  | acc, raw :: raws =>
    match parsePrefix raw with
    | none => .error (.unreadable raw)
    | some p => if p.bits = 0 then .ok none else readPrefixes (acc ++ [p.masked]) raws

theorem readPrefixes_ok {acc : List Prefix} {raws : List String} {read : Option (List Prefix)}
    (h : readPrefixes acc raws = .ok read) :
    (read = none ∧ ∃ raw ∈ raws, (parsePrefix raw).any (·.bits = 0) = true) ∨
      ∃ ps, read = some ps ∧ ∀ p ∈ ps, p ∈ acc ∨
        ∃ raw ∈ raws, ∃ r, parsePrefix raw = some r ∧ r.bits ≠ 0 ∧ p = r.masked := by
  induction raws generalizing acc with
  | nil =>
    unfold readPrefixes at h
    split at h
    · cases h
    · cases h
      exact .inr ⟨acc, rfl, fun p hp => .inl hp⟩
  | cons raw raws ih =>
    unfold readPrefixes at h
    cases hparse : parsePrefix raw with
    | none =>
      rw [hparse] at h
      cases h
    | some r =>
      rw [hparse] at h
      by_cases hdefault : r.bits = 0
      · simp only [if_pos hdefault] at h
        cases h
        exact .inl ⟨rfl, raw, .head _, by simp [hparse, hdefault]⟩
      · simp only [if_neg hdefault] at h
        rcases ih h with ⟨hread, raw', hraw', hbits⟩ | ⟨ps, hread, hps⟩
        · exact .inl ⟨hread, raw', .tail _ hraw', hbits⟩
        · refine .inr ⟨ps, hread, fun q hq => ?_⟩
          rcases hps q hq with hacc | ⟨raw', hraw', hrest⟩
          · rcases List.mem_append.1 hacc with hacc | hacc
            · exact .inl hacc
            · exact .inr ⟨raw, .head _, r, hparse, hdefault, List.mem_singleton.1 hacc⟩
          · exact .inr ⟨raw', .tail _ hraw', hrest⟩

/-- `0.0.0.0/0` and `::/0`. -/
def defaultRoutes : List Prefix :=
  [.upTo (.v4 0) 0, .upTo (.v6 0) 0]

/-- `groupPrefixes`, with what a default route is carried as. -/
def groupPrefixes (a : RouteGroupAssignment) : Except GroupFault (List Prefix) :=
  (readPrefixes [] a.prefixes).map (·.getD defaultRoutes)

/-- `mappedPrefixes`: the ranges this device can use, the latest last. -/
def mappedPrefixes (canTranslate : Bool) (assignments : List RouteGroupAssignment) :
    List (Prefix × Prefix) :=
  if canTranslate then
    (assignments.flatMap RouteGroupAssignment.mappedPrefixes).filterMap fun m =>
      match parsePrefix m.real, parsePrefix m.mapped with
      | some real, some range =>
        if real.bits = range.bits ∧ real.addr.is4 = range.addr.is4 then
          some (real.masked, range.masked)
        else none
      | _, _ => none
  else []

/-- `Interface.Mapped`, read at a prefix. -/
def mappedTo (mapped : List (Prefix × Prefix)) (p : Prefix) : Option Prefix :=
  mapped.reverse.lookup p

/-- `routedAs`: what prefixes look like in the routing table. -/
def routedAs (mapped : List (Prefix × Prefix)) (ps : List Prefix) : List Prefix :=
  ps.map fun p => (mappedTo mapped p.masked).getD p

def declaredPrefixes (mapped : List (Prefix × Prefix)) (assignments : List RouteGroupAssignment) :
    List Prefix :=
  routedAs mapped (((assignments.flatMap RouteGroupAssignment.prefixes).filterMap parsePrefix).map
    Prefix.masked)

/-- `contestedPrefixes`: a default route is never one. -/
def contestedPrefixes (c : Option Claims) (owner : String) (ps : List Prefix) : List Prefix :=
  ps.filter fun p => p.bits ≠ 0 && c.any fun c => c.contested owner p ≠ []

/-- `chosenCandidate`: the chooser's answer, or the server's first preference without one. -/
def chosenCandidate (now : Time) (chooser : Option Chooser) (a : RouteGroupAssignment) :
    Option Chooser × Option RouteCandidate :=
  match chooser with
  | none => (none, a.candidates.head?)
  | some c =>
    let (t, best) := (c a.routeGroupId).current now a
    (some (Function.update c a.routeGroupId t), best)

def judge (site : Site) (owner : String) (mapped : List (Prefix × Prefix)) (keys : List Key)
    (chooser : Option Chooser) (a : RouteGroupAssignment) :
    Option Chooser × Option (Key × List Prefix) :=
  match groupPrefixes a with
  | .error _ => (chooser, none)
  | .ok prefixes =>
    match chosenCandidate site.now chooser a with
    | (chooser, none) => (chooser, none)
    | (chooser, some best) =>
      if contestedPrefixes site.claims owner (routedAs mapped prefixes) ≠ [] then (chooser, none)
      else if best.peerPublicKey ∉ keys then (chooser, none)
      else (chooser, some (best.peerPublicKey, prefixes))

def carry (key : Key) (prefixes : List Prefix) : List Wgplan.Peer → List Wgplan.Peer
  | [] => []
  | peer :: peers =>
    if peer.publicKey = key ∧ key ∉ peers.map publicKey then
      { peer with allowedIPs := peer.allowedIPs ++ prefixes } :: peers
    else peer :: carry key prefixes peers

/-- The loop of `applyRouteGroups`: the peers, and the names of the groups that were not honoured.
-/
def carryGroups (site : Site) (owner : String) (mapped : List (Prefix × Prefix)) :
    List Wgplan.Peer → Option Chooser → List RouteGroupAssignment →
      List Wgplan.Peer × List String
  | peers, _, [] => (peers, [])
  | peers, chooser, a :: rest =>
    match judge site owner mapped (peers.map publicKey) chooser a with
    | (chooser, none) =>
      let (peers, unhonoured) := carryGroups site owner mapped peers chooser rest
      (peers, a.name :: unhonoured)
    | (chooser, some (key, prefixes)) =>
      carryGroups site owner mapped (carry key prefixes peers) chooser rest

/-- `applyRouteGroups`: the interface, and the groups that were not honoured. -/
def applyRouteGroups (site : Site) (i : Interface) (assignments : List RouteGroupAssignment) :
    Interface × List String :=
  let mapped := mappedPrefixes site.canTranslate assignments
  let site := { site with
    claims := site.claims.map (·.declare i.name (declaredPrefixes mapped assignments)) }
  let (peers, unhonoured) := carryGroups site i.name mapped i.peers site.chooser assignments
  ({ i with peers, mapped := mappedTo mapped }, unhonoured)

def defaultMTU : Nat := 1420

def truncate (key : String) : String :=
  if key.length ≤ 12 then key else String.ofList (key.toList.take 12) ++ "…"

/-- `hostPrefix`: one address, alone or with its whole length. An IPv4-mapped address with a length
makes no valid prefix. -/
def hostPrefix (addr : String) : Except String Prefix :=
  if '/' ∈ addr.toList then
    match parsePrefix addr with
    | none => .error ""
    | some p =>
      if p.bits ≠ p.addr.bitLen then .error "is not a single host"
      else match Prefix.ofBits? p.addr.unmap p.addr.bitLen with
        | some host => .ok host
        | none => .error ""
  else
    match parseAddr addr with
    | none => .error ""
    | some a => .ok (.single a.unmap)

/-- `peerFrom`: a direct path wins, then a relay this device is attached to. -/
def peerFrom (relay : Option (String → String → Option AddrPort)) (p : Wire.Peer) :
    Except String Wgplan.Peer := do
  let allowedIPs ← p.allowedIps.mapM fun cidr =>
    match parsePrefix cidr with
    | some q => .ok q
    | none => .error ("allowed IP " ++ Text.quote cidr)
  let peer : Wgplan.Peer :=
    { publicKey := p.publicKey, allowedIPs, keepaliveSeconds := p.persistentKeepaliveSeconds }
  match p.endpoints with
  | first :: _ =>
    if (parseAddrPort first).isNone then .error ("endpoint " ++ Text.quote first)
    else pure { peer with endpoint := first }
  | [] =>
    if p.relayId = "" then pure peer
    else match relay.bind fun endpoint => endpoint p.publicKey p.relayId with
      | none => pure peer
      | some at' => pure { peer with endpoint := at'.text, relayed := true }

def undivided (relay : Option (String → String → Option AddrPort)) (m : Membership) (mtu : Nat)
    (peers : List Wire.Peer) : Except String Interface := do
  refuseIf (m.privateKey = "") "tunnel: this membership has no WireGuard private key"
  let addresses ← ([m.addressV4, m.addressV6].filter (· ≠ "")).mapM fun addr =>
    (hostPrefix addr).mapError fun why =>
      "tunnel: this device's address " ++ Text.quote addr ++ ": " ++ why
  refuseIf (addresses = []) "tunnel: this membership holds no addresses"
  let peers ← peers.mapM fun p =>
    (peerFrom relay p).mapError fun why => "tunnel: peer " ++ truncate p.publicKey ++ ": " ++ why
  pure
    { name := m.interfaceName, privateKey := m.privateKey, listenPort := m.listenPort
      mtu := if 0 < mtu then mtu else defaultMTU, addresses, peers }

/-- `Desired`: the interface, and the groups that were not honoured. -/
def desired (site : Site) (m : Membership) (told : Told) :
    Except String (Interface × List String) := do
  let i ← undivided site.relay m told.mtu told.peers
  pure (applyRouteGroups site i told.routeGroups)

def honoured (site : Site) (owner : String) (mapped : List (Prefix × Prefix)) (keys : List Key) :
    Option Chooser → List RouteGroupAssignment → List (Key × List Prefix)
  | _, [] => []
  | chooser, a :: rest =>
    match judge site owner mapped keys chooser a with
    | (chooser, none) => honoured site owner mapped keys chooser rest
    | (chooser, some carried) => carried :: honoured site owner mapped keys chooser rest

def carriedClaims (carried : List (Key × List Prefix)) : List (Prefix × Key) :=
  carried.flatMap fun c => c.2.map (·, c.1)

def carriedBy (site : Site) (i : Interface) (assignments : List RouteGroupAssignment) :
    List (Prefix × Key) :=
  let mapped := mappedPrefixes site.canTranslate assignments
  carriedClaims (honoured { site with
      claims := site.claims.map (·.declare i.name (declaredPrefixes mapped assignments)) }
    i.name mapped (i.peers.map publicKey) site.chooser assignments)

/-- Carried prefixes fit an interface: none is its own address, none is held or carried twice, and
none contests what another peer holds or carries. -/
structure Fits (i : Interface) (carried : List (Prefix × Key)) : Prop where
  foreign : ∀ c ∈ carried,
    ¬((∃ own ∈ i.addresses, own.addr = c.1.addr) ∧ c.1.bits = c.1.addr.bitLen)
  once : ((claims i.peers ++ carried).map Prod.fst).Nodup
  apart : (claims i.peers ++ carried).Pairwise fun a b => ¬Contested a b

section Carry

variable {key : Key} {prefixes : List Prefix}

theorem keys_carry (peers : List Wgplan.Peer) :
    (carry key prefixes peers).map publicKey = peers.map publicKey := by
  induction peers with
  | nil => rfl
  | cons peer peers ih =>
    unfold carry
    split
    · rfl
    · rw [List.map_cons, List.map_cons, ih]

theorem claims_carry {peers : List Wgplan.Peer} (h : key ∈ peers.map publicKey) :
    (claims (carry key prefixes peers)).Perm (claims peers ++ prefixes.map (·, key)) := by
  induction peers with
  | nil => cases h
  | cons peer peers ih =>
    unfold carry
    split
    · rename_i hlast
      rcases hlast with ⟨rfl, _⟩
      simp only [claims, List.flatMap_cons, List.map_append, List.append_assoc]
      exact (List.perm_append_comm).append_left _
    · rename_i hlast
      have hmem : key ∈ peers.map publicKey := by
        by_contra hnot
        refine hlast ⟨?_, hnot⟩
        exact ((List.mem_cons.1 h).resolve_right hnot).symm
      simp only [claims, List.flatMap_cons, List.append_assoc] at ih ⊢
      exact (ih hmem).append_left _

theorem mem_carry {peers : List Wgplan.Peer} {q : Wgplan.Peer} (h : q ∈ carry key prefixes peers) :
    ∃ p ∈ peers, q.publicKey = p.publicKey ∧ q.relayed = p.relayed ∧ q.endpoint = p.endpoint ∧
      (p.allowedIPs ≠ [] → q.allowedIPs ≠ []) := by
  induction peers with
  | nil => cases h
  | cons peer peers ih =>
    unfold carry at h
    split at h
    · rcases List.mem_cons.1 h with rfl | h
      · exact ⟨peer, .head _, rfl, rfl, rfl, fun hne happ =>
          hne (List.append_eq_nil_iff.1 happ).1⟩
      · exact ⟨q, .tail _ h, rfl, rfl, rfl, id⟩
    · rcases List.mem_cons.1 h with rfl | h
      · exact ⟨q, .head _, rfl, rfl, rfl, id⟩
      · obtain ⟨p, hp, hrest⟩ := ih h
        exact ⟨p, .tail _ hp, hrest⟩

end Carry

structure Grown (peers peers' : List Wgplan.Peer) (added : List (Prefix × Key)) : Prop where
  keys : peers'.map publicKey = peers.map publicKey
  claims : (claims peers').Perm (claims peers ++ added)
  each : ∀ q ∈ peers', ∃ p ∈ peers, q.publicKey = p.publicKey ∧ q.relayed = p.relayed ∧
    q.endpoint = p.endpoint ∧ (p.allowedIPs ≠ [] → q.allowedIPs ≠ [])

theorem grown_refl (peers : List Wgplan.Peer) : Grown peers peers [] where
  keys := rfl
  claims := by rw [List.append_nil]
  each := fun q hq => ⟨q, hq, rfl, rfl, rfl, id⟩

theorem grown_carry {key : Key} {prefixes : List Prefix} {peers peers' : List Wgplan.Peer}
    {added : List (Prefix × Key)} (hkey : key ∈ peers.map publicKey)
    (h : Grown (carry key prefixes peers) peers' added) :
    Grown peers peers' (prefixes.map (·, key) ++ added) where
  keys := h.keys.trans (keys_carry peers)
  claims := by
    rw [← List.append_assoc]
    exact h.claims.trans ((claims_carry hkey).append_right added)
  each := by
    intro q hq
    obtain ⟨p, hp, hkey', hrelayed, hendpoint, hallowed⟩ := h.each q hq
    obtain ⟨o, ho, hkey'', hrelayed', hendpoint', hallowed'⟩ := mem_carry hp
    exact ⟨o, ho, hkey'.trans hkey'', hrelayed.trans hrelayed', hendpoint.trans hendpoint',
      fun hne => hallowed (hallowed' hne)⟩

theorem judge_some {site : Site} {owner : String} {mapped : List (Prefix × Prefix)}
    {keys : List Key} {chooser chooser' : Option Chooser} {a : RouteGroupAssignment}
    {carried : Key × List Prefix}
    (h : judge site owner mapped keys chooser a = (chooser', some carried)) :
    groupPrefixes a = .ok carried.2 ∧ carried.1 ∈ keys := by
  unfold judge at h
  split at h
  · cases h
  · rename_i hprefixes
    split at h
    · cases h
    · split at h
      · cases h
      · split at h
        · cases h
        · rename_i hmem
          cases h
          exact ⟨hprefixes, not_not.1 hmem⟩

theorem grown_carryGroups (site : Site) (owner : String) (mapped : List (Prefix × Prefix))
    (peers : List Wgplan.Peer) (chooser : Option Chooser) (as : List RouteGroupAssignment) :
    Grown peers (carryGroups site owner mapped peers chooser as).1
      (carriedClaims (honoured site owner mapped (peers.map publicKey) chooser as)) := by
  induction as generalizing peers chooser with
  | nil => exact grown_refl peers
  | cons a rest ih =>
    simp only [carryGroups, honoured]
    -- The keys a later group is judged by are those of the peers before this one.
    rcases hjudge : judge site owner mapped (peers.map publicKey) chooser a with
      ⟨chooser', _ | ⟨key, prefixes⟩⟩
    · exact ih peers chooser'
    · have hrest := ih (carry key prefixes peers) chooser'
      rw [keys_carry] at hrest
      exact grown_carry (judge_some hjudge).2 hrest

theorem peers_applyRouteGroups (site : Site) (i : Interface) (as : List RouteGroupAssignment) :
    Grown i.peers (applyRouteGroups site i as).1.peers (carriedBy site i as) :=
  grown_carryGroups _ i.name _ i.peers site.chooser as

theorem foreign_iff {addresses : List Prefix} {peers : List Wgplan.Peer} :
    (∀ peer ∈ peers, ∀ p ∈ peer.allowedIPs,
      ¬((∃ own ∈ addresses, own.addr = p.addr) ∧ p.bits = p.addr.bitLen)) ↔
    ∀ c ∈ claims peers,
      ¬((∃ own ∈ addresses, own.addr = c.1.addr) ∧ c.1.bits = c.1.addr.bitLen) := by
  simp only [claims, List.mem_flatMap, List.mem_map]
  constructor
  · rintro h c ⟨peer, hpeer, p, hp, rfl⟩
    exact h peer hpeer p hp
  · intro h peer hpeer p hp
    exact h (p, peer.publicKey) ⟨peer, hpeer, p, hp, rfl⟩

theorem valid_applyRouteGroups_iff {i : Interface} (hi : i.Valid) (site : Site)
    (as : List RouteGroupAssignment) :
    (applyRouteGroups site i as).1.Valid ↔ Fits i (carriedBy site i as) := by
  have grown := peers_applyRouteGroups site i as
  have hfst : ((claims (applyRouteGroups site i as).1.peers).map Prod.fst).Nodup ↔
      ((claims i.peers ++ carriedBy site i as).map Prod.fst).Nodup :=
    (grown.claims.map Prod.fst).nodup_iff
  have hpair : (claims (applyRouteGroups site i as).1.peers).Pairwise (fun a b => ¬Contested a b) ↔
      (claims i.peers ++ carriedBy site i as).Pairwise fun a b => ¬Contested a b :=
    grown.claims.pairwise_iff fun h hba => h (Wgplan.contested_comm hba)
  constructor
  · intro h
    refine ⟨fun c hc => ?_, hfst.1 h.once, hpair.1 h.apart⟩
    have hforeign := foreign_iff.1 fun peer hpeer => (h.sound peer hpeer).foreign
    exact hforeign c (grown.claims.symm.subset (List.mem_append_right _ hc))
  · intro fits
    have hforeign : ∀ c ∈ claims (applyRouteGroups site i as).1.peers,
        ¬((∃ own ∈ i.addresses, own.addr = c.1.addr) ∧ c.1.bits = c.1.addr.bitLen) := by
      intro c hc
      rcases List.mem_append.1 (grown.claims.subset hc) with hc | hc
      · exact foreign_iff.1 (fun peer hpeer => (hi.sound peer hpeer).foreign) c hc
      · exact fits.foreign c hc
    refine { hi with
      sound := fun q hq => ?_, keys := ?_, once := hfst.2 fits.once, apart := hpair.2 fits.apart }
    · -- A peer is sound but for its prefixes because it was so before the groups.
      obtain ⟨p, hp, hkey, hrelayed, hendpoint, hallowed⟩ := grown.each q hq
      have hp := hi.sound p hp
      exact
        { keyed := by rw [hkey]; exact hp.keyed
          relayed := by rw [hrelayed, hendpoint]; exact hp.relayed
          allowed := hallowed hp.allowed
          foreign := foreign_iff.2 hforeign q hq }
    · rw [grown.keys]
      exact hi.keys

theorem desired_eq (site : Site) (m : Membership) (told : Told) :
    desired site m told = (undivided site.relay m told.mtu told.peers).map
      fun i => applyRouteGroups site i told.routeGroups := by
  unfold desired
  cases undivided site.relay m told.mtu told.peers <;> rfl

theorem name_of_desired {site : Site} {m : Membership} {told : Told} {i : Interface}
    {unhonoured : List String} (h : desired site m told = .ok (i, unhonoured)) :
    i.name = m.interfaceName := by
  rw [desired_eq] at h
  obtain ⟨i₀, hundivided, hi⟩ := Base.map_eq_ok.1 h
  have hname : i.name = i₀.name :=
    (congrArg (fun result : Interface × List String => result.1.name) hi).symm
  obtain ⟨_, hundivided⟩ := refuseIf_bind_eq_ok.1 hundivided
  obtain ⟨addresses, _, hundivided⟩ := bind_eq_ok.1 hundivided
  obtain ⟨_, hundivided⟩ := refuseIf_bind_eq_ok.1 hundivided
  obtain ⟨peers, _, hundivided⟩ := bind_eq_ok.1 hundivided
  cases hundivided
  exact hname

/-- Groups that are added to a state whose interface is valid leave it valid just when what they
carry fits it. -/
theorem desired_valid_iff (site : Site) (m : Membership) (told : Told) (i : Interface)
    (unhonoured : List String)
    (bare : desired site m { told with routeGroups := [] } = .ok (i, unhonoured))
    (valid : i.validate = .ok ()) :
    ∃ j left, desired site m told = .ok (j, left) ∧
      (j.validate = .ok () ↔ Fits i (carriedBy site i told.routeGroups)) := by
  rw [desired_eq] at bare
  obtain ⟨i₀, hundivided, hbare⟩ := Base.map_eq_ok.1 bare
  -- Without groups only the table of mapped prefixes is set, which is not checked.
  have hi : i = { i₀ with mapped := mappedTo (mappedPrefixes site.canTranslate []) } :=
    (congrArg Prod.fst hbare).symm
  subst hi
  have hvalid := (Wgplan.validate_eq_ok_iff _).1 valid
  have hi₀ : i₀.Valid :=
    { hvalid with sound := fun peer hpeer => { hvalid.sound peer hpeer with } }
  have hfits : Fits i₀ (carriedBy site i₀ told.routeGroups) ↔
      Fits { i₀ with mapped := mappedTo (mappedPrefixes site.canTranslate []) }
        (carriedBy site i₀ told.routeGroups) :=
    ⟨fun h => ⟨h.foreign, h.once, h.apart⟩, fun h => ⟨h.foreign, h.once, h.apart⟩⟩
  refine ⟨(applyRouteGroups site i₀ told.routeGroups).1,
    (applyRouteGroups site i₀ told.routeGroups).2, ?_, ?_⟩
  · rw [desired_eq, hundivided]
    rfl
  · rw [Wgplan.validate_eq_ok_iff, valid_applyRouteGroups_iff hi₀]
    exact hfits

def laptop : Membership :=
  { interfaceName := "meshp0", privateKey := "k", addressV4 := "100.90.0.1" }

def hostPeer (key addr : String) : Wire.Peer where
  publicKey := key
  allowedIps := [addr]
  persistentKeepaliveSeconds := 25
  deviceName := key
  dnsLabel := key
  tags := []

def carriedByFirst (prefixes : List String) : Told where
  peers := [hostPeer "A" "100.90.0.2/32", hostPeer "B" "100.90.0.3/32"]
  routeGroups := [
    { routeGroupId := "office", name := "office", mode := .failover
      localFailover := ⟨false, 0, 0, 0, [], 0, 0⟩, prefixes, mappedPrefixes := []
      candidates := [⟨"A", "A", 0, 1, .healthy, "", "", "A"⟩] }]

theorem desired_valid_office : ∃ i j left,
    i.validate = .ok () ∧ desired {} laptop (carriedByFirst ["192.168.1.0/24"]) = .ok (j, left) ∧
      (j.validate = .ok () ↔
        Fits i (carriedBy {} i (carriedByFirst ["192.168.1.0/24"]).routeGroups)) := by
  obtain ⟨⟨i, unhonoured⟩, hbare, hvalid⟩ : ∃ r,
      desired {} laptop { carriedByFirst ["192.168.1.0/24"] with routeGroups := [] } = .ok r ∧
        r.1.validate = .ok () := by decide +kernel
  obtain ⟨j, left, hdesired, hiff⟩ := desired_valid_iff {} laptop
    (carriedByFirst ["192.168.1.0/24"]) i unhonoured hbare hvalid
  exact ⟨i, j, left, hvalid, hdesired, hiff⟩

/-- A group of the whole pool, carried by one peer, takes in the address of the other: it counts as
honoured and refuses the interface. -/
theorem pool_group_refuses_interface :
    (desired {} laptop { carriedByFirst ["100.90.0.0/24"] with routeGroups := [] }).toOption.any
        (fun r => r.1.validate = .ok ()) = true ∧
      (desired {} laptop (carriedByFirst ["100.90.0.0/24"])).toOption.any
        (fun r => r.2 = [] ∧ r.1.validate ≠ .ok ()) = true := by
  decide +kernel

end Meshp.Tunnel
