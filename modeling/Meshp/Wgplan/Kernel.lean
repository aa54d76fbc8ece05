import Meshp.Base.Rows
import Meshp.Wgplan.Plan

/-!
# A Kernel with One Interface

What the operations of a plan do. WireGuard keeps a table of peers by public key
and a prefix belongs to one of them: giving it to a peer takes it from whoever had
it. Writing a peer replaces its allowed IPs and leaves an endpoint alone that the
write does not name. Prefixes are kept with their host bits cleared, for peers and
for routes alike.
-/

namespace Meshp.Wgplan

open Base (run)
open Netip (Prefix)

structure KernelPeer where
  publicKey : Key
  allowedIPs : List Prefix := []
  endpoint : String := ""
  presharedKey : Key := ""
  keepaliveSeconds : Int := 0
  handshakeAge : Option Int := none

namespace KernelPeer

/-- `peerFromDevice`: a peer as it is reported. -/
def reported (p : KernelPeer) : Peer :=
  { publicKey := p.publicKey
    allowedIPs := p.allowedIPs
    endpoint := p.endpoint
    presharedKey := p.presharedKey
    keepaliveSeconds := p.keepaliveSeconds
    hasHandshake := p.handshakeAge.isSome
    handshakeAge := p.handshakeAge.getD 0 }

def without (taken : List Prefix) (p : KernelPeer) : KernelPeer :=
  { p with allowedIPs := p.allowedIPs.filter (· ∉ taken) }

def configured (old : Option KernelPeer) (p : Peer) : KernelPeer :=
  { publicKey := p.publicKey
    allowedIPs := p.allowedIPs.map Prefix.masked
    endpoint := if p.endpoint = "" then (old.map endpoint).getD "" else p.endpoint
    presharedKey := p.presharedKey
    keepaliveSeconds := p.keepaliveSeconds
    handshakeAge := old.bind handshakeAge }

theorem without_eq_self {taken : List Prefix} {p : KernelPeer} (h : ∀ x ∈ p.allowedIPs, x ∉ taken) :
    p.without taken = p := by
  unfold without
  rw [List.filter_eq_self.2 fun x hx => by simpa using h x hx]

theorem without_nil : without [] = id := by
  funext p
  exact without_eq_self fun _ _ => List.not_mem_nil

theorem without_without (s t : List Prefix) (p : KernelPeer) :
    (p.without s).without t = p.without (s ++ t) := by
  unfold without
  simp only [List.filter_filter, List.mem_append, not_or, Bool.decide_and, Bool.and_comm]

end KernelPeer

structure Link where
  up : Bool := false
  privateKey : Key := ""
  listenPort : Int := 0
  mtu : Int := 1420
  addresses : List Prefix := []
  peers : List KernelPeer := []
  routes : List Prefix := []
  keys : (peers.map KernelPeer.publicKey).Nodup := by simp
  networks : ∀ r ∈ routes, r.masked = r := by simp

/-- `Observe`: what is reported of the interface, and nothing where there is none. -/
def observe : Option Link → Observed
  | none => {}
  | some l =>
    { exists' := true
      up := l.up
      privateKey := l.privateKey
      listenPort := l.listenPort
      mtu := l.mtu
      addresses := l.addresses
      peers := l.peers.map KernelPeer.reported
      routes := l.routes }

namespace Link

def peer? (l : Link) (key : Key) : Option KernelPeer :=
  l.peers.find? (·.publicKey = key)

def others (l : Link) (key : Key) (taken : List Prefix) : List KernelPeer :=
  (l.peers.filter (·.publicKey ≠ key)).map (KernelPeer.without taken)

theorem map_others (l : Link) (key : Key) (taken : List Prefix) :
    (l.others key taken).map KernelPeer.publicKey =
      (l.peers.filter (·.publicKey ≠ key)).map KernelPeer.publicKey := by
  unfold others
  rw [List.map_map]
  rfl

theorem ne_of_mem_others {l : Link} {key : Key} {taken : List Prefix} {q : KernelPeer}
    (hq : q ∈ l.others key taken) : q.publicKey ≠ key := by
  have hkey := List.mem_map_of_mem (f := KernelPeer.publicKey) hq
  rw [map_others] at hkey
  rcases List.mem_map.1 hkey with ⟨q', hq', hqq⟩
  have hne : q'.publicKey ≠ key := by simpa using (List.mem_filter.1 hq').2
  rwa [hqq] at hne

theorem nodup_filter (l : Link) (f : KernelPeer → Bool) :
    ((l.peers.filter f).map KernelPeer.publicKey).Nodup :=
  l.keys.sublist (List.filter_sublist.map _)

def setPeer (l : Link) (p : Peer) : Link :=
  { l with
    peers := l.others p.publicKey (p.allowedIPs.map Prefix.masked) ++
      [KernelPeer.configured (l.peer? p.publicKey) p]
    keys := by
      have hothers : ((l.others p.publicKey (p.allowedIPs.map Prefix.masked)).map
          KernelPeer.publicKey).Nodup := by
        rw [map_others]
        exact l.nodup_filter _
      exact Base.nodup_map_concat hothers fun q hq => ne_of_mem_others hq }

def removePeer (l : Link) (key : Key) : Link :=
  { l with
    peers := l.peers.filter (·.publicKey ≠ key)
    keys := l.nodup_filter _ }

def setDevice (l : Link) (d : Device) : Link :=
  { l with
    privateKey := d.privateKey
    listenPort := if d.listenPort = 0 then l.listenPort else d.listenPort
    mtu := if 0 < d.mtu then d.mtu else l.mtu }

def addRoute (l : Link) (p : Prefix) : Link :=
  { l with
    routes := l.routes.filter (· ≠ p.masked) ++ [p.masked]
    networks := by
      intro r hr
      rcases List.mem_append.1 hr with hr | hr
      · exact l.networks r (List.mem_filter.1 hr).1
      · rw [List.mem_singleton.1 hr, Prefix.masked_masked] }

def removeRoute (l : Link) (p : Prefix) : Link :=
  { l with
    routes := l.routes.filter (· ≠ p.masked)
    networks := fun r hr => l.networks r (List.mem_filter.1 hr).1 }

def step (chosen : Int) (l : Link) : Op → Link
  | .setDevice d => l.setDevice d
  | .removePeer key => l.removePeer key
  | .setPeer p => l.setPeer p
  | .removeAddress p => { l with addresses := l.addresses.filter (· ≠ p) }
  | .addAddress p => { l with addresses := l.addresses.filter (· ≠ p) ++ [p] }
  | .removeRoute p => l.removeRoute p
  | .addRoute p => l.addRoute p
  | .bringUp => { l with up := true, listenPort := if l.listenPort = 0 then chosen else l.listenPort }
  | .createDevice => l
  | .destroyDevice => l

end Link

def execute (chosen : Int) : Option Link → Op → Option Link
  | none, .createDevice => some {}
  | none, _ => none
  | some _, .destroyDevice => none
  | some l, op => some (l.step chosen op)

theorem execute_some (chosen : Int) (l : Link) {op : Op} (h : op ≠ .destroyDevice) :
    execute chosen (some l) op = some (l.step chosen op) := by
  cases op with
  | destroyDevice => exact absurd rfl h
  | _ => rfl

theorem run_execute (chosen : Int) (l : Link) {ops : List Op} (h : .destroyDevice ∉ ops) :
    run (execute chosen) (some l) ops = some (run (Link.step chosen) l ops) := by
  induction ops generalizing l with
  | nil => rfl
  | cons op ops ih =>
    rw [List.mem_cons, not_or] at h
    rw [Base.run_cons, Base.run_cons, execute_some chosen l (Ne.symm h.1), ih _ h.2]

namespace Link

theorem find?_others (l : Link) {key j : Key} (taken : List Prefix) (hj : j ≠ key) :
    (l.others key taken).find? (·.publicKey = j) = (l.peer? j).map (KernelPeer.without taken) := by
  unfold others peer?
  rw [List.find?_map]
  have hcomp : ((fun q : KernelPeer => decide (q.publicKey = j)) ∘ KernelPeer.without taken) =
      fun q => decide (q.publicKey = j) := rfl
  rw [hcomp, Base.find?_filter_eq]
  intro q _ hq
  rw [decide_eq_true_eq] at hq ⊢
  rw [hq]
  exact hj

theorem peer?_setPeer_ne (l : Link) (p : Peer) {j : Key} (hj : j ≠ p.publicKey) :
    (l.setPeer p).peer? j =
      (l.peer? j).map (KernelPeer.without (p.allowedIPs.map Prefix.masked)) := by
  have hnew : ¬p.publicKey = j := fun h => hj h.symm
  rw [← l.find?_others _ hj]
  simp only [peer?, setPeer, List.find?_append, List.find?_cons, KernelPeer.configured, hnew,
    decide_false, List.find?_nil, Option.or_none]

theorem peer?_setPeer_self (l : Link) (p : Peer) :
    (l.setPeer p).peer? p.publicKey =
      some (KernelPeer.configured (l.peer? p.publicKey) p) := by
  have hgone : (l.others p.publicKey (p.allowedIPs.map Prefix.masked)).find?
      (·.publicKey = p.publicKey) = none := by
    rw [List.find?_eq_none]
    intro q hq
    simpa using ne_of_mem_others hq
  simp only [peer?] at hgone ⊢
  simp only [setPeer, List.find?_append, hgone, Option.none_or, peer?]
  simp [KernelPeer.configured]

theorem peer?_removePeer (l : Link) (key j : Key) :
    (l.removePeer key).peer? j = if j = key then none else l.peer? j := by
  unfold peer? removePeer
  by_cases hj : j = key
  · rw [if_pos hj, List.find?_eq_none]
    intro q hq
    have hne := (List.mem_filter.1 hq).2
    rw [hj]
    simpa using hne
  · rw [if_neg hj, Base.find?_filter_eq]
    intro q _ hq
    rw [decide_eq_true_eq] at hq ⊢
    rw [hq]
    exact hj

end Link

end Meshp.Wgplan
