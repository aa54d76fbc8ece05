import Meshp.Base.Rows
import Meshp.Netip.Text
import Meshp.Relay.Token

/-!
# A Relay

The forwarding decisions of a relay, one datagram at a time. A datagram comes in
and what to send comes out; the socket is somebody else's.
-/

namespace Meshp.Relay

open Netip (AddrPort)

def ascii (s : String) : Bytes :=
  s.toList.map fun c => UInt8.ofNat c.toNat

structure Session where
  key : Key
  network : String
  addr : AddrPort
  /-- The socket the agent said hello on, and the only one it takes replies from. -/
  via : Nat
  lastSeen : Time
  deriving DecidableEq

/-- `byKey`: the sessions, at most one for each key. -/
structure Table where
  sessions : List Session
  nodup : (sessions.map Session.key).Nodup

/-- An order in which a walk over the table visits its sessions: any that visits each of them once.
-/
structure Order where
  visit : List Session → List Session
  perm : ∀ l, (visit l).Perm l

namespace Table

def empty : Table :=
  ⟨[], List.nodup_nil⟩

/-- `byKey[key]`. -/
def find (t : Table) (key : Key) : Option Session :=
  t.sessions.find? (·.key = key)

/-- `byKey[s.Key] = s`. -/
def put (t : Table) (s : Session) : Table where
  sessions := t.sessions.filter (·.key ≠ s.key) ++ [s]
  nodup := by
    have hkept : ((t.sessions.filter (·.key ≠ s.key)).map Session.key).Nodup :=
      (List.filter_sublist.map Session.key).nodup t.nodup
    rw [List.map_append, List.map_singleton]
    exact hkept.append (List.nodup_singleton _) (by simp)

def touch (t : Table) (key : Key) (now : Time) : Table where
  sessions := t.sessions.map fun s => if s.key = key then { s with lastSeen := now } else s
  nodup := by
    have hkeys : (t.sessions.map fun s => if s.key = key then { s with lastSeen := now } else s).map
        Session.key = t.sessions.map Session.key := by
      rw [List.map_map]
      refine List.map_congr_left fun s _ => ?_
      rw [Function.comp_apply]
      split <;> rfl
    rw [hkeys]
    exact t.nodup

def since (t : Table) (cutoff : Time) : Table where
  sessions := t.sessions.filter fun s => ¬s.lastSeen < cutoff
  nodup := (List.filter_sublist.map Session.key).nodup t.nodup

/-- `senderAtLocked`: the first session at an address that a walk comes to, if it is live. The walk
ends there either way. -/
def senderAt (t : Table) (order : Order) (idle : Time) (now : Time) (src : AddrPort) :
    Option Session :=
  match (order.visit t.sessions).find? (·.addr = src) with
  | none => none
  | some s => if idle < now - s.lastSeen then none else some s

variable {s : Session} {t : Table}

theorem mem_put {s' : Session} :
    s' ∈ (t.put s).sessions ↔ (s' ∈ t.sessions ∧ s'.key ≠ s.key) ∨ s' = s := by
  simp [put]

theorem mem_touch {key : Key} {now : Time} {s' : Session} (h : s' ∈ (t.touch key now).sessions) :
    ∃ s ∈ t.sessions, s'.key = s.key ∧ s'.network = s.network ∧ s'.addr = s.addr ∧
      s'.via = s.via := by
  obtain ⟨s, hs, rfl⟩ := List.mem_map.1 h
  refine ⟨s, hs, ?_⟩
  split <;> exact ⟨rfl, rfl, rfl, rfl⟩

theorem mem_since {cutoff : Time} (h : s ∈ (t.since cutoff).sessions) : s ∈ t.sessions :=
  List.mem_of_mem_filter h

theorem find_mem {key : Key} (h : t.find key = some s) : s ∈ t.sessions ∧ s.key = key :=
  Base.of_find? h

theorem senderAt_spec {order : Order} {idle now : Time} {src : AddrPort}
    (h : t.senderAt order idle now src = some s) :
    s ∈ t.sessions ∧ s.addr = src ∧ now - s.lastSeen ≤ idle := by
  unfold senderAt at h
  cases hfind : (order.visit t.sessions).find? (·.addr = src) with
  | none =>
    rw [hfind] at h
    cases h
  | some s' =>
    simp only [hfind] at h
    split at h
    · cases h
    · rename_i hlive
      cases h
      obtain ⟨hmem, haddr⟩ := Base.of_find? hfind
      exact ⟨(order.perm _).mem_iff.1 hmem, haddr, Int.not_lt.1 hlive⟩

end Table

structure Stats where
  helloAccepted : Nat := 0
  helloRefused : Nat := 0
  forwarded : Nat := 0
  droppedNoSession : Nat := 0
  droppedNoPeer : Nat := 0
  droppedOtherNet : Nat := 0
  droppedUndecodable : Nat := 0
  expired : Nat := 0

structure Out where
  via : Nat
  dest : AddrPort
  frame : Frame
  deriving DecidableEq

/-- What a relay is made with. An authenticator says which key and network a token grants, from a
state of its own. -/
structure Config (α : Type) where
  authenticate : α → Time → Bytes → Option (Key × String) × α
  selfKey : Key
  idle : Time

structure Server (α : Type) where
  auth : α
  byKey : Table
  stats : Stats

variable {α : Type} (c : Config α)

def fresh (auth : α) : Server α :=
  { auth, byKey := .empty, stats := {} }

/-- `refuse`. Nothing larger than what arrived is sent to a sender that proved nothing. -/
def refuse (via : Nat) (dest : AddrPort) (arrived : Nat) : List Out :=
  let frame : Frame := { type := .refused, key := c.selfKey, payload := ascii "refused" }
  if arrived < headerLen + frame.payload.length then [] else [{ via, dest, frame }]

def hello (s : Server α) (now : Time) (via : Nat) (src : AddrPort) (f : Frame) :
    Server α × List Out :=
  let arrived := headerLen + f.payload.length
  let (answer, auth) := c.authenticate s.auth now f.payload
  match answer with
  | none =>
    ({ s with auth, stats := { s.stats with helloRefused := s.stats.helloRefused + 1 } },
      refuse c via src arrived)
  | some (key, network) =>
    -- The token names the key, so only its holder can move it.
    if key ≠ f.key then
      ({ s with auth, stats := { s.stats with helloRefused := s.stats.helloRefused + 1 } },
        refuse c via src arrived)
    else
      ({ auth,
         byKey := s.byKey.put { key, network, addr := src, via, lastSeen := now },
         stats := { s.stats with helloAccepted := s.stats.helloAccepted + 1 } },
        [{ via, dest := src,
           frame := { type := .welcome, key := c.selfKey,
                      payload := ascii (AddrPort.text ⟨src.addr.unmap, src.port⟩) } }])

def forward (s : Server α) (order : Order) (now : Time) (src : AddrPort) (f : Frame) :
    Server α × List Out :=
  match s.byKey.senderAt order c.idle now src with
  | none =>
    ({ s with stats := { s.stats with droppedNoSession := s.stats.droppedNoSession + 1 } }, [])
  | some sender =>
    let byKey := s.byKey.touch sender.key now
    match byKey.find f.key with
    | none =>
      ({ s with byKey, stats := { s.stats with droppedNoPeer := s.stats.droppedNoPeer + 1 } },
        [])
    | some dest =>
      -- The one policy a relay enforces.
      if dest.network ≠ sender.network then
        ({ s with byKey,
                  stats := { s.stats with droppedOtherNet := s.stats.droppedOtherNet + 1 } },
          [])
      else
        ({ s with byKey, stats := { s.stats with forwarded := s.stats.forwarded + 1 } },
          [{ via := dest.via, dest := dest.addr,
             frame := { type := .recv, key := sender.key, payload := f.payload } }])

def ping (s : Server α) (order : Order) (now : Time) (via : Nat) (src : AddrPort) (f : Frame) :
    Server α × List Out :=
  match s.byKey.senderAt order c.idle now src with
  | none =>
    ({ s with stats := { s.stats with droppedNoSession := s.stats.droppedNoSession + 1 } }, [])
  | some sender =>
    ({ s with byKey := s.byKey.touch sender.key now },
      [{ via, dest := src,
         frame := { type := .pong, key := c.selfKey, payload := f.payload } }])

def handle (s : Server α) (order : Order) (now : Time) (via : Nat) (src : AddrPort)
    (datagram : Bytes) : Server α × List Out :=
  match decode datagram with
  | .error _ =>
    ({ s with stats := { s.stats with droppedUndecodable := s.stats.droppedUndecodable + 1 } },
      [])
  | .ok f =>
    match f.type with
    | .hello => hello c s now via src f
    | .send => forward c s order now src f
    | .ping => ping c s order now via src f
    -- What a relay emits it does not accept.
    | _ => (s, [])

def expire (s : Server α) (now : Time) : Server α :=
  let byKey := s.byKey.since (now - c.idle)
  { s with byKey,
           stats := { s.stats with
             expired := s.stats.expired + (s.byKey.sessions.length - byKey.sessions.length) } }

end Meshp.Relay
