import Meshp.Relay.Server

/-!
# What a Relay Does over a Run

Anyone on the internet may send a relay anything at any time, and what it forwards
is decided by sessions other datagrams opened. So what can be promised about one
forwarded packet is a fact about the run that led up to it.
-/

namespace Meshp.Relay

open Base (run run_inv)
open Netip (AddrPort)

variable {α : Type} (c : Config α)

inductive Event
  | datagram (order : Order) (now : Time) (via : Nat) (src : AddrPort) (bytes : Bytes)
  | expire (now : Time)

structure Accepted where
  key : Key
  network : String
  addr : AddrPort
  via : Nat
  token : Bytes

def accepted? (auth : α) : Event → Option Accepted
  | .expire _ => none
  | .datagram _ now via src bytes =>
    match decode bytes with
    | .error _ => none
    | .ok f =>
      if f.type ≠ .hello then none
      else match (c.authenticate auth now f.payload).1 with
        | none => none
        | some (key, network) =>
          if key ≠ f.key then none
          else some { key, network, addr := src, via, token := f.payload }

structure Logged (α : Type) where
  server : Server α
  hellos : List Accepted

def respond (s : Server α) : Event → Server α × List Out
  | .datagram order now via src bytes => handle c s order now via src bytes
  | .expire now => (expire c s now, [])

def step (l : Logged α) (e : Event) : Logged α where
  server := (respond c l.server e).1
  hellos := (accepted? c l.server.auth e).toList ++ l.hellos

def start (auth : α) : Logged α :=
  { server := fresh auth, hellos := [] }

def latest (hellos : List Accepted) (key : Key) : Option Accepted :=
  hellos.find? (·.key = key)

def Session.Of (s : Session) (h : Accepted) : Prop :=
  s.key = h.key ∧ s.network = h.network ∧ s.addr = h.addr ∧ s.via = h.via

def Known (l : Logged α) : Prop :=
  ∀ s ∈ l.server.byKey.sessions, ∃ h, latest l.hellos s.key = some h ∧ s.Of h

def Kept (t t' : Table) : Prop :=
  ∀ x ∈ t'.sessions, ∃ y ∈ t.sessions, x.key = y.key ∧ x.network = y.network ∧
    x.addr = y.addr ∧ x.via = y.via

theorem kept_refl (t : Table) : Kept t t :=
  fun x hx => ⟨x, hx, rfl, rfl, rfl, rfl⟩

theorem kept_touch (t : Table) (key : Key) (now : Time) : Kept t (t.touch key now) :=
  fun _ hx => Table.mem_touch hx

theorem kept_since (t : Table) (cutoff : Time) : Kept t (t.since cutoff) :=
  fun x hx => ⟨x, Table.mem_since hx, rfl, rfl, rfl, rfl⟩

theorem kept_forward (s : Server α) (order : Order) (now : Time) (src : AddrPort) (f : Frame) :
    Kept s.byKey (forward c s order now src f).1.byKey := by
  simp only [forward]
  -- Whatever becomes of the packet, at most its sender was heard from.
  split
  · exact kept_refl _
  · split
    · exact kept_touch _ _ _
    · split <;> exact kept_touch _ _ _

theorem kept_ping (s : Server α) (order : Order) (now : Time) (via : Nat) (src : AddrPort)
    (f : Frame) : Kept s.byKey (ping c s order now via src f).1.byKey := by
  unfold ping
  split
  · exact kept_refl _
  · exact kept_touch _ _ _

def Accepted.session (a : Accepted) (now : Time) : Session :=
  { key := a.key, network := a.network, addr := a.addr, via := a.via, lastSeen := now }

theorem respond_table (s : Server α) (e : Event) :
    (accepted? c s.auth e = none ∧ Kept s.byKey (respond c s e).1.byKey) ∨
      ∃ a now, accepted? c s.auth e = some a ∧
        (respond c s e).1.byKey = s.byKey.put (a.session now) := by
  cases e with
  | expire now => exact .inl ⟨rfl, kept_since _ _⟩
  | datagram order now via src bytes =>
    simp only [accepted?, respond, handle]
    cases hdec : decode bytes with
    | error why => exact .inl ⟨rfl, kept_refl _⟩
    | ok f =>
      simp only
      by_cases hhello : f.type = .hello
      · simp only [hhello, ne_eq, not_true, if_false, hello]
        rcases hans : (c.authenticate s.auth now f.payload).1 with _ | ⟨key, network⟩
        · exact .inl ⟨rfl, kept_refl _⟩
        · by_cases hkey : key = f.key
          · simp only [hkey, not_true, if_false]
            exact .inr ⟨_, now, rfl, rfl⟩
          · simp only [hkey, not_false_iff, if_true]
            exact .inl ⟨trivial, kept_refl _⟩
      · refine .inl ⟨if_pos hhello, ?_⟩
        cases htype : f.type with
        | hello => exact absurd htype hhello
        | send => exact kept_forward c s order now src f
        | ping => exact kept_ping c s order now via src f
        | _ => exact kept_refl _

theorem known_step {l : Logged α} (h : Known l) (e : Event) : Known (step c l e) := by
  intro x hx
  rcases respond_table c l.server e with ⟨hnone, hkept⟩ | ⟨a, now, hsome, htable⟩
  · obtain ⟨y, hy, hkey, hnet, haddr, hvia⟩ := hkept x hx
    obtain ⟨a, ha, hof⟩ := h y hy
    refine ⟨a, ?_, ?_⟩
    · simpa [step, hnone, hkey] using ha
    · exact ⟨hkey.trans hof.1, hnet.trans hof.2.1, haddr.trans hof.2.2.1, hvia.trans hof.2.2.2⟩
  · -- The key that said hello has a new latest hello; every other has its old one.
    have hx' : x ∈ (l.server.byKey.put (a.session now)).sessions := htable ▸ hx
    rcases Table.mem_put.1 hx' with ⟨hy, hne⟩ | rfl
    · obtain ⟨b, hb, hof⟩ := h x hy
      refine ⟨b, ?_, hof⟩
      have hne' : ¬a.key = x.key := fun h => hne h.symm
      simpa [step, hsome, latest, List.find?_cons, hne'] using hb
    · exact ⟨a, by simp [step, hsome, latest, Accepted.session], rfl, rfl, rfl, rfl⟩

theorem known_run (auth : α) (es : List Event) : Known (run (step c) (start auth) es) :=
  run_inv Known (fun _ e h => known_step c h e) (start auth) es
    nofun

def issuerAuth (check : Bytes → Bytes → Bytes → Bool) (public' : Bytes) :
    Unit → Time → Bytes → Option (Key × String) × Unit :=
  fun u now token =>
    ((verify check public' token now).toOption.map fun g => (g.key, g.network), u)

def issued (check : Bytes → Bytes → Bytes → Bool) (public' : Bytes) (selfKey : Key) (idle : Time) :
    Config Unit :=
  { authenticate := issuerAuth check public', selfKey, idle }

def keyOf (b : UInt8) : Key :=
  ⟨List.replicate 32 b, by simp [keyLen]⟩

def sampleRelay : Config Unit :=
  issued (fun _ _ signature => signature = List.replicate 64 0) (List.replicate 32 9) (keyOf 0)
    (5 * 60 * second)

def inOrder : Order :=
  ⟨id, fun _ => List.Perm.refl _⟩

def place (port : UInt16) : AddrPort :=
  ⟨.v4 0xc0000201, port⟩

def greet (now : Time) (port : UInt16) (key : UInt8) (expiry : Nat) : Event :=
  .datagram inOrder now 0 (place port)
    (FrameType.hello.byte :: (keyOf key).bytes ++
      (tokenVersion :: (keyOf key).bytes ++ List.replicate 16 7 ++ toBigEndian expiry ++
        List.replicate 64 0))

def packet (now : Time) (port : UInt16) (key : UInt8) : Event :=
  .datagram inOrder now 0 (place port) (FrameType.send.byte :: (keyOf key).bytes ++ [1])

def twoAgents : List Event :=
  [greet (unixTime 0) 1001 1 100, greet (unixTime 0) 1002 2 100]

def delivered : Out :=
  { via := 0, dest := place 1002, frame := { type := .recv, key := keyOf 1, payload := [1] } }

variable {f : Frame} {now : Time} {out : Out} {s : Server α} {src : AddrPort}

theorem forward_recv {order : Order} (h : out ∈ (forward c s order now src f).2) :
    ∃ sender ∈ s.byKey.sessions, ∃ dest ∈ s.byKey.sessions, sender.addr = src ∧
      dest.key = f.key ∧ dest.network = sender.network ∧ out.frame.key = sender.key ∧
      out.dest = dest.addr ∧ out.via = dest.via := by
  unfold forward at h
  cases hsender : s.byKey.senderAt order c.idle now src with
  | none => simp [hsender] at h
  | some sender =>
    cases hdest : (s.byKey.touch sender.key now).find f.key with
    | none => simp [hsender, hdest] at h
    | some dest =>
      simp only [hsender, hdest] at h
      split at h
      · cases h
      · rename_i hnet
        obtain rfl := List.mem_singleton.1 h
        obtain ⟨hs, haddr, -⟩ := Table.senderAt_spec hsender
        obtain ⟨hd, hkey⟩ := Table.find_mem hdest
        -- The destination was read after the sender was heard from, which
        -- moved nothing.
        obtain ⟨dest', hd', hkey', hnet', haddr', hvia'⟩ := Table.mem_touch hd
        rw [not_not] at hnet
        exact ⟨sender, hs, dest', hd', haddr, hkey' ▸ hkey, hnet' ▸ hnet, rfl, haddr', hvia'⟩

theorem hello_not_recv {via : Nat} (h : out ∈ (hello c s now via src f).2) :
    out.frame.type ≠ .recv := by
  have hrefuse : ∀ arrived, out ∈ refuse c via src arrived → out.frame.type ≠ .recv := by
    intro arrived hout
    simp only [refuse] at hout
    split at hout
    · cases hout
    · obtain rfl := List.mem_singleton.1 hout
      simp
  unfold hello at h
  simp only at h
  split at h
  · exact hrefuse _ h
  · split at h
    · exact hrefuse _ h
    · obtain rfl := List.mem_singleton.1 h
      simp

theorem ping_not_recv {order : Order} {via : Nat} (h : out ∈ (ping c s order now via src f).2) :
    out.frame.type ≠ .recv := by
  unfold ping at h
  split at h
  · cases h
  · obtain rfl := List.mem_singleton.1 h
    simp

theorem respond_recv {e : Event} (h : out ∈ (respond c s e).2) (hrecv : out.frame.type = .recv) :
    ∃ order now via src bytes f, e = .datagram order now via src bytes ∧ decode bytes = .ok f ∧
      f.type = .send ∧ out ∈ (forward c s order now src f).2 := by
  cases e with
  | expire now => cases h
  | datagram order now via src bytes =>
    unfold respond handle at h
    cases hdec : decode bytes with
    | error why => simp [hdec] at h
    | ok f =>
      simp only [hdec] at h
      cases htype : f.type with
      | send => exact ⟨order, now, via, src, bytes, f, rfl, hdec, htype, by simpa [htype] using h⟩
      | hello =>
        simp only [htype] at h
        exact absurd hrecv (hello_not_recv c h)
      | ping =>
        simp only [htype] at h
        exact absurd hrecv (ping_not_recv c h)
      | _ => simp [htype] at h

/-- A relay forwards a packet only between two keys that each had a hello accepted, for one network,
and to where the receiving key's latest accepted hello came from, by the socket it came in on. -/
theorem recv_between_greeted_keys (auth : α) (es : List Event) (e : Event) :
    ∀ out ∈ (respond c (run (step c) (start auth) es).server e).2, out.frame.type = .recv →
      ∃ s d, latest (run (step c) (start auth) es).hellos out.frame.key = some s ∧
        latest (run (step c) (start auth) es).hellos d.key = some d ∧
        s.network = d.network ∧ out.dest = d.addr ∧ out.via = d.via := by
  intro out hout hrecv
  obtain ⟨order, now, via, src, bytes, f, -, -, -, hout⟩ := respond_recv c hout hrecv
  obtain ⟨sender, hs, dest, hd, -, -, hnet, hkey, haddr, hvia⟩ := forward_recv c hout
  obtain ⟨s, hs, hsof⟩ := known_run c auth es sender hs
  obtain ⟨d, hd, hdof⟩ := known_run c auth es dest hd
  refine ⟨s, d, by rw [hkey, hs], by rw [← hdof.1, hd], ?_, haddr.trans hdof.2.2.1,
    hvia.trans hdof.2.2.2⟩
  rw [← hsof.2.1, ← hdof.2.1, hnet]

theorem recv_between_two_agents :
    delivered ∈ (respond sampleRelay (run (step sampleRelay) (start ()) twoAgents).server
        (packet (unixTime 10) 1001 2)).2 ∧
      ∃ s d, latest (run (step sampleRelay) (start ()) twoAgents).hellos (keyOf 1) = some s ∧
        latest (run (step sampleRelay) (start ()) twoAgents).hellos d.key = some d ∧
        s.network = d.network ∧ place 1002 = d.addr ∧ 0 = d.via := by
  refine (and_iff_left_of_imp fun hout => ?_).2 (by decide +kernel)
  exact recv_between_greeted_keys sampleRelay () twoAgents (packet (unixTime 10) 1001 2)
    delivered hout rfl

def Unexpired (l : Logged α) : Event → Prop
  | .expire _ => True
  | .datagram _ now _ src bytes =>
    ∀ f ∈ (decode bytes).toOption, f.type = .send →
      ∀ s ∈ l.server.byKey.sessions, s.addr = src ∨ s.key = f.key →
        ∃ h ∈ latest l.hellos s.key, now ≤ expiryOf h.token

instance (l : Logged α) : (e : Event) → Decidable (Unexpired l e)
  | .expire _ => inferInstanceAs (Decidable True)
  | .datagram _ _ _ _ bytes => inferInstanceAs (Decidable (∀ f ∈ (decode bytes).toOption, _))

/-- While every session a frame could use is of a token still good, whatever is forwarded is between
keys that presented such tokens. -/
theorem recv_within_expiry (check : Bytes → Bytes → Bytes → Bool) (public' : Bytes)
    (selfKey : Key) (idle : Time) (es : List Event) (order : Order) (now : Time) (via : Nat)
    (src : AddrPort) (bytes : Bytes)
    (h : Unexpired (run (step (issued check public' selfKey idle)) (start ()) es)
      (.datagram order now via src bytes)) :
    ∀ out ∈ (respond (issued check public' selfKey idle)
        (run (step (issued check public' selfKey idle)) (start ()) es).server
        (.datagram order now via src bytes)).2, out.frame.type = .recv →
      ∃ f s d, decode bytes = .ok f ∧
        s ∈ (run (step (issued check public' selfKey idle)) (start ()) es).hellos ∧
        d ∈ (run (step (issued check public' selfKey idle)) (start ()) es).hellos ∧
        s.key = out.frame.key ∧ d.key = f.key ∧ d.addr = out.dest ∧
        now ≤ expiryOf s.token ∧ now ≤ expiryOf d.token := by
  intro out hout hrecv
  obtain ⟨_, _, _, _, _, f, heq, hdec, hsend, hout⟩ := respond_recv _ hout hrecv
  cases heq
  have hf : f ∈ (decode bytes).toOption := by
    rw [hdec]
    rfl
  obtain ⟨sender, hs, dest, hd, hsrc, hdkey, -, hkey, haddr, -⟩ := forward_recv _ hout
  obtain ⟨s, hslatest, hsgood⟩ := h f hf hsend sender hs (.inl hsrc)
  obtain ⟨d, hdlatest, hdgood⟩ := h f hf hsend dest hd (.inr hdkey)
  obtain ⟨d', hd', hdof⟩ := known_run _ () es dest hd
  rw [hdlatest] at hd'
  cases hd'
  obtain ⟨hsmem, hskey⟩ := Base.of_find? hslatest
  exact ⟨f, s, d, hdec, hsmem, List.mem_of_find?_eq_some hdlatest,
    hskey.trans hkey.symm, hdof.1.symm.trans hdkey, hdof.2.2.1.symm.trans haddr.symm, hsgood,
    hdgood⟩

theorem recv_within_expiry_two_agents :
    delivered ∈ (respond sampleRelay (run (step sampleRelay) (start ()) twoAgents).server
        (packet (unixTime 10) 1001 2)).2 ∧
      ∃ s ∈ (run (step sampleRelay) (start ()) twoAgents).hellos,
        s.key = keyOf 1 ∧ unixTime 10 ≤ expiryOf s.token := by
  refine (and_iff_left_of_imp fun hout => ?_).2 (by decide +kernel)
  have hgood : Unexpired (run (step sampleRelay) (start ()) twoAgents)
      (packet (unixTime 10) 1001 2) := by
    decide +kernel
  obtain ⟨_, s, _, -, hs, -, hkey, -, -, hexpiry, -⟩ :=
    recv_within_expiry _ _ _ _ twoAgents _ _ _ _ _ hgood delivered hout rfl
  exact ⟨s, hs, hkey, hexpiry⟩

/-- Both tokens expired a hundred seconds ago, and the packet is forwarded. -/
theorem recv_after_expiry :
    delivered ∈ (respond sampleRelay (run (step sampleRelay) (start ()) twoAgents).server
        (packet (unixTime 200) 1001 2)).2 ∧
      ∀ a ∈ (run (step sampleRelay) (start ()) twoAgents).hellos,
        expiryOf a.token < unixTime 200 := by
  decide +kernel

def attributed (t : Table) (order : Order) (idle now : Time) (src : AddrPort) : Option Key :=
  (t.senderAt order idle now src).map Session.key

def firstTo (t : Table) (s : Session) (hs : s ∈ t.sessions) : Order where
  visit l := if l = t.sessions then s :: l.erase s else l
  perm l := by
    by_cases hl : l = t.sessions
    · rw [if_pos hl]
      exact (List.perm_cons_erase (hl ▸ hs)).symm
    · rw [if_neg hl]

theorem attributed_firstTo {t : Table} {s : Session} (hs : s ∈ t.sessions) (idle now : Time)
    (key : Key) (h : attributed t (firstTo t s hs) idle now s.addr = some key) : key = s.key := by
  have hfind : ((firstTo t s hs).visit t.sessions).find? (·.addr = s.addr) = some s := by
    simp [firstTo]
  simp only [attributed, Table.senderAt, hfind] at h
  split at h
  · cases h
  · cases h
    rfl

/-- The key an address is taken for is that of the latest hello from there, in whatever order the
table is walked, exactly when no other key has a session at the address. -/
theorem attributed_iff (auth : α) (es : List Event) (now : Time) (src : AddrPort)
    (hlive : ∃ s ∈ (run (step c) (start auth) es).server.byKey.sessions,
      s.addr = src ∧ now - s.lastSeen ≤ c.idle) :
    ∃ h, (run (step c) (start auth) es).hellos.find? (·.addr = src) = some h ∧
      ((∀ order, attributed (run (step c) (start auth) es).server.byKey order c.idle now src =
          some h.key) ↔
        ∀ s ∈ (run (step c) (start auth) es).server.byKey.sessions, s.addr = src →
          s.key = h.key) := by
  obtain ⟨s, hs, hsrc, hidle⟩ := hlive
  obtain ⟨a, ha, hof⟩ := known_run c auth es s hs
  have hsome : ((run (step c) (start auth) es).hellos.find? (·.addr = src)).isSome = true := by
    rw [List.find?_isSome]
    exact ⟨a, List.mem_of_find?_eq_some ha, by simp [← hof.2.2.1, hsrc]⟩
  obtain ⟨h, hh⟩ := Option.isSome_iff_exists.1 hsome
  refine ⟨h, hh, fun hall x hx hxsrc => ?_, fun hone order => ?_⟩
  · have hfirst := hall (firstTo _ x hx)
    rw [← hxsrc] at hfirst
    exact (attributed_firstTo hx c.idle now h.key hfirst).symm
  · -- Keys are unique, so the one session at the address is the live one.
    generalize (run (step c) (start auth) es).server.byKey = t at hs hone
    have hwalk : ∃ x, (order.visit t.sessions).find? (·.addr = src) = some x := by
      rw [← Option.isSome_iff_exists, List.find?_isSome]
      exact ⟨s, (order.perm _).mem_iff.2 hs, by simp [hsrc]⟩
    obtain ⟨x, hx⟩ := hwalk
    obtain ⟨hxfound, hxsrc⟩ := Base.of_find? hx
    have hxmem := (order.perm _).mem_iff.1 hxfound
    have hxs : x = s := List.inj_on_of_nodup_map t.nodup hxmem hs
      ((hone x hxmem hxsrc).trans (hone s hs hsrc).symm)
    simp only [attributed, Table.senderAt, hx, hxs, if_neg (Int.not_lt.2 hidle), Option.map_some,
      hone s hs hsrc]

theorem attributed_to_only_agent :
    ∃ h, (run (step sampleRelay) (start ()) twoAgents).hellos.find? (·.addr = place 1001) =
        some h ∧
      ∀ order, attributed (run (step sampleRelay) (start ()) twoAgents).server.byKey order
        sampleRelay.idle (unixTime 10) (place 1001) = some h.key := by
  obtain ⟨h, hfind, hiff⟩ := attributed_iff sampleRelay () twoAgents (unixTime 10) (place 1001)
    (by decide +kernel)
  have honly : ∀ x ∈ (run (step sampleRelay) (start ()) twoAgents).hellos.find?
      (·.addr = place 1001), ∀ s ∈ (run (step sampleRelay) (start ()) twoAgents).server.byKey.sessions,
      s.addr = place 1001 → s.key = x.key := by
    decide +kernel
  exact ⟨h, hfind, hiff.2 (honly h hfind)⟩

/-- Two keys behind one address, both live. The second said hello last, and in the order the
sessions were opened a packet from there is taken to be from the first. -/
theorem attributed_to_earlier_agent :
    ∃ h, (run (step sampleRelay) (start ())
          [greet (unixTime 0) 1001 1 100, greet (unixTime 5) 1001 2 100]).hellos.find?
          (·.addr = place 1001) = some h ∧ h.key = keyOf 2 ∧
      attributed (run (step sampleRelay) (start ())
          [greet (unixTime 0) 1001 1 100, greet (unixTime 5) 1001 2 100]).server.byKey inOrder
        sampleRelay.idle (unixTime 10) (place 1001) = some (keyOf 1) := by
  have hlast : ((run (step sampleRelay) (start ())
      [greet (unixTime 0) 1001 1 100, greet (unixTime 5) 1001 2 100]).hellos.find?
      (·.addr = place 1001)).any (·.key = keyOf 2) = true := by
    decide +kernel
  obtain ⟨h, hh, hkey⟩ := (Option.any_eq_true _ _).1 hlast
  exact ⟨h, hh, of_decide_eq_true hkey, by decide +kernel⟩

end Meshp.Relay
