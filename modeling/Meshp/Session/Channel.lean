import Meshp.Session.Reads

/-!
# The Control Channel of One Membership

A server that pushes state and an agent that folds it in, over a connection that
may drop, while the network goes on changing. Messages of one connection arrive in
order, or not at all once it is gone.
-/

namespace Meshp.Session

open Base (Statements)
open Store

/-- `StateAck`. -/
structure Ack where
  appliedVersion : Nat
  error : String := ""
  unappliedComponents : List String := []

structure Link where
  /-- `AppliedVersion`: what the session takes the agent to hold. -/
  applied : Nat
  /-- Whether the server still pushes on it. -/
  serving : Bool := true
  /-- The state being built, if one is. -/
  building : Option (Statements Mesh (Except Failure Wire.StateDelta)) := none
  /-- Sent, and not received yet. -/
  down : List Wire.StateDelta := []
  up : List Ack := []

/-- The mesh, the agent of one of its memberships, and the connection between them, if there is one.
-/
structure Channel where
  mesh : Mesh
  agent : Peerset.Set := {}
  /-- The version to go back to, while the applier is at work. -/
  applying : Option Nat := none
  link : Option Link := none

inductive Move
  /-- A mutation commits. -/
  | commit (s : Stamped)
  /-- The agent connects. -/
  | connect
  | disconnect
  /-- The agent starts over, with nothing in memory. -/
  | restart
  /-- `pushState` begins. -/
  | notify (walk : Walk)
  /-- The build makes its next read. -/
  | read
  /-- The build is finished and sent. -/
  | push
  /-- The agent receives a delta. -/
  | deliver
  /-- The applier returns. -/
  | applied (unapplied : List String) (err : Option String)
  /-- The server receives an acknowledgement. -/
  | ack

def Channel.connect (ch : Channel) (id : Id) : Channel :=
  match sessionRow ch.mesh id with
  | .error _ => { ch with link := none }
  | .ok row =>
    if row.membership.state = .active then { ch with link := some { applied := ch.agent.version } }
    else { ch with link := none }

def refusal (fromVersion held : Nat) : Ack :=
  { appliedVersion := held
    error := "delta from version " ++ toString fromVersion ++ " cannot be applied to version " ++
      toString held
    unappliedComponents := ["peers"] }

/-- `handleState`, up to the call of the applier. -/
def handleState (ch : Channel) (l : Link) (d : Wire.StateDelta) : Channel :=
  if d.fromVersion ≠ 0 ∧ d.fromVersion ≠ ch.agent.version then
    { ch with link := some { l with up := l.up ++ [refusal d.fromVersion ch.agent.version] } }
  else
    { ch with
      agent := ch.agent.apply d
      applying := some ch.agent.version
      link := some l }

/-- `handleState`, from the return of the applier on. -/
def applierReturned (ch : Channel) (previous : Nat) (unapplied : List String)
    (err : Option String) : Channel :=
  let agent := match err with
    | none => ch.agent
    | some _ => { ch.agent with version := previous }
  let ack : Ack := ⟨agent.version, err.getD "", unapplied⟩
  { ch with
    agent
    applying := none
    link := ch.link.map fun l => { l with up := l.up ++ [ack] } }

/-- `handleAck`: only a change is worth a write. -/
def handleAck (l : Link) (ack : Ack) : Link :=
  if ack.appliedVersion = l.applied ∧ ack.error = "" then l
  else { l with applied := ack.appliedVersion }

def Link.notify (b : Builder) (walk : Walk) (id : Id) (l : Link) : Link :=
  match l.serving, l.building with
  | true, none => { l with building := some (b.forReads walk id l.applied) }
  | _, _ => l

def Link.read (m : Mesh) (l : Link) : Link :=
  match l.building with
  | some (.read next) => { l with building := some (next m) }
  | _ => l

def Link.push (l : Link) : Link :=
  match l.building with
  | some (.done (.ok d)) => { l with building := none, down := l.down ++ [d] }
  | some (.done (.error _)) => { l with building := none, serving := false }
  | _ => l

def move (c : Enroll.Checks) (b : Builder) (id : Id) (ch : Channel) : Move → Channel
  | .commit s => { ch with mesh := apply c ch.mesh s }
  | .connect => if ch.applying = none then ch.connect id else ch
  | .disconnect => { ch with link := none }
  | .restart => { mesh := ch.mesh }
  | .notify walk => { ch with link := ch.link.map (Link.notify b walk id) }
  | .read => { ch with link := ch.link.map (Link.read ch.mesh) }
  | .push => { ch with link := ch.link.map Link.push }
  | .deliver =>
    match ch.applying, ch.link with
    | none, some l =>
      match l.down with
      | [] => ch
      | d :: down => handleState ch { l with down } d
    | _, _ => ch
  | .applied unapplied err =>
    match ch.applying with
    | none => ch
    | some previous => applierReturned ch previous unapplied err
  | .ack =>
    match ch.link with
    | none => ch
    | some l =>
      match l.up with
      | [] => ch
      | ack :: up => { ch with link := some (handleAck { l with up } ack) }

end Meshp.Session
