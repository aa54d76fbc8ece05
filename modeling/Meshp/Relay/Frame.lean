import Meshp.Base.Run

/-!
# Relay Frames

The framing between an agent and a relay. A frame is one datagram: a type byte, a
key and whatever follows. There is no length, because the datagram has one.
-/

namespace Meshp.Relay

open Base (refuseIf)

abbrev Bytes := List UInt8

def keyLen : Nat := 32

/-- `HeaderLen`: one type byte and one key. -/
def headerLen : Nat := 1 + keyLen

/-- `MaxPayload`: a conventional path, less an IPv6 header, a UDP header and a frame's own. -/
def maxPayload : Nat := 1500 - 40 - 8 - headerLen

structure Key where
  bytes : Bytes
  length : bytes.length = keyLen
  deriving DecidableEq

inductive FrameType
  | hello
  | welcome
  | refused
  | send
  | recv
  | ping
  | pong
  deriving DecidableEq

def FrameType.byte : FrameType → UInt8
  | hello => 1
  | welcome => 2
  | refused => 3
  | send => 4
  | recv => 5
  | ping => 6
  | pong => 7

def FrameType.ofByte (b : UInt8) : Option FrameType :=
  [hello, welcome, refused, send, recv, ping, pong].find? (·.byte = b)

structure Frame where
  type : FrameType
  key : Key
  payload : Bytes
  deriving DecidableEq

inductive FrameFault
  | short (length : Nat)
  | unknownType (byte : UInt8)
  | tooLarge (length : Nat)
  | emptyPayload (type : FrameType)

def FrameType.needsPayload : FrameType → Bool
  | hello => true
  | send => true
  | recv => true
  | _ => false

/-- `Validate`, for a frame whose type is one. -/
def Frame.validate (f : Frame) : Except FrameFault Unit := do
  refuseIf (maxPayload < f.payload.length) (.tooLarge f.payload.length)
  refuseIf (f.type.needsPayload = true ∧ f.payload = []) (.emptyPayload f.type)

def decode (datagram : Bytes) : Except FrameFault Frame :=
  if h : datagram.length < headerLen then .error (.short datagram.length)
  else
    let key : Key := ⟨(datagram.drop 1).take keyLen, by
      simp only [headerLen, keyLen] at h ⊢
      simp only [List.length_take, List.length_drop]
      omega⟩
    let byte := datagram.headD 0
    match FrameType.ofByte byte with
    | none => .error (.unknownType byte)
    | some type =>
      let f : Frame := { type, key, payload := datagram.drop headerLen }
      (f.validate).map fun _ => f

end Meshp.Relay
