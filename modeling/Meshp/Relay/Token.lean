import Meshp.Relay.Frame

/-!
# Relay Tokens

The capability a relay checks before it forwards. A token names one WireGuard key
and one network, and it expires; the control plane signs it and the relay, which
holds a public key and nothing else, can say no but never yes on its own. The
signature scheme is a parameter.
-/

namespace Meshp.Relay

open Base (refuseIf)

abbrev Time := Int

/-- One second of a `Time`. -/
def second : Time := 10 ^ 9

/-- `Version`. -/
def tokenVersion : UInt8 := 1

def signedLen : Nat := 1 + keyLen + 16 + 8

/-- `Size`: what is signed, and the signature. -/
def tokenSize : Nat := signedLen + 64

structure Grant where
  key : Key
  networkId : Bytes
  expiresAt : Time

inductive TokenFault
  | publicKey (length : Nat)
  | malformed (length : Nat)
  | version (found : UInt8)
  | signature
  | expired (at' now : Time)

def hexBytes (bs : Bytes) : List Char :=
  bs.flatMap fun b => [Nat.digitChar (b.toNat / 16), Nat.digitChar (b.toNat % 16)]

/-- `Network`: the network id as a UUID. -/
def Grant.network (g : Grant) : String :=
  let b := g.networkId
  String.ofList (List.intercalate ['-'] [hexBytes (b.take 4), hexBytes ((b.drop 4).take 2),
    hexBytes ((b.drop 6).take 2), hexBytes ((b.drop 8).take 2), hexBytes (b.drop 10)])

def ofBigEndian (bs : Bytes) : Nat :=
  bs.foldl (fun n b => n * 256 + b.toNat) 0

def unixToInternal : BitVec 64 := 62135596800

/-- `time.Unix`, of a word that was read as unsigned. -/
def unixTime (seconds : Nat) : Time :=
  (BitVec.ofNat 64 seconds + unixToInternal).toInt * second

def field (token : Bytes) (offset length : Nat) : Bytes :=
  (token.drop offset).take length

def expiryOf (token : Bytes) : Time :=
  unixTime (ofBigEndian (field token (1 + keyLen + 16) 8))

def toBigEndian (n : Nat) : Bytes :=
  (List.range 8).map fun i => UInt8.ofNat (n / 256 ^ (7 - i))

section Verify

-- Whether a signature over a message verifies against a public key.
variable (check : Bytes → Bytes → Bytes → Bool)

/-- `Verify`. The signature is checked before the expiry, so that a forgery is never told it
expired. -/
def verify (public' token : Bytes) (now : Time) : Except TokenFault Grant := do
  refuseIf (public'.length ≠ 32) (.publicKey public'.length)
  if h : token.length = tokenSize then
    refuseIf (token.headD 0 ≠ tokenVersion) (.version (token.headD 0))
    refuseIf (check public' (token.take signedLen) (token.drop signedLen) = false) .signature
    refuseIf (expiryOf token < now) (.expired (expiryOf token) now)
    pure
      { key := ⟨field token 1 keyLen, by
          simp only [field, List.length_take, List.length_drop, h]
          decide⟩
        networkId := field token (1 + keyLen) 16
        expiresAt := expiryOf token }
  else .error (.malformed token.length)

end Verify

end Meshp.Relay
