import Mathlib

/-!
# WireGuard Keys as Text

A WireGuard key is thirty-two bytes, written in base64. A device sends its key
as text; what is stored is the key written back out, so two spellings of one
key are one row. This is `encoding/base64`'s `StdEncoding` in both directions,
over lists of bytes and characters: reading skips line breaks and does not
insist that the bits it throws away are zero.
-/

namespace Meshp.Keys

def alphabet : List Char :=
  let count (first : Char) (n : Nat) := (List.range n).map fun i => Char.ofNat (first.toNat + i)
  count 'A' 26 ++ count 'a' 26 ++ count '0' 10 ++ ['+', '/']

def char64 (n : Nat) : Char :=
  alphabet.getD (n % 64) 'A'

def value64 (c : Char) : Option Nat :=
  alphabet.findIdx? (· = c)

/-- `StdEncoding.EncodeToString`. -/
def encode : List UInt8 → List Char
  | [] => []
  | [a] =>
    let n := a.toNat * 2 ^ 4
    [char64 (n / 2 ^ 6), char64 n, '=', '=']
  | [a, b] =>
    let n := (a.toNat * 2 ^ 8 + b.toNat) * 2 ^ 2
    [char64 (n / 2 ^ 12), char64 (n / 2 ^ 6), char64 n, '=']
  | a :: b :: c :: rest =>
    let n := (a.toNat * 2 ^ 8 + b.toNat) * 2 ^ 8 + c.toNat
    char64 (n / 2 ^ 18) :: char64 (n / 2 ^ 12) :: char64 (n / 2 ^ 6) :: char64 n :: encode rest

def decodeQuads : List Char → Option (List UInt8)
  | [] => some []
  | [a, b, '=', '='] => do
    let n := (← value64 a) * 2 ^ 6 + (← value64 b)
    pure [UInt8.ofNat (n / 2 ^ 4)]
  | [a, b, c, '='] => do
    let n := ((← value64 a) * 2 ^ 6 + (← value64 b)) * 2 ^ 6 + (← value64 c)
    pure [UInt8.ofNat (n / 2 ^ 10), UInt8.ofNat (n / 2 ^ 2)]
  | a :: b :: c :: d :: rest => do
    let n := (((← value64 a) * 2 ^ 6 + (← value64 b)) * 2 ^ 6 + (← value64 c)) * 2 ^ 6 +
      (← value64 d)
    let bytes ← decodeQuads rest
    pure (UInt8.ofNat (n / 2 ^ 16) :: UInt8.ofNat (n / 2 ^ 8) :: UInt8.ofNat n :: bytes)
  | _ => none

/-- `StdEncoding.DecodeString`. -/
def decode (s : String) : Option (List UInt8) :=
  decodeQuads (s.toList.filter fun c => c ≠ '\n' && c ≠ '\r')

/-- `ParseWireGuardKey`: thirty-two bytes of base64. -/
def parseWireGuardKey (s : String) : Except String (List UInt8) :=
  match decode s with
  | none => .error "keys: WireGuard key is not valid base64"
  | some raw =>
    if raw.length ≠ 32 then
      .error ("keys: WireGuard key is " ++ toString raw.length ++ " bytes, want 32")
    else .ok raw

def isZero (key : List UInt8) : Bool :=
  key.all (· = 0)

/-- A key as `String` writes it. -/
def keyText (key : List UInt8) : String :=
  String.ofList (encode key)

theorem encode_ne_nil (bytes : List UInt8) (h : bytes ≠ []) : encode bytes ≠ [] := by
  match bytes with
  | [] => exact absurd rfl h
  | [_] => exact List.cons_ne_nil _ _
  | [_, _] => exact List.cons_ne_nil _ _
  | _ :: _ :: _ :: _ => exact List.cons_ne_nil _ _

theorem keyText_ne_empty {s : String} {key : List UInt8} (h : parseWireGuardKey s = .ok key) :
    keyText key ≠ "" := by
  unfold parseWireGuardKey at h
  split at h
  · cases h
  split at h
  · cases h
  rename_i raw _ hlen
  cases h
  have hne : key ≠ [] := by
    intro hnil
    rw [hnil] at hlen
    exact hlen (by decide)
  intro hempty
  have hlist := congrArg String.toList hempty
  rw [keyText, String.toList_ofList] at hlist
  exact encode_ne_nil key hne hlist

end Meshp.Keys
