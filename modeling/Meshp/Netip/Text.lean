import Meshp.Netip.Addr

/-!
# Addresses and Prefixes as Text

Prefixes cross every boundary of the system as text: a selector in a policy, a
field of a state delta, a line of an nftables script. This module is
`netip.ParseAddr`, `netip.ParsePrefix` and the two `String` methods, over lists of
characters, with the same texts accepted and refused. Error texts are the
library's own and nothing here reads them, so a refusal is `none`.
-/

namespace Meshp.Netip

def digit? (c : Char) : Option Nat :=
  if '0' ≤ c ∧ c ≤ '9' then some (c.toNat - '0'.toNat) else none

def hexDigit? (c : Char) : Option Nat :=
  if '0' ≤ c ∧ c ≤ '9' then some (c.toNat - '0'.toNat)
  else if 'a' ≤ c ∧ c ≤ 'f' then some (c.toNat - 'a'.toNat + 10)
  else if 'A' ≤ c ∧ c ≤ 'F' then some (c.toNat - 'A'.toNat + 10)
  else none

/-- Digits in base `b` as a number, or nothing when one of them is not one. -/
def number (b : Nat) (val : Char → Option Nat) (cs : List Char) : Option Nat :=
  cs.foldlM (fun n c => (val c).map (b * n + ·)) 0

def parseOctet : List Char → Option Nat
  | [] => none
  | ['0'] => some 0
  | '0' :: _ => none
  | cs => (number 10 digit? cs).filter (· ≤ 255)

/-- `parseIPv4`: four octets between dots. -/
def parseIPv4 (cs : List Char) : Option (BitVec 32) :=
  match (cs.splitOn '.').mapM parseOctet with
  | some [a, b, c, d] => some (BitVec.ofNat 32 (((a * 256 + b) * 256 + c) * 256 + d))
  | _ => none

/-- The loop of `parseIPv6`: the groups read so far, how many of them stood before a `::` if one was
met, and what is left to read. A dotted quad may stand for the last two groups. -/
def parseGroups : Nat → List Nat → Option Nat → List Char → Option (List Nat × Option Nat)
  | 0, groups, ellipsis, cs => if cs = [] then some (groups, ellipsis) else none
  | fuel + 1, groups, ellipsis, cs =>
    let digits := cs.takeWhile (fun c => (hexDigit? c).isSome)
    let rest := cs.dropWhile (fun c => (hexDigit? c).isSome)
    if digits = [] ∨ 4 < digits.length then none
    else match number 16 hexDigit? digits with
      | none => none
      | some v =>
        match rest with
        | [] => some (groups ++ [v], ellipsis)
        | '.' :: _ =>
          -- Without a `::` the quad has to be the last two groups.
          if (ellipsis = none ∧ groups.length ≠ 6) ∨ 6 < groups.length then none
          else (parseIPv4 cs).map fun q =>
            (groups ++ [q.toNat / 2 ^ 16, q.toNat % 2 ^ 16], ellipsis)
        | [':'] => none
        | ':' :: ':' :: rest' =>
          if ellipsis.isSome then none
          else if rest' = [] then some (groups ++ [v], some (groups.length + 1))
          else parseGroups fuel (groups ++ [v]) (some (groups.length + 1)) rest'
        | ':' :: rest' => parseGroups fuel (groups ++ [v]) ellipsis rest'
        | _ => none

/-- Eight groups from what was read, the `::` filled with zeros. It has to stand for at least one
group. -/
def expandGroups : List Nat × Option Nat → Option (List Nat)
  | (groups, none) => if groups.length = 8 then some groups else none
  | (groups, some at') =>
    if groups.length < 8 then
      some (groups.take at' ++ List.replicate (8 - groups.length) 0 ++ groups.drop at')
    else none

/-- `parseIPv6`, without the zone. -/
def parseIPv6 (cs : List Char) : Option (BitVec 128) :=
  let read := match cs with
    | [':', ':'] => some ([], some 0)
    | ':' :: ':' :: rest => parseGroups 8 [] (some 0) rest
    | cs => parseGroups 8 [] none cs
  (read.bind expandGroups).map fun groups =>
    BitVec.ofNat 128 (groups.foldl (fun n g => n * 2 ^ 16 + g) 0)

/-- An address and whether a zone followed it. The first of `.`, `:` and `%` in the text says which
form it is in. -/
def parseAddrZone (cs : List Char) : Option (Addr × Bool) :=
  match cs.find? (fun c => c = '.' || c = ':' || c = '%') with
  | some '.' => (parseIPv4 cs).map fun a => (Addr.v4 a, false)
  | some ':' =>
    let addr := cs.takeWhile (· ≠ '%')
    match cs.dropWhile (· ≠ '%') with
    | ['%'] => none
    | zone => (parseIPv6 addr).map fun a => (Addr.v6 a, !zone.isEmpty)
  | _ => none

/-- `netip.ParseAddr`, with any zone dropped. -/
def parseAddr (s : String) : Option Addr :=
  (parseAddrZone s.toList).map Prod.fst

def parseBits : List Char → Option Nat
  | [] => none
  | ['0'] => some 0
  | '0' :: _ => none
  | cs => number 10 digit? cs

/-- The text before and after the last `/`. -/
def splitSlash (cs : List Char) : Option (List Char × List Char) :=
  let after := cs.reverse.takeWhile (· ≠ '/')
  match cs.reverse.dropWhile (· ≠ '/') with
  | [] => none
  | _ :: before => some (before.reverse, after.reverse)

/-- `netip.ParsePrefix`: no zone, and a length the address has room for. -/
def parsePrefix (s : String) : Option Prefix :=
  match splitSlash s.toList with
  | none => none
  | some (addr, bits) =>
    match parseAddrZone addr, parseBits bits with
    | some (a, false), some n => if h : n ≤ a.bitLen then some ⟨a, n, h⟩ else none
    | _, _ => none

/-- `netip.ParseAddrPort`: an address and a port after the last colon. An IPv6 address stands in
square brackets and nothing else does. -/
def parseAddrPort (s : String) : Option (Addr × Nat) :=
  let port := (s.toList.reverse.takeWhile (· ≠ ':')).reverse
  match s.toList.reverse.dropWhile (· ≠ ':') with
  | [] => none
  | _ :: host =>
    let bracketed := host.getLast? = some '['
    let ip := if bracketed then (host.drop 1).reverse.drop 1 else host.reverse
    if port = [] ∨ (bracketed ∧ (host.head? ≠ some ']' ∨ host.length < 2)) then none
    else match parseAddrZone ip, (number 10 digit? port).filter (· < 2 ^ 16) with
      | some (a, _), some n => if a.is4 = !bracketed then some (a, n) else none
      | _, _ => none

def quadText (n : Nat) : List Char :=
  List.intercalate ['.'] ([n / 2 ^ 24 % 256, n / 2 ^ 16 % 256, n / 2 ^ 8 % 256, n % 256].map
    (Nat.toDigits 10))

def groupsOf (n : Nat) : List Nat :=
  (List.range 8).map fun i => n / 2 ^ (16 * (7 - i)) % 2 ^ 16

/-- The first longest run of at least two zero groups, as where it starts and how long it is; `at'`
counts the groups already passed. -/
def zeroRun (best : Nat × Nat) : Nat → List Nat → Nat × Nat
  | _, [] => best
  | at', g :: gs =>
    let len := ((g :: gs).takeWhile (· = 0)).length
    zeroRun (if 2 ≤ len ∧ best.2 < len then (at', len) else best) (at' + 1) gs

/-- `appendTo6`: groups in hexadecimal between colons, the longest run of zeros written `::`. -/
def groupsText (groups : List Nat) : List Char :=
  let hex := groups.map (Nat.toDigits 16)
  match zeroRun (0, 0) 0 groups with
  | (_, 0) => List.intercalate [':'] hex
  | (start, len) =>
    List.intercalate [':'] (hex.take start) ++ [':', ':'] ++
      List.intercalate [':'] (hex.drop (start + len))

/-- `netip.Addr.String`. An IPv4-mapped address keeps its quad. -/
def Addr.text : Addr → String
  | .v4 a => String.ofList (quadText a.toNat)
  | .v6 a =>
    if a.toNat / 2 ^ 32 = 0xffff then
      String.ofList ("::ffff:".toList ++ quadText (a.toNat % 2 ^ 32))
    else String.ofList (groupsText (groupsOf a.toNat))

/-- `netip.Prefix.String`. -/
def Prefix.text (p : Prefix) : String :=
  p.addr.text ++ "/" ++ String.ofList (Nat.toDigits 10 p.bits)

/-- `String`, of a prefix that may be the zero one. -/
def writtenPrefix : Option Prefix → String
  | some p => p.text
  | none => "invalid Prefix"

structure AddrPort where
  addr : Addr
  port : UInt16
  deriving DecidableEq

/-- `netip.AddrPort.String`. An IPv6 address stands in square brackets. -/
def AddrPort.text (a : AddrPort) : String :=
  match a.addr with
  | .v4 _ => a.addr.text ++ ":" ++ toString a.port.toNat
  | .v6 _ => "[" ++ a.addr.text ++ "]:" ++ toString a.port.toNat

example : (parsePrefix "fd00::1:0/112").map Prefix.text = some "fd00::1:0/112" := by decide

example : parsePrefix "100.90.0.256/24" = none := by decide

example : (parseAddrPort "[fd00::1]:53").map Prod.snd = some 53 := by decide

end Meshp.Netip
