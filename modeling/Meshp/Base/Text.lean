import Meshp.Netip.Text

/-!
# Text Helpers of the Standard Library

The few functions of Go's `strings` and `strconv` that decide something here, over
characters. Each is defined by what the library documents.
-/

namespace Meshp.Text

def isSpace (c : Char) : Bool :=
  (9 ≤ c.toNat && c.toNat ≤ 13) ||
    ([0x20, 0x85, 0xa0, 0x1680, 0x2028, 0x2029, 0x202f, 0x205f, 0x3000].contains c.toNat) ||
    (0x2000 ≤ c.toNat && c.toNat ≤ 0x200a)

def trimSpace (s : String) : String :=
  String.ofList (((s.toList.dropWhile isSpace).reverse.dropWhile isSpace).reverse)

def lowerChar (c : Char) : Char :=
  if c.toNat = 0x212a then 'k' else if c.toNat = 0x130 then 'i' else c.toLower

def toLower (s : String) : String :=
  String.ofList (s.toList.map lowerChar)

def upperChar (c : Char) : Char :=
  if c.toNat = 0x17f then 'S' else if c.toNat = 0x131 then 'I' else c.toUpper

def toUpper (s : String) : String :=
  String.ofList (s.toList.map upperChar)

/-- One character as `strconv.Quote` writes it, of those that print or are ASCII. -/
def quoteChar (c : Char) : List Char :=
  if c = '"' then ['\\', '"']
  else if c = '\\' then ['\\', '\\']
  else if c = '\n' then ['\\', 'n']
  else if c = '\t' then ['\\', 't']
  else if c = '\r' then ['\\', 'r']
  else if c.toNat < 0x20 ∨ c.toNat = 0x7f then
    ['\\', 'x', Nat.digitChar (c.toNat / 16), Nat.digitChar (c.toNat % 16)]
  else [c]

/-- The `%q` of a message. -/
def quote (s : String) : String :=
  String.ofList ('"' :: s.toList.flatMap quoteChar ++ ['"'])

/-- `strings.Cut`: the text before and after the first `sep`, if it occurs. -/
def cut (sep : Char) (s : String) : String × Option String :=
  let before := s.toList.takeWhile (· ≠ sep)
  match s.toList.dropWhile (· ≠ sep) with
  | [] => (s, none)
  | _ :: after => (String.ofList before, some (String.ofList after))

/-- The digits of `strconv.Atoi`, without a sign. -/
def atoiDigits : List Char → Option Nat
  | [] => none
  | cs => (Netip.number 10 Netip.digit? cs).filter (· < 2 ^ 63)

/-- `strconv.Atoi`: an optional sign, then decimal digits, in an `int64`. -/
def atoi (s : String) : Option Int :=
  match s.toList with
  | '+' :: cs => (atoiDigits cs).map Int.ofNat
  | '-' :: cs => (atoiDigits cs).map fun n => -(n : Int)
  | cs => (atoiDigits cs).map Int.ofNat

def isLabelChar (c : Char) : Bool :=
  ('a' ≤ c && c ≤ 'z') || ('0' ≤ c && c ≤ '9')

/-- `slugPattern`: at most forty letters, digits and hyphens, with no hyphen at either end. -/
def slugOk (s : String) : Bool :=
  let cs := s.toList
  (cs.head?.any isLabelChar) && (cs.getLast?.any isLabelChar) &&
    cs.all (fun c => isLabelChar c || c = '-') && cs.length ≤ 40

end Meshp.Text
