import Meshp.Base.Text

/-!
# Names a Device Answers To

A device's display name is free text; the name it resolves by is a DNS label.
`label` mangles the one into the other and `suffixed` makes room for a number
when the label is taken. Both work on characters, and everything they keep is
ASCII, so a length in characters is a length in bytes.
-/

namespace Meshp.Dns

def maxLabel : Nat := 63

/-- `ValidLabel`: lower case letters, digits and hyphens, no hyphen at either end, at most
sixty-three of them. -/
def validLabel (s : String) : Bool :=
  let cs := s.toList
  cs.head?.any Text.isLabelChar && cs.getLast?.any Text.isLabelChar &&
    cs.all (fun c => Text.isLabelChar c || c = '-') && cs.length ≤ maxLabel

/-- `strings.TrimRight(s, "-")`. -/
def trimRightHyphens (cs : List Char) : List Char :=
  (cs.reverse.dropWhile (· = '-')).reverse

/-- The loop of `Label`: keep letters and digits, and one hyphen for any run of anything else. -/
def labelChars : Bool → List Char → List Char
  | _, [] => []
  | lastHyphen, c :: cs =>
    if Text.isLabelChar c then c :: labelChars false cs
    else if lastHyphen then labelChars true cs
    else '-' :: labelChars true cs

/-- `Label`: a display name as a label, or nothing usable. -/
def label (display : String) : String :=
  let out := trimRightHyphens (labelChars true (Text.toLower display).toList)
  String.ofList (if maxLabel < out.length then trimRightHyphens (out.take maxLabel) else out)

/-- `Suffixed`: a label with a number, kept inside the limit. -/
def suffixed (base : String) (n : Nat) : String :=
  let suffix := '-' :: (toString n).toList
  if base.toList.length + suffix.length ≤ maxLabel then String.ofList (base.toList ++ suffix)
  else String.ofList (trimRightHyphens (base.toList.take (maxLabel - suffix.length)) ++ suffix)

example : label "Dave's laptop (spare)" = "dave-s-laptop-spare" := by decide

end Meshp.Dns
