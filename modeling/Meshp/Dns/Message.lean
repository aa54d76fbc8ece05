import Meshp.Dns.Label
import Meshp.Dns.Zones

/-!
# Questions on the Wire

A query is read into a name with dots between its labels, and a response writes
that name out again. On the wire a label is any bytes at all, its length in front
of them, so a label with a dot in it comes back as two.
-/

namespace Meshp.Dns

open Netip (Addr)

def dot : UInt8 := 46

def lower (c : UInt8) : UInt8 :=
  if 65 ≤ c ∧ c ≤ 90 then c + 32 else c

def word (hi lo : UInt8) : Nat :=
  hi.toNat * 256 + lo.toNat

def be16 (n : Nat) : List UInt8 :=
  [UInt8.ofNat (n / 256), UInt8.ofNat n]

structure Query where
  id : Nat
  recursionDesired : Bool
  name : List UInt8
  type : Nat
  class' : Nat

/-- The loop of `parseName`: the name read after `total` bytes of it came to `out`, and what follows
it. Every turn takes a byte, so as many turns as there are bytes are enough. -/
def parseName : Nat → List UInt8 → Nat → List UInt8 → Option (List UInt8 × List UInt8)
  | fuel + 1, n :: buf, total, out =>
    if n = 0 then some (out, buf)
    else if n &&& 0xC0 ≠ 0 ∨ maxLabel < n.toNat ∨ 255 < total + n.toNat + 1 ∨ buf.length < n.toNat then
      none
    else
      parseName fuel (buf.drop n.toNat) (total + n.toNat + 1)
        ((if out = [] then [] else out ++ [dot]) ++ (buf.take n.toNat).map lower)
  | _, _, _, _ => none

/-- `ParseQuery`. -/
def parseQuery : List UInt8 → Option Query
  | i₁ :: i₂ :: f₁ :: f₂ :: d₁ :: d₂ :: _ :: _ :: _ :: _ :: _ :: _ :: body =>
    let flags := word f₁ f₂
    if flags &&& 0x8000 ≠ 0 ∨ (flags >>> 11) &&& 0xF ≠ 0 ∨ word d₁ d₂ ≠ 1 then none
    else match parseName (body.length + 1) body 0 [] with
      | some (name, t₁ :: t₂ :: c₁ :: c₂ :: _) =>
        some ⟨word i₁ i₂, flags &&& 0x0100 ≠ 0, name, word t₁ t₂, word c₁ c₂⟩
      | _ => none
  | _ => none

/-- `strings.SplitSeq(name, ".")`. -/
def splitDots : List UInt8 → List (List UInt8)
  | [] => [[]]
  | c :: cs =>
    if c = dot then [] :: splitDots cs
    else match splitDots cs with
      | [] => [[c]]
      | l :: ls => (c :: l) :: ls

def wire (labels : List (List UInt8)) : List UInt8 :=
  labels.flatMap (fun l => UInt8.ofNat l.length :: l) ++ [0]

def labelsOf (name : List UInt8) : List (List UInt8) :=
  if name = [] ∨ ∃ l ∈ splitDots name, l = [] ∨ maxLabel < l.length then [] else splitDots name

def encodeName (name : List UInt8) : List UInt8 :=
  wire (labelsOf name)

structure Answer where
  addr : Addr
  ttl : Nat

/-- `matches`: A is 1 and AAAA is 28. -/
def answers (type : Nat) (addr : Addr) : Bool :=
  if type = 1 then addr.is4 else type = 28 && !addr.is4 && !addr.is4In6

def addrBytes (addr : Addr) : List UInt8 :=
  (List.range (addr.bitLen / 8)).reverse.map fun i => UInt8.ofNat (addr.toNat / 256 ^ i)

def encodeAnswer (q : Query) (a : Answer) : List UInt8 :=
  encodeName q.name ++ be16 q.type ++ be16 1 ++ be16 (a.ttl / 2 ^ 16) ++ be16 a.ttl ++
    be16 (addrBytes a.addr.unmap).length ++ addrBytes a.addr.unmap

def records (q : Query) : Nat → List Answer → List (List UInt8) × Bool
  | _, [] => ([], false)
  | room, a :: as =>
    if answers q.type a.addr = false then records q room as
    else if room < (encodeAnswer q a).length then ([], true)
    else
      let (written, truncated) := records q (room - (encodeAnswer q a).length) as
      (encodeAnswer q a :: written, truncated)

def question (q : Query) : List UInt8 :=
  encodeName q.name ++ be16 q.type ++ be16 q.class'

def answerRecords (q : Query) (as : List Answer) : List (List UInt8) × Bool :=
  records q (512 - (12 + (question q).length)) as

/-- `BuildResponse`. -/
def buildResponse (q : Query) (code : Nat) (as : List Answer) : List UInt8 :=
  let flags := 0x8000 + 0x0400 + (if q.recursionDesired then 0x0100 else 0) + code % 16 +
    if (answerRecords q as).2 then 0x0200 else 0
  be16 q.id ++ be16 flags ++ be16 1 ++ be16 (answerRecords q as).1.length ++ be16 0 ++ be16 0 ++
    question q ++ (answerRecords q as).1.flatten

def readLabels : Nat → List UInt8 → Option (List (List UInt8) × List UInt8)
  | fuel + 1, n :: buf =>
    if n = 0 then some ([], buf)
    else if maxLabel < n.toNat ∨ buf.length < n.toNat then none
    else (readLabels fuel (buf.drop n.toNat)).map fun (ls, rest) => (buf.take n.toNat :: ls, rest)
  | _, _ => none

structure Question where
  labels : List (List UInt8)
  type : Nat
  class' : Nat
  deriving DecidableEq

def readQuestion (message : List UInt8) : Option Question :=
  match readLabels ((message.drop 12).length + 1) (message.drop 12) with
  | some (labels, t₁ :: t₂ :: c₁ :: c₂ :: _) => some ⟨labels, word t₁ t₂, word c₁ c₂⟩
  | _ => none

def Echoes (asked : List UInt8) (q : Query) (code : Nat) (as : List Answer) : Prop :=
  ∃ a e, readQuestion asked = some a ∧ readQuestion (buildResponse q code as) = some e ∧
    e.labels.map (·.map lower) = a.labels.map (·.map lower) ∧ e.type = a.type ∧
    e.class' = a.class' ∧
    ∀ record ∈ (answerRecords q as).1, ∃ rest,
      readLabels (record.length + 1) record = some (e.labels, rest)

def Writable (labels : List (List UInt8)) : Prop :=
  ∀ l ∈ labels, l ≠ [] ∧ l.length ≤ maxLabel

def dotted (out : List UInt8) (labels : List (List UInt8)) : List UInt8 :=
  labels.foldl (fun out l => (if out = [] then [] else out ++ [dot]) ++ l.map lower) out

theorem parseName_eq_some {fuel : Nat} {buf out name rest : List UInt8} {total : Nat}
    (h : parseName fuel buf total out = some (name, rest)) :
    ∃ ls, readLabels fuel buf = some (ls, rest) ∧ Writable ls ∧ name = dotted out ls := by
  induction fuel generalizing buf total out with
  | zero => cases h
  | succ fuel ih =>
    cases buf with
    | nil => cases h
    | cons n buf =>
      simp only [parseName] at h
      by_cases hzero : n = 0
      · rw [if_pos hzero] at h
        cases h
        exact ⟨[], by rw [readLabels, if_pos hzero], nofun, rfl⟩
      rw [if_neg hzero] at h
      split at h
      · cases h
      · rename_i hbad
        simp only [not_or, Nat.not_lt] at hbad
        obtain ⟨ls, hls, hwritable, rfl⟩ := ih h
        refine ⟨buf.take n.toNat :: ls, ?_, ?_, rfl⟩
        · rw [readLabels, if_neg hzero, if_neg (by omega), hls]
          rfl
        · have hpos : n.toNat ≠ 0 := fun h0 => hzero (UInt8.toNat_inj.1 h0)
          refine List.forall_mem_cons.2 ⟨?_, hwritable⟩
          rw [← List.length_pos_iff, List.length_take]
          omega

theorem readLabels_wire {labels : List (List UInt8)} (h : Writable labels) (rest : List UInt8)
    {fuel : Nat} (hfuel : labels.length < fuel) :
    readLabels fuel (wire labels ++ rest) = some (labels, rest) := by
  induction labels generalizing fuel with
  | nil =>
    obtain ⟨fuel, rfl⟩ := Nat.exists_eq_succ_of_ne_zero (Nat.ne_of_gt hfuel)
    rfl
  | cons l labels ih =>
    obtain ⟨fuel, rfl⟩ := Nat.exists_eq_succ_of_ne_zero (Nat.ne_of_gt (Nat.zero_lt_of_lt hfuel))
    obtain ⟨⟨hne, hle⟩, hrest⟩ := List.forall_mem_cons.1 h
    have hlength : (UInt8.ofNat l.length).toNat = l.length := by
      rw [UInt8.toNat_ofNat', Nat.mod_eq_of_lt]
      exact Nat.lt_of_le_of_lt hle (by decide)
    have hzero : UInt8.ofNat l.length ≠ 0 := by
      intro h0
      rw [h0] at hlength
      exact hne (List.length_eq_zero_iff.1 hlength.symm)
    have hwire : wire (l :: labels) ++ rest =
        UInt8.ofNat l.length :: (l ++ (wire labels ++ rest)) := by
      simp [wire]
    rw [hwire, readLabels, if_neg hzero, hlength, if_neg (by simp; omega), List.drop_left,
      List.take_left, ih hrest (by simpa using hfuel)]
    rfl

theorem splitDots_append {l : List UInt8} (h : dot ∉ l) (rest : List UInt8) :
    splitDots (l ++ dot :: rest) = l :: splitDots rest ∧ splitDots l = [l] := by
  induction l with
  | nil => exact ⟨if_pos rfl, rfl⟩
  | cons c l ih =>
    have hc : c ≠ dot := fun hdot => h (hdot ▸ .head _)
    simp [splitDots, hc, ih fun hl => h (.tail _ hl)]

theorem dot_notMem_of_mem_splitDots {name l : List UInt8} (h : l ∈ splitDots name) : dot ∉ l := by
  induction name generalizing l with
  | nil =>
    cases List.mem_singleton.1 h
    exact List.not_mem_nil
  | cons c name ih =>
    unfold splitDots at h
    split_ifs at h with hc
    · rcases List.mem_cons.1 h with rfl | h
      · exact List.not_mem_nil
      · exact ih h
    · split at h
      · cases List.mem_singleton.1 h
        simpa using Ne.symm hc
      · rename_i l' ls hsplit
        rcases List.mem_cons.1 h with rfl | h
        · have hl' : dot ∉ l' := ih (by rw [hsplit]; exact .head _)
          exact fun hdot => (List.mem_cons.1 hdot).elim (fun h => hc h.symm) hl'
        · exact ih (by rw [hsplit]; exact .tail _ h)

theorem lower_lower (c : UInt8) : lower (lower c) = lower c := by
  unfold lower
  split_ifs <;> grind

theorem lower_eq_dot {c : UInt8} : lower c = dot ↔ c = dot := by
  unfold lower dot
  split_ifs <;> grind

theorem dotted_append {out : List UInt8} (hout : out ≠ []) (labels : List (List UInt8)) :
    dotted out labels = out ++ (labels.map (·.map lower)).flatMap (dot :: ·) := by
  induction labels generalizing out with
  | nil => simp [dotted]
  | cons l labels ih =>
    have hnext := ih (show out ++ [dot] ++ l.map lower ≠ [] by simp)
    simp only [dotted, List.foldl_cons, if_neg hout] at hnext ⊢
    simpa using hnext

theorem splitDots_flatMap {l : List UInt8} {ls : List (List UInt8)} (hl : dot ∉ l)
    (hls : ∀ l' ∈ ls, dot ∉ l') : splitDots (l ++ ls.flatMap (dot :: ·)) = l :: ls := by
  induction ls generalizing l with
  | nil => simpa using (splitDots_append hl []).2
  | cons l' ls ih =>
    obtain ⟨hl', hls⟩ := List.forall_mem_cons.1 hls
    rw [List.flatMap_cons, List.cons_append, (splitDots_append hl _).1, ih hl' hls]

theorem writable_labelsOf (name : List UInt8) : Writable (labelsOf name) := by
  unfold labelsOf
  split_ifs with h
  · exact nofun
  · simp only [not_or, not_exists, not_and, Nat.not_lt] at h
    exact h.2

theorem labelsOf_dotted_iff {ls : List (List UInt8)} (hls : Writable ls) :
    (labelsOf (dotted [] ls)).map (·.map lower) = ls.map (·.map lower) ↔ ∀ l ∈ ls, dot ∉ l := by
  have hlower : ∀ l : List UInt8, dot ∈ l.map lower ↔ dot ∈ l := by
    intro l
    simp [lower_eq_dot]
  constructor
  · intro h l hl hdot
    obtain ⟨l', hl', heq⟩ := List.mem_map.1 (h ▸ List.mem_map_of_mem hl)
    rw [← hlower, ← heq, hlower] at hdot
    unfold labelsOf at hl'
    split_ifs at hl'
    · cases hl'
    · exact dot_notMem_of_mem_splitDots hl' hdot
  · intro hdots
    cases ls with
    | nil => rfl
    | cons l ls =>
      obtain ⟨hl, hrest⟩ := List.forall_mem_cons.1 hdots
      have hne : l.map lower ≠ [] := by simpa using (hls l (.head _)).1
      have hname : dotted [] (l :: ls) =
          l.map lower ++ (ls.map (·.map lower)).flatMap (dot :: ·) := dotted_append hne ls
      have hsplit : splitDots (dotted [] (l :: ls)) = (l :: ls).map (·.map lower) := by
        rw [hname]
        refine splitDots_flatMap ((hlower l).not.2 hl) ?_
        simpa [lower_eq_dot] using hrest
      have hbad : ¬(dotted [] (l :: ls) = [] ∨
          ∃ l' ∈ splitDots (dotted [] (l :: ls)), l' = [] ∨ maxLabel < l'.length) := by
        rw [hsplit]
        simp only [not_or, not_exists, not_and, hname, List.append_eq_nil_iff, Nat.not_lt]
        refine ⟨fun h => absurd h hne, fun l' hl' => ?_⟩
        obtain ⟨l'', hl'', rfl⟩ := List.mem_map.1 hl'
        simpa using hls l'' hl''
      rw [labelsOf, if_neg hbad, hsplit]
      simp [Function.comp_def, lower_lower]

theorem word_be16 (hi lo : UInt8) :
    word (UInt8.ofNat (word hi lo / 256)) (UInt8.ofNat (word hi lo)) = word hi lo := by
  have hhi := hi.toNat_lt
  have hlo := lo.toNat_lt
  simp only [word, UInt8.toNat_ofNat']
  omega

theorem length_lt_wire (labels : List (List UInt8)) : labels.length < (wire labels).length := by
  induction labels with
  | nil => decide
  | cons l labels ih =>
    simp only [wire, List.flatMap_cons, List.length_append, List.length_cons] at ih ⊢
    omega

theorem parseQuery_eq_some {buf : List UInt8} {q : Query} (h : parseQuery buf = some q) :
    ∃ ls t₁ t₂ c₁ c₂ rest, Writable ls ∧ q.name = dotted [] ls ∧ q.type = word t₁ t₂ ∧
      q.class' = word c₁ c₂ ∧
      readLabels ((buf.drop 12).length + 1) (buf.drop 12) =
        some (ls, t₁ :: t₂ :: c₁ :: c₂ :: rest) := by
  unfold parseQuery at h
  split at h
  · dsimp only at h
    split_ifs at h
    split at h
    · rename_i hname
      cases h
      obtain ⟨ls, hls, hwritable, rfl⟩ := parseName_eq_some hname
      exact ⟨ls, _, _, _, _, _, hwritable, rfl, rfl, rfl, hls⟩
    · cases h
  · cases h

theorem readLabels_encodeName (name rest : List UInt8) :
    readLabels ((encodeName name ++ rest).length + 1) (encodeName name ++ rest) =
      some (labelsOf name, rest) := by
  refine readLabels_wire (writable_labelsOf name) rest ?_
  have hlength := length_lt_wire (labelsOf name)
  rw [List.length_append, encodeName]
  omega

theorem readLabels_record {q : Query} {room : Nat} {as : List Answer} {record : List UInt8}
    (h : record ∈ (records q room as).1) :
    ∃ rest, readLabels (record.length + 1) record = some (labelsOf q.name, rest) := by
  induction as generalizing room with
  | nil => cases h
  | cons a as ih =>
    unfold records at h
    split_ifs at h
    · exact ih h
    · cases h
    · rcases List.mem_cons.1 h with rfl | h
      · simp only [encodeAnswer, List.append_assoc]
        exact ⟨_, readLabels_encodeName q.name _⟩
      · exact ih h

/-- A response echoes the question exactly if no label of it has a dot in it. -/
theorem echoes_iff {buf : List UInt8} {q : Query} (h : parseQuery buf = some q) (code : Nat)
    (as : List Answer) :
    Echoes buf q code as ↔ ∀ a, readQuestion buf = some a → ∀ l ∈ a.labels, dot ∉ l := by
  obtain ⟨ls, t₁, t₂, c₁, c₂, rest, hwritable, hname, htype, hclass, hread⟩ := parseQuery_eq_some h
  have hasked : readQuestion buf = some ⟨ls, q.type, q.class'⟩ := by
    simp only [readQuestion, hread, htype, hclass]
  have hdrop : (buildResponse q code as).drop 12 =
      encodeName q.name ++ (be16 q.type ++ be16 q.class' ++ (answerRecords q as).1.flatten) := by
    simp [buildResponse, question, be16]
  have hechoed : readQuestion (buildResponse q code as) =
      some ⟨labelsOf q.name, q.type, q.class'⟩ := by
    simp only [readQuestion, hdrop, readLabels_encodeName, be16, htype, hclass, List.cons_append,
      List.nil_append, word_be16]
  have hback := labelsOf_dotted_iff hwritable
  rw [← hname] at hback
  constructor
  · rintro ⟨a, e, ha, he, hlabels, -⟩ a' ha'
    cases ha.symm.trans ha'
    cases ha.symm.trans hasked
    cases he.symm.trans hechoed
    exact hback.1 hlabels
  · intro hdots
    exact ⟨_, _, hasked, hechoed, hback.2 (hdots _ hasked), rfl, rfl, fun record => readLabels_record⟩

def asking (labels : List (List UInt8)) : List UInt8 :=
  [0, 1, 1, 0, 0, 1, 0, 0, 0, 0, 0, 0] ++ wire labels ++ [0, 1, 0, 1]

theorem echoes_plain : ∃ q, parseQuery (asking [[70, 83], [97]]) = some q ∧
    Echoes (asking [[70, 83], [97]]) q 0 [⟨.v4 0x645A0001, 60⟩] := by
  obtain ⟨q, hq⟩ := Option.isSome_iff_exists.1
    (by decide : (parseQuery (asking [[70, 83], [97]])).isSome = true)
  refine ⟨q, hq, (echoes_iff hq 0 _).2 fun a ha => ?_⟩
  cases (by decide : readQuestion (asking [[70, 83], [97]]) = some ⟨[[70, 83], [97]], 1, 1⟩).symm.trans ha
  decide

/-- A label `a.b` is echoed as two labels. -/
theorem dotted_label_split :
    (parseQuery (asking [[97, dot, 98]])).any (fun q =>
      readQuestion (asking [[97, dot, 98]]) = some ⟨[[97, dot, 98]], 1, 1⟩ ∧
        readQuestion (buildResponse q 0 []) = some ⟨[[97], [98]], 1, 1⟩) = true := by
  decide

end Meshp.Dns
