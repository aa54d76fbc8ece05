import Meshp.Base.Decimal
import Meshp.Dns.Label

/-!
# Labels That Can Be Used

A label made from a display name is one that DNS can carry, unless nothing of the
name was usable. A number put behind a label makes another one, and a different
one for each number: what is cut off to make room leaves at least the first
character, and the digits are what follows the last hyphen.
-/

namespace Meshp.Dns

open Text (isLabelChar toList_toString)

/-- What a label can begin with. -/
structure Begins (cs : List Char) : Prop where
  head : ∀ c ∈ cs.head?, isLabelChar c = true
  carried : ∀ c ∈ cs, isLabelChar c = true ∨ c = '-'

variable {cs ds : List Char} {s base : String} {n : Nat}

theorem Begins.of_front (h : Begins ds) (hfront : cs <+: ds) : Begins cs := by
  refine ⟨fun c hc => ?_, fun c hc => h.carried c (hfront.subset hc)⟩
  obtain ⟨rest, rfl⟩ := hfront
  exact h.head c (by rw [List.head?_append, hc]; rfl)

theorem validLabel_iff : validLabel s = true ↔ s.toList ≠ [] ∧ Begins s.toList ∧
    (∀ c ∈ s.toList.getLast?, isLabelChar c = true) ∧ s.toList.length ≤ maxLabel := by
  have hany : ∀ o : Option Char, o.any isLabelChar = true ↔
      o.isSome = true ∧ ∀ c ∈ o, isLabelChar c = true := by
    intro o
    cases o <;> simp
  simp only [validLabel, Bool.and_eq_true, hany, List.all_eq_true, Bool.or_eq_true,
    decide_eq_true_eq, List.isSome_head?, List.getLast?_isSome]
  constructor
  · rintro ⟨⟨⟨⟨hne, hhead⟩, -, hlast⟩, hall⟩, hlength⟩
    exact ⟨hne, ⟨hhead, hall⟩, hlast, hlength⟩
  · rintro ⟨hne, ⟨hhead, hall⟩, hlast, hlength⟩
    exact ⟨⟨⟨⟨hne, hhead⟩, hne, hlast⟩, hall⟩, hlength⟩

theorem prefix_trimRightHyphens (cs : List Char) : trimRightHyphens cs <+: cs :=
  List.rdropWhile_prefix (· = '-') cs

theorem trimRightHyphens_ne_nil (h : Begins cs) (hne : cs ≠ []) : trimRightHyphens cs ≠ [] := by
  intro hnil
  obtain ⟨c, cs, rfl⟩ := List.exists_cons_of_ne_nil hne
  have hhyphen := List.rdropWhile_eq_nil_iff.1 hnil c (.head _)
  have hc := h.head c rfl
  rw [of_decide_eq_true hhyphen] at hc
  exact absurd hc (by decide)

/-- What begins as a label is one when its end is trimmed. -/
theorem validLabel_trimmed (h : Begins cs) (hne : cs ≠ [])
    (hlength : (trimRightHyphens cs).length ≤ maxLabel) :
    validLabel (String.ofList (trimRightHyphens cs)) = true := by
  have hbegins := h.of_front (prefix_trimRightHyphens cs)
  rw [validLabel_iff, String.toList_ofList]
  refine ⟨trimRightHyphens_ne_nil h hne, hbegins, fun c hc => ?_, hlength⟩
  obtain ⟨hsome, rfl⟩ := List.mem_getLast?_eq_getLast hc
  refine (hbegins.carried _ (List.getLast_mem hsome)).resolve_right fun hhyphen => ?_
  exact List.rdropWhile_last_not (· = '-') cs hsome (decide_eq_true hhyphen)

theorem begins_labelChars (cs : List Char) : Begins (labelChars true cs) := by
  have hcarried : ∀ lastHyphen, ∀ c ∈ labelChars lastHyphen cs, isLabelChar c = true ∨ c = '-' := by
    induction cs with
    | nil => exact fun _ => nofun
    | cons c cs ih =>
      intro lastHyphen
      unfold labelChars
      split_ifs with hc
      · exact List.forall_mem_cons.2 ⟨.inl hc, ih false⟩
      · exact ih true
      · exact List.forall_mem_cons.2 ⟨.inr rfl, ih true⟩
  refine ⟨?_, hcarried true⟩
  -- Hyphens in front are dropped, so nothing is left of them for `strings.Trim`.
  clear hcarried
  induction cs with
  | nil => exact nofun
  | cons c cs ih =>
    unfold labelChars
    by_cases hc : isLabelChar c = true
    · rw [if_pos hc]
      rintro d ⟨⟩
      exact hc
    · rw [if_neg hc, if_pos rfl]
      exact ih

theorem label_valid {display : String} (h : label display ≠ "") :
    validLabel (label display) = true := by
  have hbegins := begins_labelChars (Text.toLower display).toList
  unfold label at h ⊢
  dsimp only at h ⊢
  generalize labelChars true (Text.toLower display).toList = cs at hbegins h ⊢
  have hne : cs ≠ [] := by
    rintro rfl
    exact h (by decide)
  by_cases hlong : maxLabel < (trimRightHyphens cs).length
  · rw [if_pos hlong]
    -- What is cut at the limit is trimmed once more.
    have htake := List.take_prefix maxLabel (trimRightHyphens cs)
    refine validLabel_trimmed (hbegins.of_front (htake.trans (prefix_trimRightHyphens cs))) ?_ ?_
    · rw [Ne, List.take_eq_nil_iff, not_or]
      exact ⟨by decide, trimRightHyphens_ne_nil hbegins hne⟩
    · exact Nat.le_trans (prefix_trimRightHyphens _).length_le (List.length_take_le _ _)
  · rw [if_neg hlong]
    exact validLabel_trimmed hbegins hne (Nat.not_lt.1 hlong)

theorem isLabelChar_decimal {c : Char} (h : c ∈ (toString n).toList) : isLabelChar c = true := by
  have hdigits : ∀ d < 10, isLabelChar (Nat.digitChar d) = true := by decide
  rw [toList_toString] at h
  obtain ⟨d, hd, rfl⟩ := Netip.mem_toDigits (by omega) h
  exact hdigits d hd

/-- What begins as a label is one with a number behind it. -/
theorem validLabel_numbered (h : Begins cs) (hne : cs ≠ [])
    (hlength : cs.length + ('-' :: (toString n).toList).length ≤ maxLabel) :
    validLabel (String.ofList (cs ++ '-' :: (toString n).toList)) = true := by
  have hdigits : (toString n).toList ≠ [] := toList_toString n ▸ Nat.toDigits_ne_nil
  rw [validLabel_iff, String.toList_ofList]
  refine ⟨by simp, ⟨fun c hc => ?_, fun c hc => ?_⟩, fun c hc => ?_, ?_⟩
  · rw [List.head?_append_of_ne_nil _ hne] at hc
    exact h.head c hc
  · rcases List.mem_append.1 hc with hc | hc
    · exact h.carried c hc
    · exact (List.mem_cons.1 hc).symm.imp_left isLabelChar_decimal
  · rw [List.getLast?_append_cons, List.getLast?_cons_of_ne_nil hdigits] at hc
    exact isLabelChar_decimal (List.mem_of_mem_getLast? hc)
  · rw [List.length_append]
    exact hlength

theorem suffixed_valid (h : validLabel base = true)
    (hn : (toString n).toList.length + 1 < maxLabel) : validLabel (suffixed base n) = true := by
  obtain ⟨hne, hbegins, -⟩ := validLabel_iff.1 h
  unfold suffixed
  dsimp only
  by_cases hroom : base.toList.length + ('-' :: (toString n).toList).length ≤ maxLabel
  · rw [if_pos hroom]
    exact validLabel_numbered hbegins hne hroom
  · rw [if_neg hroom]
    have hlen : ('-' :: (toString n).toList).length = (toString n).toList.length + 1 := rfl
    generalize hk : maxLabel - ('-' :: (toString n).toList).length = k
    have htaken := hbegins.of_front (List.take_prefix k base.toList)
    have hfront := prefix_trimRightHyphens (base.toList.take k)
    refine validLabel_numbered (htaken.of_front hfront) (trimRightHyphens_ne_nil htaken ?_) ?_
    · rw [Ne, List.take_eq_nil_iff, not_or]
      exact ⟨by omega, hne⟩
    · have := hfront.length_le
      have := List.length_take_le k base.toList
      omega

/-- The digits are what follows the last hyphen. -/
theorem rtakeWhile_suffixed (base : String) (n : Nat) :
    (suffixed base n).toList.rtakeWhile (· ≠ '-') = Nat.toDigits 10 n := by
  obtain ⟨front, hfront⟩ : ∃ front, (suffixed base n).toList = front ++ '-' :: (toString n).toList := by
    unfold suffixed
    dsimp only
    split
    · exact ⟨_, String.toList_ofList⟩
    · exact ⟨_, String.toList_ofList⟩
  have hdigits : ∀ c ∈ (toString n).toList.reverse, (decide (c ≠ '-')) = true := fun c hc =>
    Text.hyphen_notMem n c (List.mem_reverse.1 hc)
  rw [hfront, List.rtakeWhile, List.reverse_append, List.reverse_cons, List.append_assoc,
    List.takeWhile_append_of_pos hdigits]
  simp

theorem suffixed_injective (base : String) : Function.Injective (suffixed base) := by
  intro n m h
  have hdigits : Nat.toDigits 10 n = Nat.toDigits 10 m := by
    rw [← rtakeWhile_suffixed base n, h, rtakeWhile_suffixed]
  rw [← Nat.ofDigitChars_toDigits (n := n) (b := 10) (by decide) (by decide), hdigits,
    Nat.ofDigitChars_toDigits (by decide) (by decide)]

theorem utf8ByteSize_of_valid (h : validLabel s = true) : s.utf8ByteSize ≤ maxLabel := by
  obtain ⟨-, hbegins, -, hlength⟩ := validLabel_iff.1 h
  have hone : ∀ c : Char, isLabelChar c = true ∨ c = '-' → c.utf8Size = 1 := by
    rintro c (hc | rfl)
    · simp only [isLabelChar, Bool.or_eq_true, Bool.and_eq_true, decide_eq_true_eq] at hc
      rcases hc with hc | hc
      · exact Char.utf8Size_eq_one_iff.2 (UInt32.le_trans hc.2 (by decide))
      · exact Char.utf8Size_eq_one_iff.2 (UInt32.le_trans hc.2 (by decide))
    · rfl
  have hbytes : ∀ cs : List Char, (∀ c ∈ cs, isLabelChar c = true ∨ c = '-') →
      String.utf8Len cs = cs.length := by
    intro cs hcs
    induction cs with
    | nil => rfl
    | cons c cs ih =>
      rw [List.forall_mem_cons] at hcs
      rw [String.utf8Len_cons, hone c hcs.1, ih hcs.2, List.length_cons]
  rw [← String.ofList_toList (s := s), String.utf8ByteSize_ofList, hbytes _ hbegins.carried]
  exact hlength

/-- Every display name becomes nothing or a label; a label with a number behind it, which in the
program is an `int`, is a label again, and another one for each number. -/
theorem labels_usable (display base : String) :
    (label display = "" ∨
      validLabel (label display) = true ∧ (label display).utf8ByteSize ≤ 63) ∧
    (validLabel base = true →
      (∀ n, 1 ≤ n → n < 2 ^ 63 → validLabel (suffixed base n) = true) ∧
        ∀ n m, 1 ≤ n → 1 ≤ m → suffixed base n = suffixed base m → n = m) := by
  refine ⟨?_, fun hbase => ⟨fun n _ hn => suffixed_valid hbase ?_,
    fun n m _ _ h => suffixed_injective base h⟩⟩
  · by_cases h : label display = ""
    · exact .inl h
    · exact .inr ⟨label_valid h, utf8ByteSize_of_valid (label_valid h)⟩
  · have hlength : (Nat.toDigits 10 n).length ≤ 19 :=
      (Nat.length_toDigits_le_iff (by decide) (by decide)).2 (Nat.lt_trans hn (by decide))
    rw [toList_toString, maxLabel]
    omega

end Meshp.Dns
