import Meshp.Base.Text
import Meshp.Netip.RoundTrip

/-!
# Decimal Numbers as Text

A number written in decimal is read back by `strconv.Atoi`, holds no space to
trim and no hyphen to cut at. That is what makes a port, or two of them with a
hyphen between, survive being written down and read again.
-/

namespace Meshp.Text

theorem toList_toString (n : Nat) : (toString n).toList = Nat.toDigits 10 n :=
  Nat.toList_repr

theorem mem_decimal {n : Nat} {c : Char} (h : c ∈ Nat.toDigits 10 n) :
    isSpace c = false ∧ c ≠ '-' ∧ c ≠ '+' := by
  have hdigits : ∀ d < 10, isSpace (Nat.digitChar d) = false ∧ Nat.digitChar d ≠ '-' ∧
      Nat.digitChar d ≠ '+' := by
    decide
  obtain ⟨d, hd, rfl⟩ := Netip.mem_toDigits (by omega) h
  exact hdigits d hd

theorem dropWhile_space {cs : List Char} (h : ∀ c ∈ cs, isSpace c = false) :
    cs.dropWhile isSpace = cs := by
  cases cs with
  | nil => rfl
  | cons c cs => rw [List.dropWhile_cons_of_neg (by simp [h c (.head _)])]

theorem trimSpace_eq_self {s : String} (h : ∀ c ∈ s.toList, isSpace c = false) :
    trimSpace s = s := by
  have hreverse : ∀ c ∈ s.toList.reverse, isSpace c = false := fun c hc =>
    h c (List.mem_reverse.1 hc)
  rw [trimSpace, dropWhile_space h, dropWhile_space hreverse, List.reverse_reverse,
    String.ofList_toList]

theorem trimSpace_toString (n : Nat) : trimSpace (toString n) = toString n := by
  refine trimSpace_eq_self fun c hc => ?_
  rw [toList_toString] at hc
  exact (mem_decimal hc).1

theorem trimSpace_range (n m : Nat) :
    trimSpace (toString n ++ "-" ++ toString m) = toString n ++ "-" ++ toString m := by
  refine trimSpace_eq_self fun c hc => ?_
  simp only [String.toList_append, List.mem_append, toList_toString] at hc
  rcases hc with (hc | hc) | hc
  · exact (mem_decimal hc).1
  · obtain rfl := List.mem_singleton.1 hc
    rfl
  · exact (mem_decimal hc).1

theorem atoi_toString {n : Nat} (hn : n < 2 ^ 63) : atoi (toString n) = some (n : Int) := by
  have hdigits : atoiDigits (Nat.toDigits 10 n) = some n := by
    cases hcs : Nat.toDigits 10 n with
    | nil => exact absurd hcs Nat.toDigits_ne_nil
    | cons c cs =>
      rw [atoiDigits, ← hcs, Netip.number_toDigits (by omega) Netip.digit?_digitChar]
      · simpa using hn
      · simp
  unfold atoi
  rw [toList_toString]
  split
  · rename_i cs hcs
    exact absurd rfl (mem_decimal (n := n) (hcs ▸ (.head _))).2.2
  · rename_i cs hcs
    exact absurd rfl (mem_decimal (n := n) (hcs ▸ (.head _))).2.1
  · rw [hdigits]
    rfl

theorem hyphen_notMem (n : Nat) : ∀ c ∈ (toString n).toList, (decide (c ≠ '-')) = true := by
  intro c hc
  rw [toList_toString] at hc
  simpa using (mem_decimal hc).2.1

theorem cut_toString (n : Nat) : cut '-' (toString n) = (toString n, none) := by
  have hdrop : (toString n).toList.dropWhile (· ≠ '-') = [] :=
    List.dropWhile_eq_nil_iff.2 (hyphen_notMem n)
  simp only [cut, hdrop]

theorem cut_range (n m : Nat) :
    cut '-' (toString n ++ "-" ++ toString m) = (toString n, some (toString m)) := by
  have hlist : (toString n ++ "-" ++ toString m).toList =
      (toString n).toList ++ '-' :: (toString m).toList := by
    simp
  have htake : ('-' :: (toString m).toList).takeWhile (· ≠ '-') = [] := by simp
  have hdrop : ('-' :: (toString m).toList).dropWhile (· ≠ '-') = '-' :: (toString m).toList := by
    simp
  simp only [cut, hlist, List.takeWhile_append_of_pos (hyphen_notMem n),
    List.dropWhile_append_of_pos (hyphen_notMem n), htake, hdrop, List.append_nil,
    String.ofList_toList]

end Meshp.Text
