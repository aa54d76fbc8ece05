import Meshp.Netip.Text

/-!
# Addresses and Prefixes Read Back

A prefix that was written out and is read again is the same prefix. Every text on
the wire is written by one side and parsed by the other, and what a policy or a
route means on the device is what its texts parse to.
-/

namespace Meshp.Netip

open List (append_assoc append_nil cons_append cons_ne_nil foldl intercalate length_append map
  mem_append mem_cons mem_map mem_singleton range singleton_append)

theorem digit?_digitChar : ∀ d < 10, digit? (Nat.digitChar d) = some d := by
  decide

theorem hexDigit?_digitChar : ∀ d < 16, hexDigit? (Nat.digitChar d) = some d := by
  decide

theorem number_concat (b : Nat) (val : Char → Option Nat) (cs : List Char) (c : Char) :
    number b val (cs ++ [c]) = (number b val cs).bind fun n => (val c).map (b * n + ·) := by
  simp only [number, List.foldlM_append, List.foldlM_cons, List.foldlM_nil]
  cases cs.foldlM (fun n c => (val c).map (b * n + ·)) 0 with
  | none => rfl
  | some n => cases val c <;> rfl

variable {b : Nat} {c : Char} {gs groups : List Nat}

theorem number_isSome {val : Char → Option Nat} {cs : List Char}
    (h : ∀ c ∈ cs, (val c).isSome = true) : ∃ v, number b val cs = some v := by
  induction cs using List.reverseRecOn with
  | nil => exact ⟨0, rfl⟩
  | append_singleton cs c ih =>
    obtain ⟨v, hv⟩ := ih fun d hd => h d (List.mem_append_left _ hd)
    obtain ⟨d, hd⟩ := Option.isSome_iff_exists.1 (h c (by simp))
    exact ⟨b * v + d, by rw [number_concat, hv, hd]; rfl⟩

theorem number_toDigits {val : Char → Option Nat} (hb : 1 < b)
    (hval : ∀ d < b, val (Nat.digitChar d) = some d) (n : Nat) :
    number b val (Nat.toDigits b n) = some n := by
  induction n using Nat.strongRecOn with
  | _ n ih =>
    by_cases hn : n < b
    · rw [Nat.toDigits_of_lt_base hn]
      simp [number, hval n hn]
    · have hlt : n / b < n := Nat.div_lt_self (by omega) hb
      rw [Nat.toDigits_of_base_le hb (by omega), number_concat, ih _ hlt, Option.bind_some,
        hval _ (Nat.mod_lt _ (by omega)), Option.map_some, Nat.div_add_mod]

theorem mem_toDigits {n : Nat} (hb : 1 < b) (h : c ∈ Nat.toDigits b n) :
    ∃ d < b, c = Nat.digitChar d := by
  induction n using Nat.strongRecOn with
  | _ n ih =>
    by_cases hn : n < b
    · rw [Nat.toDigits_of_lt_base hn] at h
      exact ⟨n, hn, mem_singleton.1 h⟩
    · rw [Nat.toDigits_of_base_le hb (by omega), mem_append, mem_singleton] at h
      rcases h with h | h
      · exact ih (n / b) (Nat.div_lt_self (by omega) hb) h
      · exact ⟨n % b, Nat.mod_lt _ (by omega), h⟩

theorem separator_notMem (n : Nat) (hb : 1 < b) (hb' : b ≤ 16) (hc : ∀ d < 16, Nat.digitChar d ≠ c) :
    c ∉ Nat.toDigits b n := by
  intro h
  rcases mem_toDigits hb h with ⟨d, hd, rfl⟩
  exact hc d (by omega) rfl

theorem parseOctet_toDigits : ∀ n < 256, parseOctet (Nat.toDigits 10 n) = some n := by
  decide +kernel

theorem parseIPv4_quadText (a : BitVec 32) : parseIPv4 (quadText a.toNat) = some a := by
  have hoctet : ∀ n, parseOctet (Nat.toDigits 10 (n % 256)) = some (n % 256) :=
    fun n => parseOctet_toDigits _ (Nat.mod_lt _ (by omega))
  have hsplit : (quadText a.toNat).splitOn '.' =
      [a.toNat / 2 ^ 24 % 256, a.toNat / 2 ^ 16 % 256, a.toNat / 2 ^ 8 % 256,
        a.toNat % 256].map (Nat.toDigits 10) := by
    refine List.splitOn_intercalate '.' (fun l hl => ?_) (by simp)
    rcases mem_map.1 hl with ⟨n, _, rfl⟩
    exact separator_notMem n (by omega) (by omega) (by decide)
  have hlt := a.isLt
  unfold parseIPv4
  rw [hsplit]
  simp only [List.map_cons, List.map_nil, List.mapM_cons, List.mapM_nil, hoctet,
    Option.pure_def, Option.bind_eq_bind, Option.bind_some]
  congr 1
  apply BitVec.eq_of_toNat_eq
  rw [BitVec.toNat_ofNat]
  omega

theorem isSome_hexDigit? (hb : 1 < b) (hb' : b ≤ 16) (n : Nat) :
    ∀ c ∈ Nat.toDigits b n, (hexDigit? c).isSome = true := by
  intro c hc
  rcases mem_toDigits hb hc with ⟨d, hd, rfl⟩
  rw [hexDigit?_digitChar d (by omega)]
  rfl

theorem span_group (hb : 1 < b) (hb' : b ≤ 16) (g : Nat) (rest : List Char)
    (hrest : ∀ c cs, rest = c :: cs → hexDigit? c = none) :
    ((Nat.toDigits b g ++ rest).takeWhile fun c => (hexDigit? c).isSome) = Nat.toDigits b g ∧
      ((Nat.toDigits b g ++ rest).dropWhile fun c => (hexDigit? c).isSome) = rest := by
  have hdigits := isSome_hexDigit? hb hb' g
  have hstop : (rest.takeWhile fun c => (hexDigit? c).isSome) = [] ∧
      (rest.dropWhile fun c => (hexDigit? c).isSome) = rest := by
    cases rest with
    | nil => exact ⟨rfl, rfl⟩
    | cons c cs => simp [hrest c cs rfl]
  constructor
  · rw [List.takeWhile_append_of_pos hdigits, hstop.1, append_nil]
  · rw [List.dropWhile_append_of_pos hdigits, hstop.2]

section Group

variable {g : Nat} (hg : g < 2 ^ 16) (fuel : Nat) (groups : List Nat) (ellipsis : Option Nat)

include hg

theorem group_read : ¬(Nat.toDigits 16 g = [] ∨ 4 < (Nat.toDigits 16 g).length) ∧
    number 16 hexDigit? (Nat.toDigits 16 g) = some g := by
  refine ⟨?_, number_toDigits (by omega) hexDigit?_digitChar g⟩
  rw [not_or]
  refine ⟨Nat.toDigits_ne_nil, ?_⟩
  have hlen := (Nat.length_toDigits_le_iff (b := 16) (n := g) (k := 4) (by omega) (by omega)).2
    (by omega)
  omega

theorem parseGroups_last :
    parseGroups (fuel + 1) groups ellipsis (Nat.toDigits 16 g) = some (groups ++ [g], ellipsis) := by
  rcases group_read hg with ⟨hlen, hnum⟩
  rcases span_group (b := 16) (by omega) (by omega) g [] (by simp) with ⟨htake, hdrop⟩
  rw [append_nil] at htake hdrop
  simp only [parseGroups, htake, hdrop, hlen, if_false, hnum]

theorem parseGroups_colon {c : Char} {cs : List Char} (hc : c ≠ ':') :
    parseGroups (fuel + 1) groups ellipsis (Nat.toDigits 16 g ++ ':' :: c :: cs) =
      parseGroups fuel (groups ++ [g]) ellipsis (c :: cs) := by
  rcases group_read hg with ⟨hlen, hnum⟩
  rcases span_group (b := 16) (by omega) (by omega) g (':' :: c :: cs) (by rintro _ _ ⟨⟩; decide) with ⟨htake, hdrop⟩
  rw [parseGroups]
  simp only [htake, hdrop, hlen, if_false, hnum]
  split <;> simp_all

theorem parseGroups_ellipsis (cs : List Char) :
    parseGroups (fuel + 1) groups none (Nat.toDigits 16 g ++ ':' :: ':' :: cs) =
      if cs = [] then some (groups ++ [g], some (groups.length + 1))
      else parseGroups fuel (groups ++ [g]) (some (groups.length + 1)) cs := by
  rcases group_read hg with ⟨hlen, hnum⟩
  rcases span_group (b := 16) (by omega) (by omega) g (':' :: ':' :: cs) (by rintro _ _ ⟨⟩; decide)
    with ⟨htake, hdrop⟩
  rw [parseGroups]
  simp only [htake, hdrop, hlen, if_false, hnum, Option.isSome_none, Bool.false_eq_true]

end Group

theorem head_ne_colon (g : Nat) : ∃ c cs, Nat.toDigits 16 g = c :: cs ∧ c ≠ ':' := by
  cases h : Nat.toDigits 16 g with
  | nil => exact absurd h Nat.toDigits_ne_nil
  | cons c cs =>
    refine ⟨c, cs, rfl, fun hc => ?_⟩
    exact separator_notMem g (by omega) (by omega) (by decide)
      (h ▸ hc ▸ (.head _) : ':' ∈ Nat.toDigits 16 g)

def colons (gs : List Nat) : List Char :=
  intercalate [':'] (gs.map (Nat.toDigits 16))

theorem colons_one (g : Nat) : colons [g] = Nat.toDigits 16 g := by
  simp [colons, intercalate]

theorem colons_cons (g g' : Nat) (gs : List Nat) :
    colons (g :: g' :: gs) = Nat.toDigits 16 g ++ ':' :: colons (g' :: gs) := by
  simp [colons, intercalate]

theorem colons_head (g : Nat) (gs : List Nat) : ∃ c cs, colons (g :: gs) = c :: cs ∧ c ≠ ':' := by
  rcases head_ne_colon g with ⟨c, cs, h, hc⟩
  cases gs with
  | nil => exact ⟨c, cs, by rw [colons_one, h], hc⟩
  | cons g' gs => exact ⟨c, cs ++ ':' :: colons (g' :: gs), by rw [colons_cons, h]; rfl, hc⟩

theorem parseGroups_colons (hne : gs ≠ []) (hgs : ∀ g ∈ gs, g < 2 ^ 16) (fuel : Nat)
    (hfuel : gs.length ≤ fuel) (groups : List Nat) (ellipsis : Option Nat) :
    parseGroups fuel groups ellipsis (colons gs) = some (groups ++ gs, ellipsis) := by
  induction gs generalizing fuel groups with
  | nil => exact absurd rfl hne
  | cons g gs ih =>
    cases fuel with
    | zero => simp at hfuel
    | succ fuel =>
      have hg := hgs g (.head _)
      cases gs with
      | nil =>
        rw [colons_one, parseGroups_last hg]
      | cons g' gs =>
        rcases colons_head g' gs with ⟨c, cs, hcs, hc⟩
        rw [colons_cons, hcs, parseGroups_colon hg fuel groups ellipsis hc, ← hcs,
          ih (cons_ne_nil _ _) (fun x hx => hgs x (.tail _ hx)) fuel
            (by simpa using hfuel), append_assoc, singleton_append]

theorem parseGroups_colons_ellipsis (hne : gs ≠ []) (hgs : ∀ g ∈ gs, g < 2 ^ 16) (fuel : Nat)
    (hfuel : gs.length ≤ fuel) (groups : List Nat) (cs : List Char) :
    parseGroups fuel groups none (colons gs ++ ':' :: ':' :: cs) =
      if cs = [] then some (groups ++ gs, some (groups.length + gs.length))
      else parseGroups (fuel - gs.length) (groups ++ gs) (some (groups.length + gs.length)) cs := by
  induction gs generalizing fuel groups with
  | nil => exact absurd rfl hne
  | cons g gs ih =>
    cases fuel with
    | zero => simp at hfuel
    | succ fuel =>
      have hg := hgs g (.head _)
      cases gs with
      | nil =>
        rw [colons_one, parseGroups_ellipsis hg]
        simp
      | cons g' gs =>
        rcases colons_head g' gs with ⟨c, cs', hcs, hc⟩
        rw [colons_cons, append_assoc, cons_append, hcs, cons_append,
          parseGroups_colon hg fuel groups none hc, ← cons_append, ← hcs,
          ih (cons_ne_nil _ _) (fun x hx => hgs x (.tail _ hx)) fuel
            (by simpa using hfuel)]
        simp only [append_assoc, singleton_append, length_append,
          List.length_cons, List.length_nil, Nat.add_sub_add_right, Nat.zero_add,
          Nat.add_assoc, Nat.add_comm 1]

/-- The run `zeroRun` settles on is one: the groups there are zeros. -/
def Zeros (groups : List Nat) (run : Nat × Nat) : Prop :=
  groups = groups.take run.1 ++ List.replicate run.2 0 ++ groups.drop (run.1 + run.2)

theorem zeros_here (before gs : List Nat) :
    Zeros (before ++ gs) (before.length, (gs.takeWhile (· = 0)).length) := by
  have hzeros : gs.takeWhile (· = 0) = List.replicate (gs.takeWhile (· = 0)).length 0 :=
    List.eq_replicate_iff.2 ⟨rfl, fun g hg => by simpa using List.mem_takeWhile_imp hg⟩
  have hdrop : gs.drop (gs.takeWhile (· = 0)).length = gs.dropWhile (· = 0) := by
    nth_rewrite 2 [← List.takeWhile_append_dropWhile (p := (· = 0)) (l := gs)]
    rw [List.drop_left]
  rw [Zeros, List.take_left, List.drop_append, ← hzeros]
  simp [List.drop_eq_nil_of_le, hdrop, List.takeWhile_append_dropWhile]

theorem zeroRun_zeros (before gs : List Nat) (best : Nat × Nat)
    (hbest : Zeros (before ++ gs) best) :
    Zeros (before ++ gs) (zeroRun best before.length gs) := by
  induction gs generalizing before best with
  | nil => exact hbest
  | cons g gs ih =>
    have hnext := ih (before ++ [g])
      (if 2 ≤ ((g :: gs).takeWhile (· = 0)).length ∧
        best.2 < ((g :: gs).takeWhile (· = 0)).length
        then (before.length, ((g :: gs).takeWhile (· = 0)).length) else best)
    simp only [append_assoc, singleton_append, length_append,
      List.length_singleton] at hnext
    refine hnext ?_
    split
    · exact zeros_here before (g :: gs)
    · exact hbest

theorem groupsText_eq (groups : List Nat) :
    ∃ start len, Zeros groups (start, len) ∧
      groupsText groups = if len = 0 then colons groups
        else colons (groups.take start) ++ ':' :: ':' :: colons (groups.drop (start + len)) := by
  have hzeros := zeroRun_zeros [] groups (0, 0) (by simp [Zeros])
  simp only [List.nil_append, List.length_nil] at hzeros
  refine ⟨_, _, hzeros, ?_⟩
  unfold groupsText
  generalize zeroRun (0, 0) 0 groups = run
  obtain ⟨start, len⟩ := run
  cases len with
  | zero => rfl
  | succ len => simp [colons, List.map_take, List.map_drop]

def ofGroups (groups : List Nat) : BitVec 128 :=
  BitVec.ofNat 128 (groups.foldl (fun n g => n * 2 ^ 16 + g) 0)

theorem parseIPv6_ellipsis {rest : List Char} (hrest : rest ≠ []) :
    parseIPv6 (':' :: ':' :: rest) =
      ((parseGroups 8 [] (some 0) rest).bind expandGroups).map ofGroups := by
  cases rest with
  | nil => exact absurd rfl hrest
  | cons c cs => rfl

theorem parseIPv6_digit (hc : c ≠ ':') (cs : List Char) :
    parseIPv6 (c :: cs) =
      ((parseGroups 8 [] none (c :: cs)).bind expandGroups).map ofGroups := by
  unfold parseIPv6
  split
  · simp_all
  · simp_all
  · rfl

theorem expandGroups_zeros (h8 : groups.length = 8) {start len : Nat}
    (hzeros : Zeros groups (start, len)) (hlen : len ≠ 0) :
    expandGroups (groups.take start ++ groups.drop (start + len),
      some (groups.take start).length) = some groups := by
  have hlength := congrArg List.length hzeros
  simp only [length_append, List.length_replicate] at hlength
  have hshort : (groups.take start).length + (groups.drop (start + len)).length = 8 - len := by
    omega
  have hfill : 8 - (8 - len) = len := by omega
  rw [expandGroups, length_append, hshort, if_pos (by omega), hfill, List.take_left,
    List.drop_left, ← hzeros]

theorem parseIPv6_groupsText (h8 : groups.length = 8) (hsmall : ∀ g ∈ groups, g < 2 ^ 16) :
    parseIPv6 (groupsText groups) = some (ofGroups groups) := by
  obtain ⟨start, len, hzeros, htext⟩ := groupsText_eq groups
  rw [htext]
  by_cases hlen : len = 0
  · -- No run: eight groups, and the first character is a digit.
    rw [if_pos hlen]
    obtain ⟨g, gs, rfl⟩ := List.exists_cons_of_ne_nil (l := groups) (by rintro rfl; simp at h8)
    rcases colons_head g gs with ⟨c, cs, hcs, hc⟩
    rw [hcs, parseIPv6_digit hc, ← hcs,
      parseGroups_colons (cons_ne_nil _ _) hsmall 8 (by omega)]
    simp [expandGroups, h8]
  · rw [if_neg hlen]
    have hexpand := expandGroups_zeros h8 hzeros hlen
    have hA : ∀ g ∈ groups.take start, g < 2 ^ 16 := fun g hg => hsmall g (List.mem_of_mem_take hg)
    have hB : ∀ g ∈ groups.drop (start + len), g < 2 ^ 16 := fun g hg =>
      hsmall g (List.mem_of_mem_drop hg)
    have hroom : (groups.take start).length + (groups.drop (start + len)).length ≤ 8 := by
      simp only [List.length_take, List.length_drop]; omega
    generalize groups.take start = A at *
    generalize groups.drop (start + len) = B at *
    -- The groups on either side of the run are all that is read.
    suffices hread : parseIPv6 (colons A ++ ':' :: ':' :: colons B) =
        (expandGroups (A ++ B, some A.length)).map ofGroups by
      rw [hread, hexpand]; rfl
    rcases A with _ | ⟨a, as⟩
    · rcases B with _ | ⟨b, bs⟩
      · rfl
      · rcases colons_head b bs with ⟨c, cs, hcs, -⟩
        change parseIPv6 (':' :: ':' :: colons (b :: bs)) = _
        rw [parseIPv6_ellipsis (by rw [hcs]; exact cons_ne_nil _ _),
          parseGroups_colons (cons_ne_nil _ _) hB 8 (by simpa using hroom)]
        rfl
    · rcases colons_head a as with ⟨c, cs, hcs, hc⟩
      rw [hcs, cons_append, parseIPv6_digit hc, ← cons_append, ← hcs,
        parseGroups_colons_ellipsis (cons_ne_nil _ _) hA 8 (by omega)]
      rcases B with _ | ⟨b, bs⟩
      · rw [if_pos (by rfl)]
        simp
      · rcases colons_head b bs with ⟨c', cs', hcs', -⟩
        rw [if_neg (by rw [hcs']; exact cons_ne_nil _ _),
          parseGroups_colons (cons_ne_nil _ _) hB _ (by omega)]
        simp

theorem groupsOf_length (n : Nat) : (groupsOf n).length = 8 := by
  simp [groupsOf]

theorem groupsOf_small (n : Nat) : ∀ g ∈ groupsOf n, g < 2 ^ 16 := by
  intro g hg
  obtain ⟨i, -, rfl⟩ := mem_map.1 hg
  exact Nat.mod_lt _ (by omega)

theorem ofGroups_groupsOf (a : BitVec 128) : ofGroups (groupsOf a.toNat) = a := by
  have hlt := a.isLt
  have hfold : (groupsOf a.toNat).foldl (fun n g => n * 2 ^ 16 + g) 0 = a.toNat := by
    simp only [groupsOf, range, range.loop, map, foldl]
    omega
  rw [ofGroups, hfold, BitVec.ofNat_toNat, BitVec.setWidth_eq]

theorem quadText_eq (n : Nat) : ∃ rest, quadText n = Nat.toDigits 10 (n / 2 ^ 24 % 256) ++ '.' :: rest := by
  exact ⟨_, by simp [quadText, intercalate]; rfl⟩

theorem parseGroups_quad (n : Nat) (hn : n < 2 ^ 32) (groups : List Nat) (hgroups : groups.length ≤ 6)
    (fuel at' : Nat) :
    parseGroups (fuel + 1) groups (some at') (quadText n) =
      some (groups ++ [n / 2 ^ 16, n % 2 ^ 16], some at') := by
  have hquad := parseIPv4_quadText (BitVec.ofNat 32 n)
  rw [BitVec.toNat_ofNat, Nat.mod_eq_of_lt hn] at hquad
  rcases quadText_eq n with ⟨rest, hrest⟩
  rcases span_group (b := 10) (by omega) (by omega) (n / 2 ^ 24 % 256) ('.' :: rest)
    (by rintro _ _ ⟨⟩; decide) with ⟨htake, hdrop⟩
  rw [← hrest] at htake hdrop
  have hlen : (Nat.toDigits 10 (n / 2 ^ 24 % 256)).length ≤ 4 :=
    (Nat.length_toDigits_le_iff (by omega) (by omega)).2 (by omega)
  have hshape : ¬(Nat.toDigits 10 (n / 2 ^ 24 % 256) = [] ∨
      4 < (Nat.toDigits 10 (n / 2 ^ 24 % 256)).length) := by
    rw [not_or]
    exact ⟨Nat.toDigits_ne_nil, by omega⟩
  -- What the decimal digits of the first field say in hexadecimal does not
  -- matter, only that they say something.
  obtain ⟨v, hv⟩ := number_isSome (b := 16)
    (isSome_hexDigit? (b := 10) (by omega) (by omega) (n / 2 ^ 24 % 256))
  have hroom : ¬(some at' = none ∧ groups.length ≠ 6 ∨ 6 < groups.length) := by
    rintro (⟨⟨⟩, -⟩ | h)
    omega
  rw [parseGroups]
  simp only [htake, hdrop, hshape, if_false, hv, hroom, hquad, Option.map_some, BitVec.toNat_ofNat,
    Nat.mod_eq_of_lt hn]

theorem parseIPv6_mapped (a : BitVec 128) (hmapped : a.toNat / 2 ^ 32 = 0xffff) :
    parseIPv6 ("::ffff:".toList ++ quadText (a.toNat % 2 ^ 32)) = some a := by
  rcases quadText_eq (a.toNat % 2 ^ 32) with ⟨rest, hrest⟩
  obtain ⟨c, cs, hc⟩ := List.exists_cons_of_ne_nil
    (Nat.toDigits_ne_nil : Nat.toDigits 10 (a.toNat % 2 ^ 32 / 2 ^ 24 % 256) ≠ [])
  have hcolon : c ≠ ':' := by
    rintro rfl
    exact separator_notMem _ (by omega) (by omega) (by decide)
      (hc ▸ (.head _) : ':' ∈ Nat.toDigits 10 (a.toNat % 2 ^ 32 / 2 ^ 24 % 256))
  have hhead : quadText (a.toNat % 2 ^ 32) = c :: (cs ++ '.' :: rest) := by
    rw [hrest, hc, cons_append]
  have hffff : "ffff:".toList = Nat.toDigits 16 0xffff ++ [':'] := by decide
  have hgroups : parseGroups 8 [] (some 0) ("ffff:".toList ++ quadText (a.toNat % 2 ^ 32)) =
      some ([0xffff, a.toNat % 2 ^ 32 / 2 ^ 16, a.toNat % 2 ^ 32 % 2 ^ 16], some 0) := by
    rw [hffff, append_assoc, singleton_append, hhead,
      parseGroups_colon (by omega) 7 [] (some 0) hcolon, ← hhead,
      parseGroups_quad _ (Nat.mod_lt _ (by omega)) _ (by simp)]
    rfl
  have hsplit : "::ffff:".toList ++ quadText (a.toNat % 2 ^ 32) =
      ':' :: ':' :: ("ffff:".toList ++ quadText (a.toNat % 2 ^ 32)) := rfl
  rw [hsplit, parseIPv6_ellipsis (by rw [hffff]; simp), hgroups]
  have hlt := a.isLt
  have hvalue : [0, 0, 0, 0, 0, 0xffff, a.toNat % 2 ^ 32 / 2 ^ 16, a.toNat % 2 ^ 32 % 2 ^ 16].foldl
      (fun n g => n * 2 ^ 16 + g) 0 = a.toNat := by
    simp only [foldl]
    omega
  change some (BitVec.ofNat 128 (foldl _ 0 [0, 0, 0, 0, 0, 0xffff, _, _])) = some a
  rw [hvalue, BitVec.ofNat_toNat, BitVec.setWidth_eq]

def isMark (c : Char) : Bool :=
  c = '.' || c = ':' || c = '%'

theorem find?_mark (hb : 1 < b) (hb16 : b ≤ 16) (n : Nat) (hc : isMark c = true) (rest : List Char) :
    (Nat.toDigits b n ++ c :: rest).find? isMark = some c := by
  have hnone : (Nat.toDigits b n).find? isMark = none := by
    rw [List.find?_eq_none]
    intro d hd
    rcases mem_toDigits hb hd with ⟨v, hv, rfl⟩
    have hv16 : v < 16 := by omega
    clear hd hv
    interval_cases v <;> decide
  rw [List.find?_append, hnone, Option.none_or, List.find?_cons_of_pos hc]

theorem parseAddrZone_quadText (a : BitVec 32) :
    parseAddrZone (quadText a.toNat) = some (.v4 a, false) := by
  rcases quadText_eq a.toNat with ⟨rest, hrest⟩
  have hfind : (quadText a.toNat).find? (fun c => c = '.' || c = ':' || c = '%') = some '.' := by
    rw [hrest]
    exact find?_mark (by omega) (by omega) _ (by decide) rest
  simp only [parseAddrZone, hfind, parseIPv4_quadText, Option.map_some]

theorem parseAddrZone_colon {cs : List Char}
    (hfind : cs.find? (fun c => c = '.' || c = ':' || c = '%') = some ':') (hzone : '%' ∉ cs) :
    parseAddrZone cs = (parseIPv6 cs).map fun a => (.v6 a, false) := by
  have hall : ∀ c ∈ cs, (decide (c ≠ '%')) = true := by
    intro c hc
    rw [decide_eq_true_eq]
    rintro rfl
    exact hzone hc
  have htake : cs.takeWhile (· ≠ '%') = cs := List.takeWhile_eq_self_iff.2 hall
  have hdrop : cs.dropWhile (· ≠ '%') = [] := List.dropWhile_eq_nil_iff.2 hall
  simp only [parseAddrZone, hfind, htake, hdrop, List.isEmpty_nil, Bool.not_true]

theorem colons_mark (g : Nat) (gs : List Nat) (cs : List Char) :
    (colons (g :: gs) ++ ':' :: cs).find? isMark = some ':' := by
  cases gs with
  | nil =>
    rw [colons_one]
    exact find?_mark (by omega) (by omega) g (by decide) cs
  | cons g' gs =>
    rw [colons_cons, append_assoc, cons_append]
    exact find?_mark (by omega) (by omega) g (by decide) _

theorem groupsText_mark (h8 : groups.length = 8) : (groupsText groups).find? isMark = some ':' := by
  obtain ⟨start, len, -, htext⟩ := groupsText_eq groups
  rw [htext]
  split
  · obtain ⟨g, gs, rfl⟩ := List.exists_cons_of_ne_nil (l := groups) (by rintro rfl; simp at h8)
    obtain ⟨g', gs, rfl⟩ := List.exists_cons_of_ne_nil (l := gs) (by rintro rfl; simp at h8)
    rw [colons_cons]
    exact find?_mark (by omega) (by omega) g (by decide) _
  · cases groups.take start with
    | nil => rfl
    | cons g gs => exact colons_mark g gs _

theorem mem_colons (h : c ∈ colons gs) : c = ':' ∨ ∃ g, c ∈ Nat.toDigits 16 g := by
  induction gs with
  | nil => simp [colons, intercalate] at h
  | cons g gs ih =>
    cases gs with
    | nil => exact .inr ⟨g, colons_one g ▸ h⟩
    | cons g' gs =>
      rw [colons_cons, mem_append, mem_cons] at h
      rcases h with h | h | h
      · exact .inr ⟨g, h⟩
      · exact .inl h
      · exact ih h

theorem notMem_groupsText (hc : ∀ d < 16, Nat.digitChar d ≠ c) (hcolon : c ≠ ':')
    (groups : List Nat) : c ∉ groupsText groups := by
  have hcolons : ∀ gs, c ∉ colons gs := by
    intro gs h
    rcases mem_colons h with h | ⟨g, h⟩
    · exact hcolon h
    · exact separator_notMem g (by omega) (by omega) hc h
  obtain ⟨start, len, -, htext⟩ := groupsText_eq groups
  rw [htext]
  split
  · exact hcolons groups
  · simp only [mem_append, mem_cons, not_or]
    exact ⟨hcolons _, hcolon, hcolon, hcolons _⟩

theorem notMem_quadText (hc : ∀ d < 16, Nat.digitChar d ≠ c) (hdot : c ≠ '.') (n : Nat) :
    c ∉ quadText n := by
  simp only [quadText, intercalate, map, List.intersperse, List.flatten_cons,
    List.flatten_nil, mem_append, mem_singleton, List.not_mem_nil, or_false, not_or]
  have hdigits : ∀ k, c ∉ Nat.toDigits 10 k := fun k h =>
    separator_notMem k (by omega) (by omega) hc h
  exact ⟨hdigits _, hdot, hdigits _, hdot, hdigits _, hdot, hdigits _⟩

theorem parseAddrZone_text (a : Addr) : parseAddrZone a.text.toList = some (a, false) := by
  cases a with
  | v4 a => rw [Addr.text, String.toList_ofList, parseAddrZone_quadText]
  | v6 a =>
    rw [Addr.text]
    split
    next hmapped =>
      have hzone : '%' ∉ "::ffff:".toList ++ quadText (a.toNat % 2 ^ 32) := by
        rw [mem_append, not_or]
        exact ⟨by decide, notMem_quadText (by decide) (by decide) _⟩
      rw [String.toList_ofList, parseAddrZone_colon rfl hzone, parseIPv6_mapped a hmapped]
      rfl
    next =>
      rw [String.toList_ofList, parseAddrZone_colon (groupsText_mark (groupsOf_length _))
          (notMem_groupsText (by decide) (by decide) _),
        parseIPv6_groupsText (groupsOf_length _) (groupsOf_small _), ofGroups_groupsOf]
      rfl

theorem splitSlash_append (cs : List Char) {bits : List Char} (h : '/' ∉ bits) :
    splitSlash (cs ++ '/' :: bits) = some (cs, bits) := by
  have hall : ∀ c ∈ bits.reverse, (decide (c ≠ '/')) = true := by
    intro c hc
    rw [decide_eq_true_eq]
    rintro rfl
    exact h (List.mem_reverse.1 hc)
  have hreverse : (cs ++ '/' :: bits).reverse = bits.reverse ++ '/' :: cs.reverse := by simp
  have htake : ('/' :: cs.reverse).takeWhile (· ≠ '/') = [] := by simp
  have hdrop : ('/' :: cs.reverse).dropWhile (· ≠ '/') = '/' :: cs.reverse := by simp
  simp only [splitSlash, hreverse, List.takeWhile_append_of_pos hall,
    List.dropWhile_append_of_pos hall, htake, hdrop, append_nil, List.reverse_reverse]

theorem parseBits_toDigits : ∀ n ≤ 128, parseBits (Nat.toDigits 10 n) = some n := by
  decide

theorem parsePrefix_text (p : Prefix) : parsePrefix p.text = some p := by
  have hroom : p.addr.bitLen ≤ 128 := by cases p.addr <;> simp [Addr.bitLen]
  have hbits := parseBits_toDigits p.bits (Nat.le_trans p.valid hroom)
  have hslash : '/' ∉ Nat.toDigits 10 p.bits :=
    separator_notMem _ (by omega) (by omega) (by decide)
  have htext : p.text.toList = p.addr.text.toList ++ '/' :: Nat.toDigits 10 p.bits := by
    simp [Prefix.text]
  rw [parsePrefix, htext, splitSlash_append _ hslash]
  simp only [parseAddrZone_text, hbits, p.valid, dif_pos]

end Meshp.Netip
