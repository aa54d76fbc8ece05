import Meshp.Egress.Carveout
import Meshp.Netip.Range
import Meshp.Pf.Render

/-!
# What an Exclusion Comes To

An exclusion passes through three hands before it is a line of a lock: the
carve-out unmaps and masks it, and each renderer does so again. Its length stays
what it was, so that an IPv4-mapped one longer than an IPv4 address makes a prefix
that is none. The renderers leave such a prefix out.
-/

namespace Meshp.Egress

open Netip (Addr Prefix parsePrefix)
open Nftables (normalPrefix splitPrefixes mem_splitPrefixes normalPrefix_of_not_mapped)

def supplied (input : Inputs) : List Prefix :=
  alwaysExcluded ++ input.localPrefixes.reduceOption ++
    input.extraPrefixes.filterMap fun raw => parsePrefix (Text.trimSpace raw)

def locked (carve : Carveout) : List (Option Prefix) :=
  [.ip, .ip6].flatMap (splitPrefixes · carve.prefixes.reduceOption)

def Covers (p : Prefix) (a : Addr) : Prop :=
  ∃ b, b.unmap = a.unmap ∧ p.contains b = true

def Proper (input : Inputs) (p : Option Prefix) : Prop :=
  ∃ q, p = some q ∧ q.masked = q ∧ q.bits ≠ 0 ∧
    ∃ e ∈ supplied input, ∀ a, Covers q a → Covers e a

variable {e q : Prefix}

theorem normalPrefix_eq_none_iff :
    normalPrefix e = none ↔ e.addr.is4In6 = true ∧ 32 < e.bits := by
  cases hmapped : e.addr.is4In6 with
  | false => simp [normalPrefix_of_not_mapped hmapped]
  | true => simp [normalPrefix, Prefix.ofBits?, Addr.bitLen_unmap_of_is4In6 hmapped]

theorem normalPrefix_eq_some (h : normalPrefix e = some q) :
    ∃ hbits : e.bits ≤ e.addr.unmap.bitLen, q = Prefix.masked ⟨e.addr.unmap, e.bits, hbits⟩ := by
  obtain ⟨p, hp, rfl⟩ := Option.map_eq_some_iff.1 h
  unfold Prefix.ofBits? at hp
  split at hp
  · cases hp
    exact ⟨‹_›, rfl⟩
  · cases hp

theorem not_is4In6_mask (n : Nat) {a : Addr} (h : a.is4In6 = false) :
    (a.mask n).is4In6 = false := by
  cases a with
  | v4 a => rfl
  | v6 a =>
    have hmask : (Addr.mask n (.v6 a)).toNat = a.toNat / 2 ^ (128 - n) * 2 ^ (128 - n) :=
      Addr.toNat_mask n (.v6 a)
    change decide ((Addr.mask n (.v6 a)).toNat / 2 ^ 32 = 0xffff) = false
    simp only [Addr.is4In6, decide_eq_false_iff_not, hmask] at h ⊢
    intro hmapped
    by_cases hn : 128 - n ≤ 32
    · obtain ⟨k, hk⟩ := Nat.exists_eq_add_of_le hn
      rw [hk, Nat.pow_add, ← Nat.div_div_eq_div_mul, Nat.mul_div_cancel _ (Nat.two_pow_pos _),
        Nat.div_div_eq_div_mul, ← Nat.pow_add, ← hk] at hmapped
      exact h hmapped
    · obtain ⟨k, hk⟩ := Nat.exists_eq_add_of_lt (Nat.lt_of_not_le hn)
      have heven : a.toNat / 2 ^ (128 - n) * 2 ^ (128 - n) =
          2 ^ 32 * (2 * (a.toNat / 2 ^ (128 - n) * 2 ^ k)) := by
        rw [hk]
        ring
      rw [heven, Nat.mul_div_cancel_left _ (Nat.two_pow_pos _)] at hmapped
      omega

theorem not_is4In6_of_normal (h : normalPrefix e = some q) : q.addr.is4In6 = false := by
  obtain ⟨_, rfl⟩ := normalPrefix_eq_some h
  refine not_is4In6_mask e.bits ?_
  change e.addr.unmap.is4In6 = false
  cases e.addr with
  | v4 a => rfl
  | v6 a =>
    simp only [Addr.unmap]
    split_ifs with hmapped
    · rfl
    · exact decide_eq_false hmapped

theorem normalPrefix_normal (h : normalPrefix e = some q) : normalPrefix q = some q := by
  rw [normalPrefix_of_not_mapped (not_is4In6_of_normal h)]
  obtain ⟨_, rfl⟩ := normalPrefix_eq_some h
  rw [Prefix.masked_masked]

theorem covers_of_normal (h : normalPrefix e = some q) {a : Addr} (ha : Covers q a) : Covers e a := by
  cases hmapped : e.addr.is4In6 with
  | false =>
    rw [normalPrefix_of_not_mapped hmapped] at h
    cases h
    simpa [Covers] using ha
  | true =>
    obtain ⟨hbits, rfl⟩ := normalPrefix_eq_some h
    rw [Addr.bitLen_unmap_of_is4In6 hmapped] at hbits
    obtain ⟨b, hb, hcontains⟩ := ha
    obtain ⟨⟨c⟩ | ⟨v⟩, bits, hvalid⟩ := e
    · cases hmapped
    · simp only [Addr.is4In6, decide_eq_true_eq] at hmapped
      cases b with
      | v6 b =>
        rw [Prefix.contains_masked, Prefix.contains] at hcontains
        simp only [Addr.unmap, if_pos hmapped, Addr.agree, Bool.false_eq_true] at hcontains
      | v4 c =>
        -- The mapped form of the same address is in the exclusion, which is at most a `/32`.
        have hc := c.isLt
        have hform : (BitVec.ofNat 128 (0xffff * 2 ^ 32 + c.toNat)).toNat = 0xffff * 2 ^ 32 + c.toNat := by
          rw [BitVec.toNat_ofNat]
          omega
        have hshift : 96 ≤ 128 - bits := Nat.le_sub_of_add_le (Nat.add_le_add_left hbits 96)
        have hsize : 2 ^ 96 ≤ 2 ^ (128 - bits) := Nat.pow_le_pow_right (by decide) hshift
        refine ⟨.v6 (BitVec.ofNat 128 (0xffff * 2 ^ 32 + c.toNat)), ?_, Prefix.contains_iff.2 ⟨rfl, ?_⟩⟩
        · rw [← hb]
          simp only [Addr.unmap, hform]
          rw [if_pos (by omega), Addr.v4.injEq]
          refine BitVec.eq_of_toNat_eq ?_
          rw [BitVec.toNat_ofNat]
          omega
        · change v.toNat / 2 ^ (128 - bits) = (BitVec.ofNat 128 _).toNat / 2 ^ (128 - bits)
          rw [hform, Nat.div_eq_of_lt (by omega), Nat.div_eq_of_lt (by omega)]

variable {input : Inputs} {resolve : Resolver} {carve : Carveout}

theorem mem_prefixes_iff (h : compute input resolve = some carve) {p : Option Prefix} :
    p ∈ carve.prefixes ↔ ∃ e ∈ supplied input, e.bits ≠ 0 ∧ normalPrefix e = p := by
  obtain ⟨control, -, hcarve⟩ := Option.bind_eq_some_iff.1 h
  cases hcarve
  change p ∈ normalise (supplied input) ↔ _
  simp only [normalise, List.mem_insertionSort, List.mem_dedup, List.mem_map, List.mem_filter,
    decide_eq_true_eq, and_assoc]
  rfl

theorem mem_locked_iff (h : compute input resolve = some carve) {p : Option Prefix} :
    p ∈ locked carve ↔ ∃ q, p = some q ∧ some q ∈ carve.prefixes := by
  have hnormal : ∀ q, some q ∈ carve.prefixes → normalPrefix q = some q := by
    intro q hq
    obtain ⟨e, -, -, he⟩ := (mem_prefixes_iff h).1 hq
    exact normalPrefix_normal he
  simp only [locked, List.mem_flatMap, mem_splitPrefixes, List.reduceOption_mem_iff]
  constructor
  · rintro ⟨family, -, ⟨q, hq, rfl⟩, -⟩
    exact ⟨q, hnormal q hq, hq⟩
  · rintro ⟨q, rfl, hq⟩
    have hside : ∃ family ∈ [Netfilter.IpFamily.ip, .ip6], Nftables.onSide family (some q) = true := by
      cases h4 : q.addr.is4 <;> simp [Nftables.onSide, h4]
    obtain ⟨family, hfamily, hon⟩ := hside
    exact ⟨family, hfamily, ⟨q, hq, hnormal q hq⟩, hon⟩

theorem proper_of_mem (h : compute input resolve = some carve) (hq : some q ∈ carve.prefixes) :
    Proper input (some q) := by
  obtain ⟨e, he, hbits, hnormal⟩ := (mem_prefixes_iff h).1 hq
  refine ⟨q, rfl, ?_, ?_, e, he, fun a => covers_of_normal hnormal⟩
  · obtain ⟨_, rfl⟩ := normalPrefix_eq_some hnormal
    exact Prefix.masked_masked _
  · obtain ⟨_, rfl⟩ := normalPrefix_eq_some hnormal
    exact hbits

/-- The carve-out and the locks hold proper prefixes, and each usable exclusion stands for itself,
exactly if no exclusion is IPv4-mapped and longer than an IPv4 address. -/
theorem excluded_proper_iff (h : compute input resolve = some carve) :
    ((∀ p ∈ carve.prefixes ++ locked carve, Proper input p) ∧
      ∀ q, (some q ∈ carve.prefixes ↔
          ∃ e ∈ supplied input, e.bits ≠ 0 ∧ normalPrefix e = some q) ∧
        (some q ∈ locked carve ↔ some q ∈ carve.prefixes)) ↔
      ∀ e ∈ supplied input, e.addr.is4In6 = true → e.bits ≤ 32 := by
  constructor
  · rintro ⟨hall, -⟩ e he hmapped
    by_contra hlong
    have hnone : normalPrefix e = none :=
      normalPrefix_eq_none_iff.2 ⟨hmapped, Nat.lt_of_not_le hlong⟩
    have hmem : none ∈ carve.prefixes := (mem_prefixes_iff h).2 ⟨e, he, by omega, hnone⟩
    obtain ⟨q, hq, -⟩ := hall none (List.mem_append_left _ hmem)
    cases hq
  · intro hshort
    refine ⟨fun p hp => ?_, fun q => ⟨mem_prefixes_iff h, by simp [mem_locked_iff h]⟩⟩
    rcases List.mem_append.1 hp with hp | hp
    · obtain ⟨e, he, -, rfl⟩ := (mem_prefixes_iff h).1 hp
      cases hnormal : normalPrefix e with
      | none =>
        have hmapped := normalPrefix_eq_none_iff.1 hnormal
        exact absurd (hshort e he hmapped.1) (Nat.not_le_of_lt hmapped.2)
      | some q => exact proper_of_mem h (hnormal ▸ hp)
    · obtain ⟨q, rfl, hq⟩ := (mem_locked_iff h).1 hp
      exact proper_of_mem h hq

def excluding (raw : String) : Inputs where
  controlURL := some ⟨"https", "203.0.113.1", ""⟩
  relayEndpoints := []
  localPrefixes := []
  extraPrefixes := [raw]

theorem excluded_proper_short :
    let input := excluding "::ffff:10.0.0.0/8"
    ∃ carve, compute input (fun _ => none) = some carve ∧
      ∀ p ∈ carve.prefixes ++ locked carve, Proper input p := by
  intro input
  obtain ⟨carve, hcarve⟩ := Option.isSome_iff_exists.1
    (by decide +kernel : (compute input fun _ => none).isSome = true)
  exact ⟨carve, hcarve, ((excluded_proper_iff hcarve).2 (by decide +kernel)).1⟩

/-- An exclusion of a mapped network leaves the carve-out with a prefix that is none. -/
theorem mapped_exclusion_invalid :
    let input := excluding "::ffff:10.0.0.0/104"
    (compute input fun _ => none).any (none ∈ ·.prefixes) = true ∧ ¬Proper input none := by
  refine ⟨by decide +kernel, ?_⟩
  rintro ⟨q, hq, -⟩
  cases hq

end Meshp.Egress
