import Meshp.Netip.Addr

/-!
# Prefixes as Ranges

A prefix is a range of numbers: the addresses of its family that agree with it
where it counts are an aligned block of a power of two of them. Everything an
allocator or a translation does with a prefix is arithmetic on that block, and
two blocks are nested or apart.
-/

namespace Meshp.Netip

namespace Addr

theorem toNat_lt (a : Addr) : a.toNat < 2 ^ a.bitLen := by
  cases a with
  | v4 a => exact a.isLt
  | v6 a => exact a.isLt

variable {a b : Addr}

theorem bitLen_eq_of_is4 (h : a.is4 = b.is4) : a.bitLen = b.bitLen := by
  cases a <;> cases b <;> first | rfl | cases h

theorem is4_eq_of_bitLen (h : a.bitLen = b.bitLen) : a.is4 = b.is4 := by
  cases a <;> cases b <;> first | rfl | cases h

theorem ext_toNat (hf : a.is4 = b.is4) (h : a.toNat = b.toNat) : a = b := by
  cases a with
  | v4 a =>
    cases b with
    | v4 b => rw [BitVec.eq_of_toNat_eq h]
    | v6 b => cases hf
  | v6 a =>
    cases b with
    | v4 b => cases hf
    | v6 b => rw [BitVec.eq_of_toNat_eq h]

theorem next_eq (h : a.next = some b) : b.toNat = a.toNat + 1 ∧ b.bitLen = a.bitLen := by
  have hsucc : ∀ {w : Nat} (v : BitVec w), 0 < w → v ≠ BitVec.allOnes w →
      (v + 1).toNat = v.toNat + 1 := by
    intro w v hw hne
    have hlt : v.toNat + 1 < 2 ^ w := by
      have := v.isLt
      refine Nat.lt_of_le_of_ne this fun heq => hne ?_
      rw [← BitVec.toNat_inj, BitVec.toNat_allOnes]
      omega
    have hone : (1 : BitVec w).toNat = 1 := by
      simp only [BitVec.ofNat_eq_ofNat, BitVec.toNat_ofNat]
      exact Nat.mod_eq_of_lt (Nat.one_lt_two_pow (Nat.ne_of_gt hw))
    rw [BitVec.toNat_add, hone, Nat.mod_eq_of_lt hlt]
  cases a with
  | v4 v | v6 v =>
    simp only [Addr.next] at h
    split at h
    · cases h
    · cases h
      exact ⟨hsucc v (by decide) ‹_›, rfl⟩

theorem next_isSome (h : a.toNat + 1 < 2 ^ a.bitLen) : a.next.isSome = true := by
  cases a with
  | v4 v =>
    have hne : v ≠ BitVec.allOnes 32 := by
      rintro rfl
      exact absurd h (by decide)
    simp only [next, if_neg hne, Option.isSome_some]
  | v6 v =>
    have hne : v ≠ BitVec.allOnes 128 := by
      rintro rfl
      exact absurd h (by decide)
    simp only [next, if_neg hne, Option.isSome_some]

theorem compare_eq_lt (hf : a.is4 = b.is4) : a.compare b = .lt ↔ a.toNat < b.toNat := by
  rw [compare, bitLen_eq_of_is4 hf, Nat.compare_eq_eq.2 rfl, Ordering.eq_then, Nat.compare_eq_lt]

theorem agree_comm (n : Nat) (a b : Addr) : a.agree n b = b.agree n a := by
  cases a <;> cases b <;> simp only [agree, Bool.beq_comm]

theorem agree_iff (n : Nat) (a b : Addr) : a.agree n b = true ↔
    a.is4 = b.is4 ∧ a.toNat / 2 ^ (a.bitLen - n) = b.toNat / 2 ^ (a.bitLen - n) := by
  cases a <;> cases b <;>
    simp [agree, is4, toNat, bitLen, ← BitVec.toNat_inj, Nat.shiftRight_eq_div_pow]

theorem toNat_mask (n : Nat) (a : Addr) :
    (a.mask n).toNat = a.toNat / 2 ^ (a.bitLen - n) * 2 ^ (a.bitLen - n) := by
  have hmask : ∀ {w : Nat} (v : BitVec w) (k : Nat),
      ((v >>> k) <<< k).toNat = v.toNat / 2 ^ k * 2 ^ k := by
    intro w v k
    have hle : v.toNat / 2 ^ k * 2 ^ k ≤ v.toNat := Nat.div_mul_le_self _ _
    rw [BitVec.toNat_shiftLeft, BitVec.toNat_ushiftRight, Nat.shiftRight_eq_div_pow,
      Nat.shiftLeft_eq, Nat.mod_eq_of_lt (Nat.lt_of_le_of_lt hle v.isLt)]
  cases a <;> exact hmask _ _

theorem or_two_pow_sub_one (a k : Nat) : a ||| (2 ^ k - 1) = a / 2 ^ k * 2 ^ k + (2 ^ k - 1) := by
  have hlt : 2 ^ k - 1 < 2 ^ k := Nat.sub_lt (Nat.two_pow_pos k) Nat.one_pos
  refine Nat.eq_of_testBit_eq fun i => ?_
  rw [Nat.mul_comm, Nat.testBit_or, Nat.testBit_two_pow_mul_add _ hlt, Nat.testBit_two_pow_sub_one]
  by_cases h : i < k
  · simp [h]
  · simp [h, Nat.testBit_div_two_pow, Nat.sub_add_cancel (Nat.le_of_not_lt h)]

theorem toNat_allOnes_shiftRight {w n : Nat} (hn : n ≤ w) :
    (BitVec.allOnes w >>> n).toNat = 2 ^ (w - n) - 1 := by
  have hsplit : 2 ^ w = 2 ^ n * 2 ^ (w - n) := by
    rw [← Nat.pow_add, Nat.add_sub_cancel' hn]
  have hn := Nat.two_pow_pos n
  have hk := Nat.two_pow_pos (w - n)
  rw [BitVec.toNat_ushiftRight, BitVec.toNat_allOnes, Nat.shiftRight_eq_div_pow, hsplit]
  rw [Nat.div_eq_iff hn, Nat.mul_comm (2 ^ n), Nat.sub_mul]
  have hle : 2 ^ n ≤ 2 ^ (w - n) * 2 ^ n := Nat.le_mul_of_pos_left _ hk
  omega

theorem toNat_fill {w : Nat} (v : BitVec w) {n : Nat} (hn : n ≤ w) :
    (v ||| (BitVec.allOnes w >>> n)).toNat =
      v.toNat / 2 ^ (w - n) * 2 ^ (w - n) + (2 ^ (w - n) - 1) := by
  rw [BitVec.toNat_or, toNat_allOnes_shiftRight hn, or_two_pow_sub_one]

end Addr

namespace Prefix

def size (p : Prefix) : Nat :=
  2 ^ (p.addr.bitLen - p.bits)

theorem size_pos (p : Prefix) : 0 < p.size :=
  Nat.two_pow_pos _

variable {a : Addr} {p q : Prefix}

theorem contains_iff : p.contains a = true ↔
    p.addr.is4 = a.is4 ∧ p.addr.toNat / p.size = a.toNat / p.size :=
  Addr.agree_iff p.bits p.addr a

theorem toNat_masked (p : Prefix) : p.masked.addr.toNat = p.addr.toNat / p.size * p.size :=
  Addr.toNat_mask p.bits p.addr

theorem masked_eq_iff : p.masked = p ↔ p.size ∣ p.addr.toNat := by
  constructor
  · intro h
    have hbase := toNat_masked p
    rw [h, Nat.mul_comm] at hbase
    exact ⟨_, hbase⟩
  · intro h
    have haddr : p.masked.addr = p.addr := by
      refine Addr.ext_toNat (Addr.is4_eq_of_bitLen (Addr.bitLen_mask _ _)) ?_
      rw [toNat_masked, Nat.div_mul_cancel h]
    rcases p with ⟨a, bits, hbits⟩
    simp only [masked] at haddr ⊢
    simp only [haddr]

theorem unmap_eq_of_contains (h : p.contains a = true) (h' : p.contains a.unmap = true) :
    a.unmap = a := by
  have hfam := (is4_of_contains h').symm.trans (is4_of_contains h)
  cases hmapped : a.is4In6 with
  | false => exact Addr.unmap_of_not_is4In6 hmapped
  | true =>
    have hlen := Addr.bitLen_unmap_of_is4In6 hmapped
    rw [Addr.bitLen_eq_of_is4 hfam] at hlen
    cases hv : a with
    | v4 v => rfl
    | v6 v =>
      rw [hv] at hlen
      cases hlen

theorem contains_iff_range (hp : p.masked = p) : p.contains a = true ↔
    p.addr.is4 = a.is4 ∧ p.addr.toNat ≤ a.toNat ∧ a.toNat < p.addr.toNat + p.size := by
  have hbase : p.addr.toNat = p.addr.toNat / p.size * p.size := by
    rw [← toNat_masked, hp]
  rw [contains_iff]
  refine and_congr_right fun _ => ?_
  generalize p.addr.toNat / p.size = q at *
  have hpos := p.size_pos
  rw [eq_comm, Nat.div_eq_iff hpos]
  omega

theorem overlaps_iff : p.overlaps q = true ↔ p.addr.is4 = q.addr.is4 ∧
    p.addr.toNat / 2 ^ (p.addr.bitLen - min p.bits q.bits) =
      q.addr.toNat / 2 ^ (p.addr.bitLen - min p.bits q.bits) :=
  Addr.agree_iff _ p.addr q.addr

theorem overlaps_comm (p q : Prefix) : p.overlaps q = q.overlaps p := by
  unfold overlaps
  rw [Addr.agree_comm, Nat.min_comm]

theorem div_two_pow_mono {a b m n : Nat} (h : a / 2 ^ m = b / 2 ^ m) (hmn : m ≤ n) :
    a / 2 ^ n = b / 2 ^ n := by
  rw [← Nat.add_sub_cancel' hmn, Nat.pow_add, ← Nat.div_div_eq_div_mul, ← Nat.div_div_eq_div_mul, h]

theorem overlaps_of_contains (hp : p.contains a = true) (hq : q.contains a = true) :
    p.overlaps q = true := by
  rcases contains_iff.1 hp with ⟨hpf, hpa⟩
  rcases contains_iff.1 hq with ⟨hqf, hqa⟩
  have hlen : q.addr.bitLen = p.addr.bitLen :=
    Addr.bitLen_eq_of_is4 (hqf.trans hpf.symm)
  refine overlaps_iff.2 ⟨hpf.trans hqf.symm, ?_⟩
  have hpa' := div_two_pow_mono hpa
    (Nat.sub_le_sub_left (Nat.min_le_left p.bits q.bits) p.addr.bitLen)
  have hqa' := div_two_pow_mono hqa
    (Nat.sub_le_sub_left (Nat.min_le_right p.bits q.bits) q.addr.bitLen)
  rw [hlen] at hqa'
  exact hpa'.trans hqa'.symm

theorem contains_of_overlaps (h : p.overlaps q = true) (hbits : p.bits ≤ q.bits)
    (ha : q.contains a = true) : p.contains a = true := by
  rcases overlaps_iff.1 h with ⟨hf, hpq⟩
  rcases contains_iff.1 ha with ⟨hqf, hqa⟩
  rw [Nat.min_eq_left hbits] at hpq
  have hlen : p.addr.bitLen = q.addr.bitLen := Addr.bitLen_eq_of_is4 hf
  have hqa' := div_two_pow_mono hqa (Nat.sub_le_sub_left hbits q.addr.bitLen)
  rw [← hlen] at hqa'
  exact contains_iff.2 ⟨hf.trans hqf, hpq.trans hqa'⟩

theorem overlaps_iff_exists :
    p.overlaps q = true ↔ ∃ a, p.contains a = true ∧ q.contains a = true := by
  constructor
  · intro h
    rcases Nat.le_total p.bits q.bits with hle | hle
    · exact ⟨q.addr, contains_of_overlaps h hle (contains_self q), contains_self q⟩
    · rw [overlaps_comm] at h
      exact ⟨p.addr, contains_self p, contains_of_overlaps h hle (contains_self p)⟩
  · rintro ⟨a, hp, hq⟩
    exact overlaps_of_contains hp hq

theorem overlaps_masked (p q : Prefix) : p.overlaps q.masked = p.overlaps q := by
  rw [Bool.eq_iff_iff, overlaps_iff_exists, overlaps_iff_exists]
  simp only [contains_masked]

end Prefix

end Meshp.Netip
