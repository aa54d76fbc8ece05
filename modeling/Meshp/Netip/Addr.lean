import Mathlib

/-!
# IP Addresses and Prefixes

The values of Go's `net/netip`, as far as the control plane and the agent use
them. An address is thirty-two or a hundred and twenty-eight bits and knows which
it is; the zero `netip.Addr` is not a value here, so a function that can return it
returns an `Option`. Zones never reach the mesh: the database stores none, and a
prefix may not carry one. A prefix carries the proof that its length fits its
address, which is what `IsValid` checks.
-/

namespace Meshp.Netip

inductive Addr
  | v4 (bits : BitVec 32)
  | v6 (bits : BitVec 128)
  deriving DecidableEq

namespace Addr

/-- `BitLen`: how many bits an address of this family has. -/
def bitLen : Addr → Nat
  | v4 _ => 32
  | v6 _ => 128

def toNat : Addr → Nat
  | v4 a => a.toNat
  | v6 a => a.toNat

/-- `Is4`. An IPv4-mapped IPv6 address is not one. -/
def is4 : Addr → Bool
  | v4 _ => true
  | v6 _ => false

/-- `Unmap`: an IPv4-mapped IPv6 address, ninety-six bits of `::ffff` and then an IPv4 address,
becomes that IPv4 address; anything else is unchanged. -/
def unmap : Addr → Addr
  | v4 a => v4 a
  | v6 a => if a.toNat / 2 ^ 32 = 0xffff then v4 (BitVec.ofNat 32 a.toNat) else v6 a

/-- `Is4In6`: whether an address is IPv4-mapped. -/
def is4In6 : Addr → Bool
  | v4 _ => false
  | v6 a => a.toNat / 2 ^ 32 = 0xffff

/-- `IsLoopback`: `127.0.0.0/8`, mapped or not, and `::1`. -/
def isLoopback (a : Addr) : Bool :=
  match a.unmap with
  | v4 b => b >>> 24 == 127#32
  | v6 b => b == 1#128

/-- `Compare`: by family first, then by value. -/
def compare (a b : Addr) : Ordering :=
  (Ord.compare a.bitLen b.bitLen).then (Ord.compare a.toNat b.toNat)

/-- `Next`: the following address of the same family, if there is one. -/
def next : Addr → Option Addr
  | v4 a => if a = BitVec.allOnes 32 then none else some (v4 (a + 1))
  | v6 a => if a = BitVec.allOnes 128 then none else some (v6 (a + 1))

/-- The address with all but its leading `n` bits cleared. -/
def mask (n : Nat) : Addr → Addr
  | v4 a => v4 ((a >>> (32 - n)) <<< (32 - n))
  | v6 a => v6 ((a >>> (128 - n)) <<< (128 - n))

/-- Whether two addresses are of one family and agree on their leading `n` bits. -/
def agree (n : Nat) : Addr → Addr → Bool
  | v4 a, v4 b => a >>> (32 - n) == b >>> (32 - n)
  | v6 a, v6 b => a >>> (128 - n) == b >>> (128 - n)
  | _, _ => false

theorem unmap_of_not_is4In6 {a : Addr} (h : a.is4In6 = false) : a.unmap = a := by
  cases a with
  | v4 a => rfl
  | v6 a =>
    simp only [is4In6, decide_eq_false_iff_not] at h
    simp only [unmap, if_neg h]

theorem bitLen_unmap_of_is4In6 {a : Addr} (h : a.is4In6 = true) : a.unmap.bitLen = 32 := by
  cases a with
  | v4 a => cases h
  | v6 a =>
    simp only [is4In6, decide_eq_true_eq] at h
    simp only [unmap, if_pos h, bitLen]

@[simp]
theorem bitLen_mask (n : Nat) (a : Addr) : (a.mask n).bitLen = a.bitLen := by
  cases a <;> rfl

@[simp]
theorem agree_self (n : Nat) (a : Addr) : a.agree n a = true := by
  cases a <;> simp only [agree, beq_self_eq_true]

theorem agree_bitLen (a b : Addr) : a.agree a.bitLen b = true ↔ a = b := by
  cases a <;> cases b <;> simp [agree, bitLen]

theorem shiftRight_shiftLeft_shiftRight {w : Nat} (a : BitVec w) (n : Nat) :
    ((a >>> n) <<< n) >>> n = a >>> n := by
  ext i hi
  simp only [BitVec.getElem_ushiftRight, BitVec.getLsbD_shiftLeft, BitVec.getLsbD_ushiftRight,
    Nat.not_lt_of_ge (Nat.le_add_right n i), decide_false, Bool.not_false, Bool.and_true,
    Nat.add_sub_cancel_left, Bool.and_eq_right_iff_imp, decide_eq_true_eq]
  exact BitVec.lt_of_getLsbD

theorem mask_mask (n : Nat) (a : Addr) : (a.mask n).mask n = a.mask n := by
  cases a <;> simp only [mask, shiftRight_shiftLeft_shiftRight]

theorem agree_mask (n : Nat) (a b : Addr) : (a.mask n).agree n b = a.agree n b := by
  cases a <;> cases b <;> simp only [mask, agree, shiftRight_shiftLeft_shiftRight]

theorem is4_of_agree {n : Nat} {a b : Addr} (h : a.agree n b = true) : a.is4 = b.is4 := by
  cases a <;> cases b <;> first | rfl | cases h

end Addr

/-- A valid `netip.Prefix`: an address, and how many of its leading bits count. -/
structure Prefix where
  addr : Addr
  bits : Nat
  valid : bits ≤ addr.bitLen
  deriving DecidableEq

namespace Prefix

/-- `PrefixFrom`. A length the address does not have makes no valid prefix. -/
def ofBits? (a : Addr) (bits : Nat) : Option Prefix :=
  if h : bits ≤ a.bitLen then some ⟨a, bits, h⟩ else none

/-- `MustParsePrefix`, of a literal: the first `bits` bits of `a`. -/
def upTo (a : Addr) (bits : Nat) : Prefix :=
  ⟨a, min bits a.bitLen, Nat.min_le_right _ _⟩

/-- `PrefixFrom(a, a.BitLen())`: the prefix holding `a` alone. -/
def single (a : Addr) : Prefix :=
  ⟨a, a.bitLen, Nat.le_refl _⟩

/-- `Masked`: the same prefix with its host bits cleared. -/
def masked (p : Prefix) : Prefix :=
  ⟨p.addr.mask p.bits, p.bits, by simpa only [Addr.bitLen_mask] using p.valid⟩

/-- `Contains`: an address of the other family is never contained. -/
def contains (p : Prefix) (a : Addr) : Bool :=
  p.addr.agree p.bits a

/-- `Overlaps`: two prefixes of one family share an address when they agree as far as the shorter
goes. -/
def overlaps (p q : Prefix) : Bool :=
  p.addr.agree (min p.bits q.bits) q.addr

theorem overlaps_self (p : Prefix) : p.overlaps p = true :=
  Addr.agree_self _ p.addr

theorem masked_masked (p : Prefix) : p.masked.masked = p.masked := by
  unfold masked
  simp only [Addr.mask_mask]

@[simp]
theorem masked_bits (p : Prefix) : p.masked.bits = p.bits := rfl

@[simp]
theorem contains_self (p : Prefix) : p.contains p.addr = true :=
  Addr.agree_self p.bits p.addr

@[simp]
theorem contains_masked (p : Prefix) (a : Addr) : p.masked.contains a = p.contains a :=
  Addr.agree_mask p.bits p.addr a

theorem is4_of_contains {p : Prefix} {a : Addr} (h : p.contains a = true) :
    p.addr.is4 = a.is4 :=
  Addr.is4_of_agree h

theorem contains_single (a b : Addr) : (single a).contains b = true ↔ a = b :=
  Addr.agree_bitLen a b

end Prefix

end Meshp.Netip
