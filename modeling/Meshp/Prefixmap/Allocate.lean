import Meshp.Netip.Range
import Meshp.Netip.Text

/-!
# The Range a Colliding Prefix Is Reached By

A block of addresses is set aside, and a prefix that two networks both carry is
given a range of its own size out of it: the lowest aligned one that touches
nothing already meaningful. The host part of an address is carried across
unchanged, which is why the size has to match.
-/

namespace Meshp.Prefixmap

open Netip (Addr Prefix)

inductive Fault
  | wrongFamily (real block : Prefix)
  | defaultRoute
  | larger (real block : Prefix)
  | exhausted (real block : Prefix)
  deriving DecidableEq

/-- `lastOf`: the highest address in a prefix. -/
def lastOf (p : Prefix) : Addr :=
  match p.addr with
  | .v4 a => .v4 (a ||| (BitVec.allOnes 32 >>> p.bits))
  | .v6 a => .v6 (a ||| (BitVec.allOnes 128 >>> p.bits))

/-- `advance`: the first address of the next range of a prefix's size. -/
def advance (p : Prefix) : Option Addr :=
  (lastOf p).next

/-- `overlapsAny`: whether a candidate touches anything spoken for. -/
def overlapsAny (candidate : Prefix) (reserved : List Prefix) : Bool :=
  reserved.any fun r => r.addr.is4 = candidate.addr.is4 ∧
    (r.overlaps candidate ∨ candidate.overlaps r)

/-- The first range of `candidates` that is free, walking up from an address for at most so many
ranges. -/
def search (block : Prefix) (bits : Nat) (reserved : List Prefix) : Nat → Addr → Option Prefix
  | 0, _ => none
  | count + 1, addr =>
    if h : bits ≤ addr.bitLen then
      if !block.contains addr then none
      else if overlapsAny ⟨addr, bits, h⟩ reserved then
        match advance ⟨addr, bits, h⟩ with
        | none => none
        | some next => search block bits reserved count next
      else some ⟨addr, bits, h⟩
    else none

/-- `Allocate`: the lowest free range in `block` that can carry a prefix. -/
def allocate (block real : Prefix) (reserved : List Prefix) : Except Fault Prefix :=
  if block.addr.is4 ≠ real.addr.is4 then .error (.wrongFamily real block)
  else if real.bits = 0 then .error .defaultRoute
  else if real.bits < block.bits then .error (.larger real block)
  else
    match search block real.bits reserved (2 ^ block.addr.bitLen) block.masked.addr with
    | some range => .ok range
    | none => .error (.exhausted real block)

theorem le_lastOf (p : Prefix) : p.addr.toNat ≤ (lastOf p).toNat ∧
    (lastOf p).bitLen = p.addr.bitLen := by
  unfold lastOf
  cases p.addr with
  | v4 a | v6 a =>
    refine ⟨?_, rfl⟩
    simp only [Addr.toNat, BitVec.toNat_or]
    exact Nat.left_le_or

variable {p block q real : Prefix} {reserved : List Prefix}

theorem lt_advance {next : Addr} (h : advance p = some next) :
    p.addr.toNat < next.toNat ∧ next.bitLen = p.addr.bitLen := by
  rcases Addr.next_eq h with ⟨hval, hlen⟩
  rcases le_lastOf p with ⟨hle, hlen'⟩
  exact ⟨by omega, hlen.trans hlen'⟩

theorem walk_ends (bits : Nat) : WellFounded fun next addr : Addr =>
    ∃ h : bits ≤ addr.bitLen, advance ⟨addr, bits, h⟩ = some next := by
  refine Subrelation.wf (fun {next addr} hstep => ?_)
    (measure fun addr : Addr => 2 ^ addr.bitLen - addr.toNat).wf
  obtain ⟨h, hnext⟩ := hstep
  obtain ⟨hlt, hlen⟩ := lt_advance hnext
  have hbound := Addr.toNat_lt next
  simp only at hlt hlen
  change 2 ^ next.bitLen - next.toNat < 2 ^ addr.bitLen - addr.toNat
  rw [hlen] at hbound ⊢
  omega

/-- A range of some length inside a block, aligned to its size, that overlaps nothing reserved. -/
structure Free (block : Prefix) (bits : Nat) (reserved : List Prefix) (q : Prefix) : Prop where
  bits : q.bits = bits
  aligned : q.masked = q
  inside : ∀ a, q.contains a = true → block.contains a = true
  clear : ∀ r ∈ reserved, q.overlaps r = false

structure Lowest (block : Prefix) (bits : Nat) (reserved : List Prefix) (q : Prefix) : Prop where
  free : Free block bits reserved q
  least : ∀ q', Free block bits reserved q' → q.addr.toNat ≤ q'.addr.toNat

theorem overlapsAny_eq_false : overlapsAny q reserved = false ↔
    ∀ r ∈ reserved, q.overlaps r = false := by
  unfold overlapsAny
  rw [List.any_eq_false]
  refine forall₂_congr fun r _ => ?_
  rw [decide_eq_true_eq, Prefix.overlaps_comm r q, or_self, Bool.eq_false_iff]
  exact not_congr ⟨And.right, fun hover => ⟨(Addr.is4_of_agree hover).symm, hover⟩⟩

theorem toNat_lastOf (p : Prefix) :
    (lastOf p).toNat = p.addr.toNat / p.size * p.size + (p.size - 1) := by
  rcases p with ⟨a, bits, hbits⟩
  cases a with
  | v4 a | v6 a => exact Addr.toNat_fill a hbits

theorem advance_aligned (hp : p.size ∣ p.addr.toNat) :
    (∀ next, advance p = some next →
      next.toNat = p.addr.toNat + p.size ∧ next.bitLen = p.addr.bitLen) ∧
    (advance p = none → 2 ^ p.addr.bitLen ≤ p.addr.toNat + p.size) := by
  have hlast := toNat_lastOf p
  have hpos := p.size_pos
  rw [Nat.div_mul_cancel hp] at hlast
  refine ⟨fun next h => ?_, fun h => ?_⟩
  · obtain ⟨hnext, hlen⟩ := Addr.next_eq h
    exact ⟨by omega, hlen.trans (le_lastOf p).2⟩
  · by_contra hroom
    have hsome := Addr.next_isSome (a := lastOf p) (by rw [(le_lastOf p).2]; omega)
    rw [← advance, h] at hsome
    cases hsome

theorem Free.place {bits : Nat} (h : Free block bits reserved q) :
    q.addr.bitLen = block.addr.bitLen ∧ 2 ^ (block.addr.bitLen - bits) ∣ q.addr.toNat := by
  have hlen := Addr.bitLen_eq_of_is4 (Prefix.is4_of_contains (h.inside _ q.contains_self))
  have hdvd := Prefix.masked_eq_iff.1 h.aligned
  rw [Prefix.size, h.bits, ← hlen] at hdvd
  exact ⟨hlen.symm, hdvd⟩

theorem Lowest.unique {bits : Nat} {r : Prefix} (hq : Lowest block bits reserved q)
    (hr : Lowest block bits reserved r) : q = r := by
  have hlen := hq.free.place.1.trans hr.free.place.1.symm
  have haddr : q.addr = r.addr := Addr.ext_toNat (Addr.is4_eq_of_bitLen hlen)
    (Nat.le_antisymm (hq.least r hr.free) (hr.least q hq.free))
  have hbits := hq.free.bits.trans hr.free.bits.symm
  rcases q with ⟨a, n, hn⟩
  rcases r with ⟨b, k, hk⟩
  cases haddr
  cases hbits
  rfl

theorem Free.exists_lowest {bits : Nat} (h : Free block bits reserved q) :
    ∃ r, Lowest block bits reserved r := by
  have hwf : WellFounded fun a b : Prefix => a.addr.toNat < b.addr.toNat :=
    InvImage.wf (fun a : Prefix => a.addr.toNat) Nat.lt_wfRel.wf
  obtain ⟨r, hr, hleast⟩ := hwf.has_min {r | Free block bits reserved r} ⟨q, h⟩
  exact ⟨r, hr, fun q' hq' => Nat.le_of_not_lt (hleast q' hq')⟩

theorem mem_block {a : Addr} : block.contains a = true ↔ block.addr.is4 = a.is4 ∧
    block.masked.addr.toNat ≤ a.toNat ∧ a.toNat < block.masked.addr.toNat + block.masked.size := by
  have hmasked : block.masked.addr.is4 = block.addr.is4 :=
    Addr.is4_eq_of_bitLen (Addr.bitLen_mask _ _)
  rw [← Prefix.contains_masked, Prefix.contains_iff_range block.masked_masked, hmasked]

theorem search_spec (reserved : List Prefix) (count : Nat) {bits : Nat} {addr : Addr}
    (hsize : block.bits ≤ bits) (hbits : bits ≤ addr.bitLen) (hfamily : block.addr.is4 = addr.is4)
    (haligned : 2 ^ (addr.bitLen - bits) ∣ addr.toNat)
    (hbase : block.masked.addr.toNat ≤ addr.toNat) (hcount : 2 ^ addr.bitLen ≤ count + addr.toNat)
    (hbelow : ∀ q, Free block bits reserved q → addr.toNat ≤ q.addr.toNat) :
    (∀ q, search block bits reserved count addr = some q → Lowest block bits reserved q) ∧
      (search block bits reserved count addr = none → ∀ q, ¬Free block bits reserved q) := by
  induction count generalizing addr with
  | zero =>
    have := Addr.toNat_lt addr
    omega
  | succ count ih =>
    have hlen := Addr.bitLen_eq_of_is4 hfamily
    rw [search, dif_pos hbits]
    by_cases hin : block.contains addr = true
    · simp only [hin, Bool.not_true, Bool.false_eq_true, if_false]
      by_cases hfree : overlapsAny ⟨addr, bits, hbits⟩ reserved = true
      · rw [if_pos hfree]
        obtain ⟨hsome, hnone⟩ := advance_aligned (p := ⟨addr, bits, hbits⟩) haligned
        have hpos := Nat.two_pow_pos (addr.bitLen - bits)
        simp only [Prefix.size] at hsome hnone
        -- The range at this address is taken, so what is free starts a size further up.
        have habove : ∀ q, Free block bits reserved q →
            addr.toNat + 2 ^ (addr.bitLen - bits) ≤ q.addr.toNat := by
          intro q hq
          obtain ⟨hqlen, hdvd⟩ := hq.place
          rw [hlen] at hqlen hdvd
          have hne : addr.toNat ≠ q.addr.toNat := by
            intro heq
            rcases q with ⟨a, n, hn⟩
            cases hq.bits
            cases Addr.ext_toNat (Addr.is4_eq_of_bitLen hqlen) heq.symm
            rw [overlapsAny_eq_false.2 hq.clear] at hfree
            cases hfree
          have hle := hbelow q hq
          have := Nat.le_of_dvd (Nat.sub_pos_of_lt (Nat.lt_of_le_of_ne hle hne))
            (Nat.dvd_sub hdvd haligned)
          omega
        cases hnext : advance ⟨addr, bits, hbits⟩ with
        | none =>
          refine ⟨nofun, fun _ q hq => ?_⟩
          have hlt := Addr.toNat_lt q.addr
          have hend := hnone hnext
          have hq' := habove q hq
          rw [hq.place.1, hlen] at hlt
          omega
        | some next =>
          obtain ⟨hstart, hnextlen⟩ := hsome next hnext
          refine ih (hnextlen.symm ▸ hbits) (hfamily.trans (Addr.is4_eq_of_bitLen hnextlen).symm)
            ?_ (by omega) ?_ fun q hq => hstart.symm ▸ habove q hq
          · rw [hnextlen, hstart]
            exact Nat.dvd_add haligned (Nat.dvd_refl _)
          · rw [hnextlen, hstart]
            omega
      · rw [if_neg hfree]
        have hclear := overlapsAny_eq_false.1 (Bool.eq_false_iff.2 hfree)
        refine ⟨fun q hq => ?_, nofun⟩
        cases hq
        exact ⟨⟨rfl, Prefix.masked_eq_iff.2 haligned, fun a ha => Prefix.contains_of_overlaps
          (Prefix.overlaps_of_contains hin (Prefix.contains_self ⟨addr, bits, hbits⟩)) hsize ha,
          hclear⟩, hbelow⟩
    · simp only [hin, Bool.not_false, if_true]
      refine ⟨nofun, fun _ q hq => hin ?_⟩
      -- The block is the addresses from its first on, and the walk has passed its last.
      obtain ⟨-, -, hend⟩ := mem_block.1 (hq.inside _ q.contains_self)
      exact mem_block.2 ⟨hfamily, hbase, Nat.lt_of_le_of_lt (hbelow q hq) hend⟩

def Mappable (block real : Prefix) : Prop :=
  block.addr.is4 = real.addr.is4 ∧ real.bits ≠ 0 ∧ block.bits ≤ real.bits

theorem allocate_spec (block real : Prefix) (reserved : List Prefix) :
    (∀ q, allocate block real reserved = .ok q ↔
      Mappable block real ∧ Lowest block real.bits reserved q) ∧
    (allocate block real reserved = .error (.exhausted real block) ↔
      Mappable block real ∧ ∀ q, ¬Free block real.bits reserved q) := by
  unfold allocate Mappable
  by_cases hfamily : block.addr.is4 = real.addr.is4
  swap
  · simp [hfamily]
  by_cases hdefault : real.bits = 0
  · simp [hfamily, hdefault]
  by_cases hlarger : real.bits < block.bits
  · simp [hfamily, hdefault, hlarger, Nat.not_le.2 hlarger]
  have hsize := Nat.le_of_not_lt hlarger
  have hlen := Addr.bitLen_mask block.bits block.addr
  have hbits : real.bits ≤ block.masked.addr.bitLen := by
    rw [Prefix.masked, hlen, Addr.bitLen_eq_of_is4 hfamily]
    exact real.valid
  have haligned : 2 ^ (block.masked.addr.bitLen - real.bits) ∣ block.masked.addr.toNat := by
    rw [Prefix.toNat_masked, Prefix.masked, hlen]
    exact Nat.dvd_mul_left_of_dvd (Nat.pow_dvd_pow 2 (Nat.sub_le_sub_left hsize _)) _
  obtain ⟨hfound, hnone⟩ := search_spec reserved (2 ^ block.addr.bitLen) hsize hbits
    (Addr.is4_eq_of_bitLen hlen.symm) haligned (Nat.le_refl _)
    (by rw [Prefix.masked, hlen]; exact Nat.le_add_right _ _)
    fun q hq => (mem_block.1 (hq.inside _ q.contains_self)).2.1
  simp only [hfamily, hdefault, hlarger, hsize, ne_eq, not_true_eq_false, if_false,
    not_false_eq_true, true_and]
  cases hsearch : search block real.bits reserved (2 ^ block.addr.bitLen) block.masked.addr with
  | none =>
    have hno := hnone hsearch
    exact ⟨fun q => iff_of_false (by simp) fun h => hno q h.free, fun _ => hno, fun _ => rfl⟩
  | some r =>
    have hlowest := hfound r hsearch
    refine ⟨fun q => ⟨fun h => ?_, fun h => ?_⟩, by simp, fun h => absurd hlowest.free (h r)⟩
    · cases h
      exact hlowest
    · rw [hlowest.unique h]

/-- A prefix that can be mapped is given the lowest free range, or the block is exhausted because
there is none, at the end of a walk that ends. -/
theorem allocate_found (block real : Prefix) (reserved : List Prefix)
    (h : Mappable block real) :
    (∀ q, allocate block real reserved = .ok q ↔ Lowest block real.bits reserved q) ∧
    (allocate block real reserved = .error (.exhausted real block) ↔
      ∀ q, ¬Free block real.bits reserved q) ∧
    WellFounded fun next addr : Addr =>
      ∃ h : real.bits ≤ addr.bitLen, advance ⟨addr, real.bits, h⟩ = some next := by
  obtain ⟨hok, hexhausted⟩ := allocate_spec block real reserved
  refine ⟨fun q => ?_, ?_, walk_ends real.bits⟩
  · rw [hok q, and_iff_right h]
  · rw [hexhausted, and_iff_right h]

theorem allocate_found_last :
    let block : Prefix := ⟨.v4 0xFFFFFF00, 24, by decide⟩
    let real : Prefix := ⟨.v4 0x0A000000, 25, by decide⟩
    Mappable block real ∧ Lowest block 25 [⟨.v4 0xFFFFFF00, 25, by decide⟩]
      ⟨.v4 0xFFFFFF80, 25, by decide⟩ := by
  intro block real
  have hmappable : Mappable block real := ⟨by decide, by decide, by decide⟩
  exact ⟨hmappable, ((allocate_found block real _ hmappable).1 _).1 (by decide +kernel)⟩

theorem allocate_ok (h : allocate block real reserved = .ok q) :
    block.bits ≤ q.bits ∧ Lowest block real.bits reserved q := by
  obtain ⟨⟨_, _, hsize⟩, hlowest⟩ := ((allocate_spec block real reserved).1 q).1 h
  exact ⟨hlowest.free.bits ▸ hsize, hlowest⟩

theorem overlaps_reserved (h : allocate block real reserved = .ok q) (hp : p ∈ reserved) :
    q.overlaps p = false :=
  (allocate_ok h).2.free.clear p hp

theorem overlaps_block (h : allocate block real reserved = .ok q) (hp : q.overlaps p = true) :
    p.overlaps block = true := by
  rcases Prefix.overlaps_iff_exists.1 hp with ⟨a, hq, hpa⟩
  exact Prefix.overlaps_of_contains hpa ((allocate_ok h).2.free.inside a hq)

/-- Nothing of the size of eight bits is inside a block of sixteen, and that is not told as a block
that is exhausted. -/
theorem allocate_larger :
    let block : Prefix := ⟨.v4 0x64470000, 16, by decide⟩
    let real : Prefix := ⟨.v4 0x0A000000, 8, by decide⟩
    (∀ q, ¬Free block real.bits [] q) ∧
      allocate block real [] ≠ .error (.exhausted real block) := by
  intro block real
  refine ⟨fun q hq => ?_, by decide +kernel⟩
  -- It would contain the whole of `100.0.0.0/8`.
  have hblock : q.overlaps block = true :=
    Prefix.overlaps_of_contains q.contains_self (hq.inside _ q.contains_self)
  have hwhole : q.overlaps ⟨.v4 0x64000000, 8, by decide⟩ = true :=
    Prefix.overlaps_of_contains (Prefix.contains_of_overlaps hblock (by rw [hq.bits]; decide)
      block.contains_self) (by decide)
  have hinside := hq.inside _ (Prefix.contains_of_overlaps hwhole (Nat.le_of_eq hq.bits)
    (Prefix.contains_self _))
  exact absurd hinside (by decide)

end Meshp.Prefixmap
