import Meshp.Ipam.Sweep
import Meshp.Nftables.Mapping
import Meshp.Prefixmap.Allocate

/-!
# Where a Prefix Ends

`ipam` and `prefixmap` each work that out with a loop of their own over the bytes of
an address, one byte after byte and the other bit after bit. Neither looks at the
bits it leaves alone, so what a loop sets depends on the length of the prefix only,
and there are few of those.
-/

namespace Meshp.Netip

variable {w : Nat}

/-- A byte at its place in a word, counted from the highest. -/
def octet (i : Nat) (b : BitVec 8) : BitVec w :=
  b.setWidth w <<< (w - 8 - 8 * i)

/-- The loop of `ipam.lastAddr`. -/
def fillOctets (bits : Nat) (v : BitVec w) : BitVec w :=
  (List.range (w / 8)).foldl (fun v i =>
    let low := i * 8
    if bits ≤ low then v &&& ~~~octet i 0xff ||| octet i 0xff
    else if low + 8 ≤ bits then v
    else v ||| octet i (0xff >>> (bits - low))) v

/-- The loop of `prefixmap.lastOf`. -/
def fillBits (bits : Nat) (v : BitVec w) : BitVec w :=
  (List.range' bits (w - bits)).foldl (fun v i => v ||| octet (i / 8) (1 <<< (7 - i % 8))) v

theorem foldl_or {step : BitVec w → Nat → BitVec w} (sets : Nat → BitVec w)
    (hstep : ∀ v i, step v i = v ||| sets i) (is : List Nat) (v : BitVec w) :
    is.foldl step v = v ||| is.foldl step 0#w := by
  induction is generalizing v with
  | nil => exact (BitVec.or_zero).symm
  | cons i is ih =>
    rw [List.foldl_cons, List.foldl_cons, ih, ih (step 0#w i), hstep, hstep, BitVec.zero_or,
      BitVec.or_assoc]

theorem fillOctets_eq_or (bits : Nat) (v : BitVec w) :
    fillOctets bits v = v ||| fillOctets bits 0#w := by
  refine foldl_or (fun i => if bits ≤ i * 8 then octet i 0xff
    else if i * 8 + 8 ≤ bits then 0#w else octet i (0xff >>> (bits - i * 8))) (fun v i => ?_) _ v
  -- A byte that is written whole loses nothing, every bit of it being set.
  have hwhole : ∀ m : BitVec w, v &&& ~~~m ||| m = v ||| m := by
    intro m
    ext k hk
    cases hm : m[k] <;> simp [hm]
  dsimp only
  split_ifs
  · exact hwhole _
  · exact BitVec.or_zero.symm
  · rfl

theorem fillBits_eq_or (bits : Nat) (v : BitVec w) : fillBits bits v = v ||| fillBits bits 0#w :=
  foldl_or _ (fun _ _ => rfl) _ v

/-- What the two loops set, for every length of a prefix of either family. -/
theorem fill_zero : ∀ w ∈ [32, 128], ∀ bits ∈ List.range (w + 1),
    fillOctets bits 0#w = BitVec.allOnes w >>> bits ∧
      fillBits bits 0#w = BitVec.allOnes w >>> bits := by
  decide +kernel

/-- An address whose word has gone through a loop. -/
def Addr.onWord (a : Addr) (f : {w : Nat} → BitVec w → BitVec w) : Addr :=
  match a with
  | v4 a => v4 (f a)
  | v6 a => v6 (f a)

theorem onWord_fill (p : Prefix) : p.addr.onWord (fillOctets p.bits) = Ipam.lastAddr p ∧
    p.addr.onWord (fillBits p.bits) = Ipam.lastAddr p := by
  rcases p with ⟨a, bits, hvalid⟩
  have hbits : bits ∈ List.range (a.bitLen + 1) := List.mem_range.2 (Nat.lt_succ_of_le hvalid)
  cases a with
  | v4 a =>
    obtain ⟨hoctets, hbits⟩ := fill_zero 32 (.head _) bits hbits
    simp only [Addr.onWord, Ipam.lastAddr, fillOctets_eq_or bits a, fillBits_eq_or bits a, hoctets,
      hbits, and_self]
  | v6 a =>
    obtain ⟨hoctets, hbits⟩ := fill_zero 128 (.tail _ (.head _)) bits hbits
    simp only [Addr.onWord, Ipam.lastAddr, fillOctets_eq_or bits a, fillBits_eq_or bits a, hoctets,
      hbits, and_self]

/-- The loops find the same last address of a masked prefix. It is the greatest address of the
prefix, it is the base with the bits of the mask set, and from the base to it there are as many
addresses as `countAddrs` counts, if an `int64` holds them. -/
theorem last_address (p : Prefix) :
    let last := p.masked.addr.onWord (fillOctets p.masked.bits)
    let count := last.toNat - p.masked.addr.toNat + 1
    p.masked.addr.onWord (fillBits p.masked.bits) = last ∧ p.masked.contains last = true ∧
      (∀ a, p.masked.contains a = true → a.toNat ≤ last.toNat) ∧
      last.is4 = p.masked.addr.is4 ∧
      (Nftables.hostWildcard p.masked).is4 = p.masked.addr.is4 ∧
      last.toNat = p.masked.addr.toNat ||| (Nftables.hostWildcard p.masked).toNat ∧
      Ipam.countAddrs (p.masked.addr.bitLen - p.masked.bits) =
        if count < 2 ^ 63 then some count else none := by
  have hmasked := p.masked_masked
  generalize p.masked = p at hmasked
  rw [(onWord_fill p).1, (onWord_fill p).2]
  intro last count
  obtain ⟨hlast, hfamily⟩ : last.toNat = _ ∧ last.is4 = _ := Ipam.toNat_lastAddr hmasked
  have hpos := p.size_pos
  refine ⟨rfl, ?_, fun a ha => ?_, hfamily, Nftables.is4_hostWildcard p, ?_, ?_⟩
  · exact (Prefix.contains_iff_range hmasked).2 ⟨hfamily.symm, by omega, by omega⟩
  · obtain ⟨_, _, hlt⟩ := (Prefix.contains_iff_range hmasked).1 ha
    omega
  · rw [Nftables.toNat_hostWildcard, Prefix.size, Addr.or_two_pow_sub_one]
    exact Prefixmap.toNat_lastOf p
  · have hcount : count = 2 ^ (p.addr.bitLen - p.bits) := by
      rw [← Prefix.size]
      omega
    have hfits := Nat.pow_lt_pow_iff_right (n := p.addr.bitLen - p.bits) (m := 63) Nat.one_lt_two
    rw [hcount, Ipam.countAddrs, if_congr hfits rfl rfl, ← ite_not]
    exact if_congr Nat.not_le rfl rfl

end Meshp.Netip
