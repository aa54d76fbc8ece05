import Meshp.Base.Swaps
import Meshp.Netip.Range
import Meshp.Nftables.Render

/-!
# Colliding Prefixes Told Apart

Two networks a device is in may use the same prefix. Each is then reached at a
range of its own: what a person types is rewritten to the customer's address on
the way out, and the source of a reply is rewritten back on the way in. The host
part is carried across, so a rule is arithmetic and keeps no state.
-/

namespace Meshp.Nftables

open Base (refuseIf refuseIf_bind_eq_ok bind_eq_ok Swap)
open List (foldl_cons forall_mem_map map_cons mem_map mem_map_of_mem)
open Netip (Addr Prefix writtenPrefix)
open Netip.Prefix (contains_iff contains_iff_range contains_of_overlaps contains_self
  is4_of_contains toNat_masked)

/-- `Mapping`. A half may be the zero prefix, which is `none`. -/
structure Mapping where
  mapped : Option Prefix
  real : Option Prefix

structure Pairing where
  mapped : Prefix
  real : Prefix
  family : mapped.addr.is4 = real.addr.is4
  size : mapped.bits = real.bits
  mappedNet : mapped.masked = mapped
  realNet : real.masked = real

def checkMapping (seen : List Prefix) (m : Mapping) : Except String Pairing :=
  match m.mapped, m.real with
  | some mapped, some real =>
    let both := mapped.text ++ " and " ++ real.text
    if family : mapped.addr.is4 = real.addr.is4 then
      if size : mapped.bits = real.bits then
        if nets : mapped.masked = mapped ∧ real.masked = real then
          if mapped ∈ seen then .error ("nftables: " ++ mapped.text ++ " is mapped twice")
          else .ok ⟨mapped, real, family, size, nets.1, nets.2⟩
        else .error ("nftables: " ++ mapped.text ++ " -> " ++ real.text ++
          " has bits set below the prefix")
      else .error ("nftables: " ++ both ++
        " are different sizes; a mapping carries the host part across")
    else .error ("nftables: " ++ both ++ " are different families")
  | mapped, real => .error ("nftables: a mapping is missing one of its halves: " ++
      writtenPrefix mapped ++ " -> " ++ writtenPrefix real)

/-- The loop of `validMappings`. -/
def checkMappings : List Prefix → List Mapping → Except String (List Pairing)
  | _, [] => .ok []
  | seen, m :: ms => do
    let p ← checkMapping seen m
    let ps ← checkMappings (seen ++ [p.mapped]) ms
    pure (p :: ps)

def Pairing.less (p q : Pairing) : Bool :=
  if p.mapped.addr ≠ q.mapped.addr then p.mapped.addr.compare q.mapped.addr == .lt
  else p.mapped.bits < q.mapped.bits

def validMappings (ms : List Mapping) : Except String (List Pairing) :=
  (checkMappings [] ms).map (List.insertionSort fun p q => ¬q.less p = true)

def wildcardBits (w bits : Nat) : BitVec w :=
  (List.range bits).foldl (fun v i => v &&& ~~~BitVec.twoPow w (w - 1 - i)) (BitVec.allOnes w)

/-- `hostWildcard`: the mask that keeps the host part. -/
def hostWildcard (p : Prefix) : Addr :=
  match p.addr with
  | .v4 _ => .v4 (wildcardBits 32 p.bits)
  | .v6 _ => .v6 (wildcardBits 128 p.bits)

/-- The bits of `a` under a mask, and those of a base. -/
def carryAcross (a host base : Addr) : Addr :=
  match a, host, base with
  | .v4 a, .v4 host, .v4 base => .v4 (a &&& host ||| base)
  | .v6 a, .v6 host, .v6 base => .v6 (a &&& host ||| base)
  | a, _, _ => a

/-- A rule of one of the two chains: on an interface, what matches has its host part put on a base.
-/
structure MapRule where
  iface : String
  matched : Prefix
  host : Addr
  base : Addr
  deriving DecidableEq

def MapRule.rewrite (r : MapRule) (iface : String) (a : Addr) : Addr :=
  if r.iface = iface ∧ r.matched.contains a = true then carryAcross a r.host r.base else a

structure MapTable where
  outbound : List MapRule := []
  inbound : List MapRule := []
  deriving DecidableEq

def Pairing.outRule (iface : String) (p : Pairing) : MapRule :=
  ⟨iface, p.mapped, hostWildcard p.mapped, p.real.masked.addr⟩

def Pairing.inRule (iface : String) (p : Pairing) : MapRule :=
  ⟨iface, p.real, hostWildcard p.mapped, p.mapped.masked.addr⟩

/-- `RenderMap`. Without mappings the table is removed. -/
def renderMap (iface : String) (ms : List Mapping) : Except String MapTable := do
  refuseIf (interfaceNameOk iface = false)
    ("nftables: " ++ Text.quote iface ++ " is not a usable interface name")
  if ms = [] then pure {}
  else
    let ordered ← validMappings ms
    pure { outbound := ordered.map (·.outRule iface), inbound := ordered.map (·.inRule iface) }

def translate (rules : List MapRule) (iface : String) (a : Addr) : Addr :=
  rules.foldl (fun a r => r.rewrite iface a) a

theorem wildcardBits_eq {w bits : Nat} (h : bits ≤ w) :
    wildcardBits w bits = BitVec.allOnes w >>> bits := by
  unfold wildcardBits
  induction bits with
  | zero => simp
  | succ n ih =>
    rw [List.range_succ, List.foldl_append, ih (Nat.le_of_succ_le h)]
    refine BitVec.eq_of_getLsbD_eq fun i hi => ?_
    simp only [foldl_cons, List.foldl_nil, BitVec.getLsbD_and, BitVec.getLsbD_not,
      BitVec.getLsbD_twoPow, BitVec.getLsbD_ushiftRight, BitVec.getLsbD_allOnes]
    rw [Bool.eq_iff_iff]
    simp only [Bool.and_eq_true, Bool.not_eq_true', Bool.and_eq_false_iff, decide_eq_true_eq,
      decide_eq_false_iff_not]
    omega

theorem toNat_hostWildcard (p : Prefix) : (hostWildcard p).toNat = p.size - 1 := by
  have hvalid := p.valid
  unfold hostWildcard Prefix.size
  cases hp : p.addr with
  | v4 a =>
    have hvalid : p.bits ≤ 32 := by rwa [hp] at hvalid
    change (wildcardBits 32 p.bits).toNat = _
    rw [wildcardBits_eq hvalid]
    exact Addr.toNat_allOnes_shiftRight hvalid
  | v6 a =>
    have hvalid : p.bits ≤ 128 := by rwa [hp] at hvalid
    change (wildcardBits 128 p.bits).toNat = _
    rw [wildcardBits_eq hvalid]
    exact Addr.toNat_allOnes_shiftRight hvalid

theorem is4_hostWildcard (p : Prefix) : (hostWildcard p).is4 = p.addr.is4 := by
  unfold hostWildcard
  cases p.addr <;> rfl

theorem is4_carryAcross (a host base : Addr) : (carryAcross a host base).is4 = a.is4 := by
  cases a <;> cases host <;> cases base <;> rfl

theorem toNat_carryAcross {a host base : Addr} (hhost : host.is4 = a.is4)
    (hbase : base.is4 = a.is4) :
    (carryAcross a host base).toNat = a.toNat &&& host.toNat ||| base.toNat := by
  match a, host, base, hhost, hbase with
  | .v4 a, .v4 host, .v4 base, _, _ => exact (BitVec.toNat_or ..).trans (by rw [BitVec.toNat_and]; rfl)
  | .v6 a, .v6 host, .v6 base, _, _ => exact (BitVec.toNat_or ..).trans (by rw [BitVec.toNat_and]; rfl)

theorem and_or_eq {k : Nat} (a base : Nat) (hbase : base % 2 ^ k = 0) :
    a &&& (2 ^ k - 1) ||| base = base + a % 2 ^ k := by
  rw [Nat.and_two_pow_sub_one_eq_mod]
  obtain ⟨q, rfl⟩ := Nat.dvd_of_mod_eq_zero hbase
  rw [Nat.or_comm, Nat.two_pow_add_eq_or_of_lt (Nat.mod_lt _ (Nat.two_pow_pos k))]

theorem base_mod {s : Prefix} (hs : s.masked = s) : s.addr.toNat % s.size = 0 := by
  have h := toNat_masked s
  rw [hs] at h
  rw [h]
  exact Nat.mul_mod_left _ _

theorem toNat_carried {p q : Prefix} (hfamily : p.addr.is4 = q.addr.is4) (hsize : p.bits = q.bits)
    (hnet : q.masked = q) {a : Addr} (ha : a.is4 = p.addr.is4) :
    (carryAcross a (hostWildcard p) q.addr).toNat = q.addr.toNat + a.toNat % q.size := by
  have hsame : p.size = q.size := by
    rw [Prefix.size, Prefix.size, hsize, Addr.bitLen_eq_of_is4 hfamily]
  have hbase := base_mod hnet
  have hhost : (hostWildcard p).toNat = q.size - 1 := hsame ▸ toNat_hostWildcard p
  have hhost4 : (hostWildcard p).is4 = a.is4 := (is4_hostWildcard p).trans ha.symm
  have hbase4 : q.addr.is4 = a.is4 := hfamily.symm.trans ha.symm
  obtain ⟨k, hk⟩ : ∃ k, q.size = 2 ^ k := ⟨_, rfl⟩
  rw [hk] at hhost hbase ⊢
  rw [toNat_carryAcross hhost4 hbase4, hhost, and_or_eq _ _ hbase]

namespace Pairing

variable {p q : Pairing}

theorem real_size (p : Pairing) : p.real.size = p.mapped.size := by
  rw [Prefix.size, Prefix.size, p.size, Addr.bitLen_eq_of_is4 p.family]

theorem base_add_host {s : Prefix} (hs : s.masked = s) {a : Addr} (ha : s.contains a = true) :
    s.addr.toNat + a.toNat % s.size = a.toNat := by
  obtain ⟨_, hle, hlt⟩ := (contains_iff_range hs).1 ha
  obtain ⟨d, hd⟩ := Nat.le.dest hle
  rw [← hd, Nat.add_mod, base_mod hs, Nat.zero_add, Nat.mod_mod, Nat.mod_eq_of_lt (by omega)]

theorem carried {s t : Prefix} (hfamily : s.addr.is4 = t.addr.is4) (hsize : s.size = t.size)
    (hs : s.masked = s) (ht : t.masked = t) {a b : Addr} (ha : s.contains a = true)
    (hb4 : b.is4 = a.is4) (hb : b.toNat = t.addr.toNat + a.toNat % t.size) :
    t.contains b = true ∧ s.addr.toNat + b.toNat % s.size = a.toNat := by
  have hhost : a.toNat % t.size < t.size := Nat.mod_lt _ t.size_pos
  refine ⟨(contains_iff_range ht).2 ⟨?_, by omega, by omega⟩, ?_⟩
  · rw [hb4, ← is4_of_contains ha, hfamily]
  · have hb' : b.toNat % t.size = a.toNat % t.size := by
      rw [hb, Nat.add_mod, base_mod ht, Nat.zero_add, Nat.mod_mod, Nat.mod_mod]
    rw [hsize, hb', ← hsize]
    exact base_add_host hs ha

theorem out_spec (p : Pairing) {a : Addr} (ha : p.mapped.contains a = true) :
    p.real.contains (carryAcross a (hostWildcard p.mapped) p.real.addr) = true ∧
      carryAcross (carryAcross a (hostWildcard p.mapped) p.real.addr) (hostWildcard p.mapped)
        p.mapped.addr = a := by
  have ha4 := (is4_of_contains ha).symm
  have hb4 := is4_carryAcross a (hostWildcard p.mapped) p.real.addr
  have hout := toNat_carried p.family p.size p.realNet ha4
  obtain ⟨hin, hback⟩ := carried p.family p.real_size.symm p.mappedNet p.realNet ha hb4 hout
  refine ⟨hin, Addr.ext_toNat ((is4_carryAcross ..).trans hb4) ?_⟩
  rw [toNat_carried rfl rfl p.mappedNet (hb4.trans ha4)]
  exact hback

theorem back_spec (p : Pairing) {b : Addr} (hb : p.real.contains b = true) :
    p.mapped.contains (carryAcross b (hostWildcard p.mapped) p.mapped.addr) = true ∧
      carryAcross (carryAcross b (hostWildcard p.mapped) p.mapped.addr) (hostWildcard p.mapped)
        p.real.addr = b := by
  have hb4 : b.is4 = p.mapped.addr.is4 := (is4_of_contains hb).symm.trans p.family.symm
  have ha4 := is4_carryAcross b (hostWildcard p.mapped) p.mapped.addr
  have hout := toNat_carried (p := p.mapped) rfl rfl p.mappedNet hb4
  obtain ⟨hin, hback⟩ := carried p.family.symm p.real_size p.realNet p.mappedNet hb ha4 hout
  refine ⟨hin, Addr.ext_toNat ((is4_carryAcross ..).trans ha4) ?_⟩
  rw [toNat_carried p.family p.size p.realNet (ha4.trans hb4)]
  exact hback

def swap (p : Pairing) : Swap Addr where
  src := p.mapped.contains
  dst := p.real.contains
  out a := carryAcross a (hostWildcard p.mapped) p.real.addr
  back b := carryAcross b (hostWildcard p.mapped) p.mapped.addr
  back_src _ hb := (p.back_spec hb).1
  out_dst _ ha := (p.out_spec ha).1
  back_out _ ha := (p.out_spec ha).2
  out_back _ hb := (p.back_spec hb).2

theorem rewrite_outRule (iface : String) (p : Pairing) (a : Addr) :
    (p.outRule iface).rewrite iface a = p.swap.there a := by
  simp only [MapRule.rewrite, outRule, true_and, p.realNet]
  rfl

theorem rewrite_inRule (iface : String) (p : Pairing) (a : Addr) :
    (p.inRule iface).rewrite iface a = p.swap.home a := by
  simp only [MapRule.rewrite, inRule, true_and, p.mappedNet]
  rfl

theorem carry_self {s : Prefix} (hs : s.masked = s) {a : Addr} (ha : s.contains a = true) :
    carryAcross a (hostWildcard s) s.addr = a := by
  have ha4 := (is4_of_contains ha).symm
  refine Addr.ext_toNat (is4_carryAcross ..) ?_
  rw [toNat_carried rfl rfl hs ha4]
  exact base_add_host hs ha

theorem there_self (h : p.mapped = p.real) (a : Addr) : p.swap.there a = a := by
  unfold Swap.there
  split
  · rename_i ha
    change carryAcross a (hostWildcard p.mapped) p.real.addr = a
    rw [← h]
    exact carry_self p.mappedNet ha
  · rfl

theorem home_self (h : p.mapped = p.real) (a : Addr) : p.swap.home a = a := by
  unfold Swap.home
  split
  · rename_i ha
    refine carry_self p.mappedNet ?_
    rw [h]
    exact ha
  · rfl

theorem moves_swap (h : p.mapped ≠ p.real) : p.swap.Moves := by
  refine ⟨fun a ha => ?_, p.mapped.addr, contains_self _⟩
  by_contra hreal
  refine h ?_
  obtain ⟨_, hm⟩ := contains_iff.1 ha
  obtain ⟨_, hr⟩ := contains_iff.1 (Bool.eq_true_of_not_eq_false hreal)
  rw [p.real_size] at hr
  -- Networks of one size that share an address have one base.
  have hbase : p.mapped.addr.toNat = p.real.addr.toNat := by
    have hmapped := toNat_masked p.mapped
    have hrealBase := toNat_masked p.real
    rw [p.mappedNet] at hmapped
    rw [p.realNet, p.real_size] at hrealBase
    rw [hmapped, hrealBase, hm, hr]
  have haddr : p.mapped.addr = p.real.addr := Addr.ext_toNat p.family hbase
  have hbits := p.size
  rcases p with ⟨⟨_, _, _⟩, ⟨_, _, _⟩, _, _, _, _⟩
  simp only at haddr hbits
  subst haddr hbits
  rfl

def Before (p q : Pairing) : Prop :=
  ¬q.less p = true

instance decidableBefore : DecidableRel Before := fun p q =>
  inferInstanceAs (Decidable (¬q.less p = true))

theorem before_iff : Before p q ↔
    p.mapped.addr.bitLen < q.mapped.addr.bitLen ∨ p.mapped.addr.bitLen = q.mapped.addr.bitLen ∧
      (p.mapped.addr.toNat < q.mapped.addr.toNat ∨
        p.mapped.addr.toNat = q.mapped.addr.toNat ∧ p.mapped.bits ≤ q.mapped.bits) := by
  unfold Before less
  by_cases heq : q.mapped.addr = p.mapped.addr
  · rw [if_neg (not_not.2 heq), heq]
    simp
  · have hcompare : q.mapped.addr.compare p.mapped.addr = .lt ↔
        q.mapped.addr.bitLen < p.mapped.addr.bitLen ∨
          q.mapped.addr.bitLen = p.mapped.addr.bitLen ∧
            q.mapped.addr.toNat < p.mapped.addr.toNat := by
      simp only [Addr.compare, Ordering.then_eq_lt, Nat.compare_eq_lt, Nat.compare_eq_eq]
    have hne : ¬(q.mapped.addr.bitLen = p.mapped.addr.bitLen ∧
        q.mapped.addr.toNat = p.mapped.addr.toNat) := fun h =>
      heq (Addr.ext_toNat (Addr.is4_eq_of_bitLen h.1) h.2)
    rw [if_pos heq, beq_iff_eq, hcompare]
    omega

theorem before_addr (h : Before p q) (hfamily : p.mapped.addr.is4 = q.mapped.addr.is4) :
    p.mapped.addr.toNat ≤ q.mapped.addr.toNat := by
  have hlen := Addr.bitLen_eq_of_is4 hfamily
  have h := before_iff.1 h
  omega

theorem inside_or_apart_of_before (h : Before p q) :
    Swap.Inside q.swap.src p.swap.src ∨ Swap.Apart q.swap.src p.swap.src := by
  by_cases hover : p.mapped.overlaps q.mapped = true
  · left
    intro a ha
    by_cases hbits : p.mapped.bits ≤ q.mapped.bits
    · exact contains_of_overlaps hover hbits ha
    · -- The later one would be the larger, and begin no later.
      exfalso
      rw [Prefix.overlaps_comm] at hover
      have hin := contains_of_overlaps hover (Nat.le_of_not_le hbits)
        (contains_self p.mapped)
      obtain ⟨hf, hle, _⟩ := (contains_iff_range q.mappedNet).1 hin
      have hlen := Addr.bitLen_eq_of_is4 hf
      have h := before_iff.1 h
      omega
  · right
    intro a ha
    by_contra hp
    exact hover (Prefix.overlaps_of_contains (Bool.eq_true_of_not_eq_false hp) ha)

theorem inside_of_between {r : Pairing} (hpq : Before p q) (hqr : Before q r)
    (hin : Swap.Inside r.swap.src p.swap.src) : Swap.Inside q.swap.src p.swap.src := by
  rcases inside_or_apart_of_before hpq with hq | hq
  · exact hq
  · exfalso
    obtain ⟨hf, _, hlt⟩ := (contains_iff_range p.mappedNet).1
      (hin _ (contains_self r.mapped))
    have hlen : p.mapped.addr.bitLen = q.mapped.addr.bitLen := by
      have hf := Addr.bitLen_eq_of_is4 hf
      have hpq := before_iff.1 hpq
      have hqr := before_iff.1 hqr
      omega
    have hfq := Addr.is4_eq_of_bitLen hlen
    have hle := before_addr hpq hfq
    have hle' := before_addr hqr (hfq.symm.trans hf)
    have hcontains : p.swap.src q.mapped.addr = true :=
      (contains_iff_range p.mappedNet).2 ⟨hfq, hle, Nat.lt_of_le_of_lt hle' hlt⟩
    rw [hq _ (contains_self q.mapped)] at hcontains
    cases hcontains

end Pairing

variable {ps : List Pairing} {ms : List Mapping}

theorem nested_of_sorted (h : ps.Pairwise Pairing.Before) :
    Swap.Nested (ps.map Pairing.swap) where
  pair := List.pairwise_map.2 (h.imp Pairing.inside_or_apart_of_before)
  block := by
    intro s t u hsub hin
    obtain ⟨qs, hqs, heq⟩ := List.sublist_map_iff.1 hsub
    match qs, heq with
    | [p, q, r], heq =>
      cases heq
      have hqs := h.sublist hqs
      simp only [List.pairwise_cons, List.mem_cons, List.not_mem_nil, or_false, forall_eq_or_imp,
        forall_eq] at hqs
      exact Pairing.inside_of_between hqs.1.1 hqs.2.1 hin

def moving (ps : List Pairing) : List Pairing :=
  ps.filter fun p => p.mapped ≠ p.real

theorem moves_of_mem_moving : ∀ s ∈ (moving ps).map Pairing.swap, s.Moves := by
  intro s hs
  obtain ⟨p, hp, rfl⟩ := mem_map.1 hs
  exact Pairing.moves_swap (of_decide_eq_true (List.mem_filter.1 hp).2)

theorem translate_outbound (iface : String) (ps : List Pairing) (a : Addr) :
    translate (ps.map (·.outRule iface)) iface a =
      Swap.thereBy ((moving ps).map Pairing.swap) a := by
  unfold moving
  induction ps generalizing a with
  | nil => rfl
  | cons p ps ih =>
    rw [map_cons, translate, foldl_cons, Pairing.rewrite_outRule]
    refine (ih _).trans ?_
    by_cases h : p.mapped = p.real
    · rw [List.filter_cons_of_neg (by simpa using h), Pairing.there_self h]
    · rw [List.filter_cons_of_pos (by simpa using h)]
      rfl

theorem translate_inbound (iface : String) (ps : List Pairing) (a : Addr) :
    translate (ps.map (·.inRule iface)) iface a =
      Swap.backBy ((moving ps).map Pairing.swap) a := by
  unfold moving
  induction ps generalizing a with
  | nil => rfl
  | cons p ps ih =>
    rw [map_cons, translate, foldl_cons, Pairing.rewrite_inRule]
    refine (ih _).trans ?_
    by_cases h : p.mapped = p.real
    · rw [List.filter_cons_of_neg (by simpa using h), Pairing.home_self h]
    · rw [List.filter_cons_of_pos (by simpa using h)]
      rfl

theorem checkMapping_ok {seen : List Prefix} {m : Mapping} {p : Pairing}
    (h : checkMapping seen m = .ok p) : m = ⟨some p.mapped, some p.real⟩ := by
  obtain ⟨mapped, real⟩ := m
  cases mapped with
  | none => cases h
  | some mapped =>
    cases real with
    | none => cases h
    | some real =>
      simp only [checkMapping] at h
      split at h
      · split at h
        · split at h
          · split at h
            · cases h
            · cases h
              rfl
          · cases h
        · cases h
      · cases h

theorem checkMappings_ok {seen : List Prefix} (h : checkMappings seen ms = .ok ps) :
    ms = ps.map fun p => ⟨some p.mapped, some p.real⟩ := by
  induction ms generalizing seen ps with
  | nil =>
    cases h
    rfl
  | cons m ms ih =>
    obtain ⟨p, hp, h⟩ := bind_eq_ok.1 h
    obtain ⟨rest, hrest, h⟩ := bind_eq_ok.1 h
    cases h
    rw [map_cons, ← checkMapping_ok hp, ← ih hrest]

theorem validMappings_ok (h : validMappings ms = .ok ps) :
    ps.Pairwise Pairing.Before ∧ ∀ m, m ∈ ms ↔ ∃ p ∈ ps, m = ⟨some p.mapped, some p.real⟩ := by
  obtain ⟨qs, hqs, rfl⟩ := Base.map_eq_ok.1 h
  constructor
  · have htotal : Std.Total Pairing.Before := by
      refine ⟨fun p q => ?_⟩
      rw [Pairing.before_iff, Pairing.before_iff]
      omega
    have htrans : IsTrans Pairing Pairing.Before := by
      refine ⟨fun p q r hpq hqr => ?_⟩
      rw [Pairing.before_iff] at hpq hqr ⊢
      omega
    exact List.pairwise_insertionSort Pairing.Before qs
  · intro m
    rw [checkMappings_ok hqs, mem_map]
    simp only [List.mem_insertionSort, eq_comm]

theorem renderMap_ok {iface : String} {table : MapTable} (accepted : validMappings ms = .ok ps)
    (rendered : renderMap iface ms = .ok table) :
    table = ⟨ps.map (·.outRule iface), ps.map (·.inRule iface)⟩ := by
  obtain ⟨_, hrest⟩ := refuseIf_bind_eq_ok.1 rendered
  by_cases hnone : ms = []
  · rw [if_pos hnone] at hrest
    subst hnone
    cases accepted
    cases hrest
    rfl
  · rw [if_neg hnone, accepted] at hrest
    cases hrest
    rfl

def Unmixed (ps : List Pairing) : Prop :=
  (∀ xs p ys, moving ps = xs ++ p :: ys → (∀ k ∈ xs, p.mapped.overlaps k.mapped = false) →
    (∀ k ∈ ys, p.real.overlaps k.mapped = false) ∧ (∀ k ∈ xs, p.real.overlaps k.real = false) ∧
      ∀ k ∈ ys, p.mapped.overlaps k.real = false) ∧
  ∀ a, (∃ p ∈ ps, p.mapped.contains a = true) → (∀ p ∈ moving ps, p.mapped.contains a = false) →
    ∀ p ∈ moving ps, p.real.contains a = false

theorem apart_iff_overlaps {p q : Prefix} :
    Swap.Apart p.contains q.contains ↔ p.overlaps q = false := by
  constructor
  · intro h
    by_contra hover
    have hover : p.overlaps q = true := Bool.eq_true_of_not_eq_false hover
    -- The longer of the two has its own address in both.
    rcases Nat.le_total p.bits q.bits with hbits | hbits
    · have hin := contains_of_overlaps hover hbits (contains_self q)
      exact absurd ((h _ hin).symm.trans (contains_self q)) Bool.false_ne_true
    · rw [Prefix.overlaps_comm] at hover
      have hin := contains_of_overlaps hover hbits (contains_self p)
      exact absurd ((h _ (contains_self p)).symm.trans hin) Bool.false_ne_true
  · intro h a hp
    by_contra hq
    rw [Prefix.overlaps_of_contains hp (Bool.eq_true_of_not_eq_false hq)] at h
    cases h

theorem untangled_iff : Swap.Untangled (ps.map Pairing.swap) ↔
    ∀ xs p ys, ps = xs ++ p :: ys → (∀ k ∈ xs, p.mapped.overlaps k.mapped = false) →
      (∀ k ∈ ys, p.real.overlaps k.mapped = false) ∧ (∀ k ∈ xs, p.real.overlaps k.real = false) ∧
        ∀ k ∈ ys, p.mapped.overlaps k.real = false := by
  simp only [← apart_iff_overlaps]
  constructor
  · rintro h xs p ys rfl hlive
    have hsplit : (xs ++ p :: ys).map Pairing.swap =
        xs.map Pairing.swap ++ p.swap :: ys.map Pairing.swap := by simp
    obtain ⟨hthere, hbefore, hafter⟩ := h _ _ _ hsplit fun k hk => by
      obtain ⟨q, hq, rfl⟩ := mem_map.1 hk
      exact hlive q hq
    exact ⟨fun k hk => hthere _ (mem_map_of_mem hk),
      fun k hk => hbefore _ (mem_map_of_mem hk), fun k hk => hafter _ (mem_map_of_mem hk)⟩
  · intro h xs s ys hsplit hlive
    obtain ⟨ps₁, ps₂, rfl, rfl, hrest⟩ := List.map_eq_append_iff.1 hsplit
    obtain ⟨p, ps₃, rfl, rfl, rfl⟩ := List.map_eq_cons_iff.1 hrest
    obtain ⟨hthere, hbefore, hafter⟩ := h ps₁ p ps₃ rfl fun k hk => hlive _ (mem_map_of_mem hk)
    simp only [forall_mem_map]
    exact ⟨hthere, hbefore, hafter⟩

instance finiteAddr : Finite Addr := by
  have hlt : ∀ a : Addr, a.toNat < 2 ^ 128 := by
    intro a
    refine Nat.lt_of_lt_of_le a.toNat_lt (Nat.pow_le_pow_right (by decide) ?_)
    cases a with
    | v4 a => exact (by decide : 32 ≤ 128)
    | v6 a => exact Nat.le_refl 128
  refine Finite.of_injective (β := Bool × Fin (2 ^ 128)) (fun a => (a.is4, ⟨a.toNat, hlt a⟩))
    fun a b h => ?_
  exact Addr.ext_toNat (congrArg Prod.fst h) (congrArg (fun x => x.2.val) h)

/-- What is rendered brings every mapped address back, and leaves the addresses of no range alone,
just when the mappings leave each other alone. -/
theorem mapped_round_trip_iff (iface : String) (ms : List Mapping) (ordered : List Pairing)
    (table : MapTable) (accepted : validMappings ms = .ok ordered)
    (rendered : renderMap iface ms = .ok table) :
    ((∀ m ∈ ms, ∀ q, m.mapped = some q → ∀ a, q.contains a = true →
        translate table.inbound iface (translate table.outbound iface a) = a) ∧
      ∀ a, (∀ m ∈ ms, ∀ q, m.mapped = some q ∨ m.real = some q → q.contains a = false) →
        translate table.outbound iface a = a ∧ translate table.inbound iface a = a) ↔
      Unmixed ordered := by
  obtain ⟨hsorted, hmem⟩ := validMappings_ok accepted
  cases renderMap_ok accepted rendered
  simp only [translate_outbound, translate_inbound]
  have hnested : Swap.Nested ((moving ordered).map Pairing.swap) :=
    nested_of_sorted (hsorted.filter _)
  have hround := Swap.roundTrip_iff hnested moves_of_mem_moving
  rw [untangled_iff] at hround
  -- A mapping that is rendered is one that was given.
  have hgiven : ∀ p ∈ moving ordered, (⟨some p.mapped, some p.real⟩ : Mapping) ∈ ms :=
    fun p hp => (hmem _).2 ⟨p, List.mem_of_mem_filter hp, rfl⟩
  constructor
  · rintro ⟨hback, _⟩
    refine ⟨hround.1 fun s hs x hx => ?_, fun a hmapped hself p hp => ?_⟩
    · obtain ⟨p, hp, rfl⟩ := mem_map.1 hs
      exact hback _ (hgiven p hp) p.mapped rfl x hx
    · obtain ⟨r, hr, ha⟩ := hmapped
      have hkept := hback _ ((hmem _).2 ⟨r, hr, rfl⟩) r.mapped rfl a ha
      have hsrc : ∀ s ∈ (moving ordered).map Pairing.swap, s.src a = false :=
        forall_mem_map.2 hself
      rw [Swap.thereBy_eq_self hsrc, Swap.backBy_eq_self_iff hsrc] at hkept
      exact hkept _ (mem_map_of_mem hp)
  · rintro ⟨huntangled, hself⟩
    refine ⟨fun m hm q hq a ha => ?_, fun a hout => ⟨?_, ?_⟩⟩
    · obtain ⟨r, hr, rfl⟩ := (hmem m).1 hm
      cases hq
      by_cases hcaught : ∃ p ∈ moving ordered, p.mapped.contains a = true
      · obtain ⟨p, hp, hpa⟩ := hcaught
        exact hround.2 huntangled p.swap (mem_map_of_mem hp) a hpa
      · push Not at hcaught
        have hfree : ∀ p ∈ moving ordered, p.mapped.contains a = false :=
          fun p hp => Bool.eq_false_iff.2 (hcaught p hp)
        rw [Swap.thereBy_eq_self (forall_mem_map.2 hfree)]
        exact Swap.backBy_eq_self (forall_mem_map.2 (hself a ⟨r, hr, ha⟩ hfree))
    · refine Swap.thereBy_eq_self (forall_mem_map.2 fun p hp => ?_)
      exact hout _ (hgiven p hp) p.mapped (.inl rfl)
    · refine Swap.backBy_eq_self (forall_mem_map.2 fun p hp => ?_)
      exact hout _ (hgiven p hp) p.real (.inr rfl)

def mapTo (mapped real : String) : Mapping :=
  ⟨Netip.parsePrefix mapped, Netip.parsePrefix real⟩

def thereAndBack (iface : String) (ms : List Mapping) (a : String) : Option (Addr × Addr) :=
  match renderMap iface ms, Netip.parseAddr a with
  | .ok table, some a =>
    let out := translate table.outbound iface a
    some (out, translate table.inbound iface out)
  | _, _ => none

theorem mapped_round_trip_office : ∃ ordered table,
    validMappings [mapTo "100.71.5.0/24" "192.168.1.0/24"] = .ok ordered ∧
      renderMap "meshp0" [mapTo "100.71.5.0/24" "192.168.1.0/24"] = .ok table ∧
      (((∀ m ∈ [mapTo "100.71.5.0/24" "192.168.1.0/24"], ∀ q, m.mapped = some q →
          ∀ a, q.contains a = true →
            translate table.inbound "meshp0" (translate table.outbound "meshp0" a) = a) ∧
        ∀ a, (∀ m ∈ [mapTo "100.71.5.0/24" "192.168.1.0/24"], ∀ q,
            m.mapped = some q ∨ m.real = some q → q.contains a = false) →
          translate table.outbound "meshp0" a = a ∧ translate table.inbound "meshp0" a = a) ↔
        Unmixed ordered) := by
  obtain ⟨ordered, hordered, table, htable, _⟩ : ∃ ordered,
      validMappings [mapTo "100.71.5.0/24" "192.168.1.0/24"] = .ok ordered ∧ ∃ table,
        renderMap "meshp0" [mapTo "100.71.5.0/24" "192.168.1.0/24"] = .ok table ∧ True := by
    decide +kernel
  exact ⟨ordered, table, hordered, htable,
    mapped_round_trip_iff "meshp0" _ ordered table hordered htable⟩

/-- A real range that is mapped again further down: the address typed first comes back as another.
And two ranges for one network: what comes back is the first. -/
theorem mapped_caught_again :
    thereAndBack "meshp0" [mapTo "100.71.5.0/24" "100.71.6.0/24",
        mapTo "100.71.6.0/24" "192.168.1.0/24"] "100.71.5.5" =
      (Netip.parseAddr "192.168.1.5").bind (fun out =>
        (Netip.parseAddr "100.71.6.5").map fun back => (out, back)) ∧
    thereAndBack "meshp0" [mapTo "100.71.5.0/24" "192.168.1.0/24",
        mapTo "100.71.6.0/24" "192.168.1.0/24"] "100.71.6.5" =
      (Netip.parseAddr "192.168.1.5").bind (fun out =>
        (Netip.parseAddr "100.71.5.5").map fun back => (out, back)) := by
  decide +kernel

end Meshp.Nftables
