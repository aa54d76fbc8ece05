import Meshp.Prefixmap.Allocate
import Meshp.Session.Builder
import Meshp.Store.Effect

/-!
# Where a Device Reaches Its Colliding Prefixes

A device in two networks that carry the same prefix cannot route to both, so each
is given a range to be reached by. Whether a prefix collides is a matter of one
device, and the range, once recorded, is a matter of the network and the prefix:
every device with a collision of its own is handed every range recorded for the
networks it is in.
-/

namespace Meshp.Session

open Netip (Prefix)
open Store

/-- A row of `prefix_mappings`: where a network's prefix is reached. -/
structure MappedRange where
  organizationId : Id
  networkId : Id
  real : Prefix
  mapped : Prefix
  deriving DecidableEq

def MappedRange.mapping (r : MappedRange) : PrefixMapping :=
  ⟨r.networkId, r.real, r.mapped⟩

/-- `DefaultMappedBlock`, 100.71.0.0/16. -/
def defaultMappedBlock : Prefix :=
  ⟨.v4 0x64470000, 16, by decide⟩

/-- `CarriedPrefixesForDevice`: every prefix reachable through each network a device is active in,
to somewhere in particular. -/
def carriedPrefixesForDevice (t : Tables) (device : Id) : List (Id × Prefix) :=
  (t.memberships.filter fun x => x.deviceId = device ∧ x.state = .active).flatMap fun x =>
    ((groupsOf t x.networkId).filter (·.kind ≠ .egress)).flatMap fun g =>
      (t.routeGroupPrefixes.filter (·.routeGroupId = g.id)).map fun r => (x.networkId, r.network)

def networksCarrying (carried : List (Id × Prefix)) (p : Prefix) : List Id :=
  ((carried.filter (·.2.masked = p)).map Prod.fst).dedup

/-- `Colliding`: the prefixes carried in more than one network, default routes aside. -/
def colliding (carried : List (Id × Prefix)) : List Prefix :=
  (((carried.map (·.2.masked)).dedup.filter fun p =>
    p.bits ≠ 0 ∧ 1 < (networksCarrying carried p).length)).insertionSort (Acl.prefixLe · ·)

/-- The order of `sortMappings`: by prefix, then network. -/
def mappingLe (a b : Id × Prefix) : Bool :=
  if a.2 = b.2 then a.1 ≤ b.1 else Acl.prefixLe a.2 b.2

/-- `needed`: the networks and prefixes that collide and have no range yet. -/
def needed (carried : List (Id × Prefix)) (existing : List MappedRange) : List (Id × Prefix) :=
  ((colliding carried).flatMap fun p =>
    ((networksCarrying carried p).filter fun n =>
      ∀ r ∈ existing, ¬(r.networkId = n ∧ r.real = p)).map fun n => (n, p)).insertionSort
    (mappingLe · ·)

/-- The order of `MappedPrefixesForNetworks`. -/
def rangeLe (a b : MappedRange) : Bool :=
  if a.networkId = b.networkId then Acl.prefixLe a.real b.real else a.networkId ≤ b.networkId

def mappedPrefixesForNetworks (ranges : List MappedRange) (ns : List Id) : List MappedRange :=
  (ranges.filter (·.networkId ∈ ns)).insertionSort (rangeLe · ·)

/-- `SpokenForRangesInOrganization`: an organisation's pools, its mapped ranges, and whatever its
networks carry inside the block. -/
def spokenForRangesInOrganization (m : Mesh) (ranges : List MappedRange) (org : Id)
    (block : Prefix) : List Prefix :=
  let networks := (m.networks.filter fun n => n.organizationId = org ∧ n.deletedAt = none).map
    Network.id
  (m.addressPools.filter (·.networkId ∈ networks)).map AddressPool.network ++
    (ranges.filter (·.organizationId = org)).map MappedRange.mapped ++
    ((m.routeGroups.filter fun g => g.networkId ∈ networks ∧ g.kind ≠ .egress).flatMap fun g =>
      (m.routeGroupPrefixes.filter fun r => r.routeGroupId = g.id ∧ r.network.overlaps block).map
        RouteGroupPrefix.network).dedup

def allocateMissing (block : Prefix) (org : Id) :
    List Prefix → List (Id × Prefix) → List MappedRange × Option (Prefix × Prefixmap.Fault)
  | _, [] => ([], none)
  | reserved, (n, p) :: rest =>
    match Prefixmap.allocate block p reserved with
    | .error fault => ([], some (p, fault))
    | .ok q =>
      let later := allocateMissing block org (reserved ++ [q]) rest
      (⟨org, n, p, q⟩ :: later.1, later.2)

/-- What `EnsureMappings` leaves behind: the rows it recorded, the ranges it answers with, and the
prefix it could not map. The answer stands beside the failure. -/
structure Ensured where
  fresh : List MappedRange := []
  mappings : List PrefixMapping := []
  fault : Option (Prefix × Prefixmap.Fault) := none

def ensureMappings (block : Prefix) (m : Mesh) (ranges : List MappedRange) (device : Id) :
    Ensured :=
  let carried := carriedPrefixesForDevice m.toTables device
  if colliding carried = [] then {}
  else
    let existing := mappedPrefixesForNetworks ranges (carried.map Prod.fst)
    let missing := needed carried existing
    if missing = [] then { mappings := existing.map MappedRange.mapping }
    else
      match m.devices.find? (·.id = device) with
      | none => {}
      | some d =>
        let allocated := allocateMissing block d.organizationId
          (spokenForRangesInOrganization m ranges d.organizationId block) missing
        { fresh := allocated.1
          mappings := (existing ++ allocated.1).map MappedRange.mapping
          fault := allocated.2 }

section Sets

variable {t : Tables} {m : Mesh} {ranges ranges' : List MappedRange} {device : Id}
  {carried carried' : List (Id × Prefix)} {n : Id} {p : Prefix}

theorem mem_carried : (n, p) ∈ carriedPrefixesForDevice t device ↔
    (∃ x ∈ t.memberships, x.deviceId = device ∧ x.state = .active ∧ x.networkId = n) ∧
      Carries t n p := by
  unfold carriedPrefixesForDevice Carries
  simp only [List.mem_flatMap, List.mem_filter, List.mem_map, decide_eq_true_eq, Prod.mk.injEq]
  constructor
  · rintro ⟨x, ⟨hx, hd, hact⟩, g, ⟨hg, hkind⟩, r, ⟨hr, hrg⟩, rfl, rfl⟩
    exact ⟨⟨x, hx, hd, hact, rfl⟩, g, hg, hkind, r, hr, hrg, rfl⟩
  · rintro ⟨⟨x, hx, hd, hact, rfl⟩, g, hg, hkind, r, hr, hrg, rfl⟩
    exact ⟨x, ⟨hx, hd, hact⟩, g, ⟨hg, hkind⟩, r, ⟨hr, hrg⟩, rfl, rfl⟩

theorem mem_networksCarrying :
    n ∈ networksCarrying carried p ↔ ∃ q, (n, q) ∈ carried ∧ q.masked = p := by
  unfold networksCarrying
  simp only [List.mem_dedup, List.mem_map, List.mem_filter, decide_eq_true_eq, Prod.exists]
  constructor
  · rintro ⟨_, q, ⟨hmem, hq⟩, rfl⟩
    exact ⟨q, hmem, hq⟩
  · rintro ⟨q, hmem, hq⟩
    exact ⟨n, q, ⟨hmem, hq⟩, rfl⟩

theorem mem_colliding : p ∈ colliding carried ↔ p.bits ≠ 0 ∧
    ∃ n ∈ networksCarrying carried p, ∃ n' ∈ networksCarrying carried p, n ≠ n' := by
  have htwo : 1 < (networksCarrying carried p).length ↔
      ∃ n ∈ networksCarrying carried p, ∃ n' ∈ networksCarrying carried p, n ≠ n' := by
    have hnodup : (networksCarrying carried p).Nodup := List.nodup_dedup _
    rw [← List.toFinset_card_of_nodup hnodup, Finset.one_lt_card]
    simp only [List.mem_toFinset]
  unfold colliding
  rw [List.mem_insertionSort, List.mem_filter, decide_eq_true_eq, htwo, List.mem_dedup]
  constructor
  · exact And.right
  · rintro ⟨hbits, n, hn, hrest⟩
    rcases mem_networksCarrying.1 hn with ⟨q, hq, rfl⟩
    exact ⟨List.mem_map_of_mem hq, hbits, n, hn, hrest⟩

theorem mem_needed : (n, p) ∈ needed carried ranges ↔ p ∈ colliding carried ∧
    n ∈ networksCarrying carried p ∧ ∀ r ∈ ranges, ¬(r.networkId = n ∧ r.real = p) := by
  unfold needed
  rw [List.mem_insertionSort, List.mem_flatMap]
  simp only [List.mem_map, List.mem_filter, decide_eq_true_eq, Prod.mk.injEq]
  constructor
  · rintro ⟨_, hp, _, ⟨hn, hnone⟩, rfl, rfl⟩
    exact ⟨hp, hn, hnone⟩
  · rintro ⟨hp, hn, hnone⟩
    exact ⟨p, hp, n, ⟨hn, hnone⟩, rfl, rfl⟩

theorem mem_mappedPrefixesForNetworks {ns : List Id} {r : MappedRange} :
    r ∈ mappedPrefixesForNetworks ranges ns ↔ r ∈ ranges ∧ r.networkId ∈ ns := by
  unfold mappedPrefixesForNetworks
  rw [List.mem_insertionSort, List.mem_filter, decide_eq_true_eq]

theorem networksCarrying_mono (h : ∀ c ∈ carried', c ∈ carried)
    (hn : n ∈ networksCarrying carried' p) : n ∈ networksCarrying carried p := by
  rcases mem_networksCarrying.1 hn with ⟨q, hq, hp⟩
  exact mem_networksCarrying.2 ⟨q, h _ hq, hp⟩

theorem colliding_mono (h : ∀ c ∈ carried', c ∈ carried) (hp : p ∈ colliding carried') :
    p ∈ colliding carried := by
  rcases mem_colliding.1 hp with ⟨hbits, n, hn, n', hn', hne⟩
  exact mem_colliding.2
    ⟨hbits, n, networksCarrying_mono h hn, n', networksCarrying_mono h hn', hne⟩

end Sets

section Ensure

variable {block : Prefix} {m m' : Mesh} {ranges ranges' : List MappedRange} {device : Id} {n : Id}
  {p : Prefix}

def Settled (m : Mesh) (ranges : List MappedRange) (device : Id) : Prop :=
  ∀ p ∈ colliding (carriedPrefixesForDevice m.toTables device),
    ∀ n ∈ networksCarrying (carriedPrefixesForDevice m.toTables device) p,
      ∃ r ∈ ranges, r.networkId = n ∧ r.real = p

def Roomy (block : Prefix) (m : Mesh) (ranges : List MappedRange) (device : Id) : Prop :=
  ∀ d ∈ m.devices, d.id = device →
    (allocateMissing block d.organizationId
      (spokenForRangesInOrganization m ranges d.organizationId block)
      (needed (carriedPrefixesForDevice m.toTables device) ranges)).2 = none

def OnePer (rows : List PrefixMapping) : Prop :=
  ∀ r ∈ rows, ∀ r' ∈ rows, r.networkId = r'.networkId → r.real.masked = r'.real.masked → r = r'

theorem mappedByNetwork_eq_some {rows : List PrefixMapping} (hone : OnePer rows) {q : Prefix} :
    mappedByNetwork rows n p = some q ↔
      ∃ r ∈ rows, r.networkId = n ∧ r.real.masked = p.masked ∧ r.mapped = q := by
  unfold mappedByNetwork
  rw [Option.map_eq_some_iff]
  constructor
  · rintro ⟨r, hr, rfl⟩
    obtain ⟨hmem, hp⟩ := Base.of_find? hr
    rw [List.mem_reverse, List.mem_filter, decide_eq_true_eq] at hmem
    exact ⟨r, hmem.1, hmem.2, hp, rfl⟩
  · rintro ⟨r, hr, hn, hp, rfl⟩
    cases hfind : ((rows.filter (·.networkId = n)).reverse.find? (·.real.masked = p.masked)) with
    | none =>
      rw [List.find?_eq_none] at hfind
      have hin : r ∈ (rows.filter (·.networkId = n)).reverse :=
        List.mem_reverse.2 (List.mem_filter.2 ⟨hr, decide_eq_true hn⟩)
      exact absurd (decide_eq_true hp) (hfind r hin)
    | some r' =>
      obtain ⟨hmem, hp'⟩ := Base.of_find? hfind
      rw [List.mem_reverse, List.mem_filter, decide_eq_true_eq] at hmem
      exact ⟨r', rfl, congrArg _ (hone r' hmem.1 r hr (hmem.2.trans hn.symm) (hp'.trans hp.symm))⟩

theorem mappedByNetwork_congr {rows rows' : List PrefixMapping} (hone : OnePer rows)
    (hone' : OnePer rows') (h : ∀ r, r.networkId = n → (r ∈ rows ↔ r ∈ rows')) :
    mappedByNetwork rows n = mappedByNetwork rows' n := by
  funext p
  refine Option.ext fun q => ?_
  rw [mappedByNetwork_eq_some hone, mappedByNetwork_eq_some hone']
  refine exists_congr fun r => ?_
  constructor
  · rintro ⟨hr, hn, hrest⟩
    exact ⟨(h r hn).1 hr, hn, hrest⟩
  · rintro ⟨hr, hn, hrest⟩
    exact ⟨(h r hn).2 hr, hn, hrest⟩

structure RangesInv (ranges : List MappedRange) : Prop where
  masked : ∀ r ∈ ranges, r.real.masked = r.real
  one : ∀ r ∈ ranges, ∀ r' ∈ ranges, r.networkId = r'.networkId → r.real = r'.real → r = r'

theorem RangesInv.onePer (h : RangesInv ranges) {rows : List PrefixMapping}
    (hrows : ∀ p ∈ rows, ∃ r ∈ ranges, r.mapping = p) : OnePer rows := by
  intro p hp p' hp' hn hreal
  rcases hrows p hp with ⟨r, hr, rfl⟩
  rcases hrows p' hp' with ⟨r', hr', rfl⟩
  change r.real.masked = r'.real.masked at hreal
  rw [h.masked r hr, h.masked r' hr'] at hreal
  rw [h.one r hr r' hr' hn hreal]

theorem needed_mappedPrefixes (carried : List (Id × Prefix)) (ranges : List MappedRange) :
    needed carried (mappedPrefixesForNetworks ranges (carried.map Prod.fst)) =
      needed carried ranges := by
  unfold needed
  congr 1
  refine List.flatMap_congr fun p _ => congrArg _ (List.filter_congr fun n hn => ?_)
  rw [decide_eq_decide]
  rcases mem_networksCarrying.1 hn with ⟨q, hq, _⟩
  refine ⟨fun h r hr hrow => h r (mem_mappedPrefixesForNetworks.2 ⟨hr, ?_⟩) hrow,
    fun h r hr => h r (mem_mappedPrefixesForNetworks.1 hr).1⟩
  rw [hrow.1]
  exact List.mem_map_of_mem hq

theorem nodup_needed (carried : List (Id × Prefix)) (ranges : List MappedRange) :
    (needed carried ranges).Nodup := by
  unfold needed
  rw [(List.perm_insertionSort _ _).nodup_iff, List.nodup_flatMap]
  constructor
  · intro p _
    exact ((List.nodup_dedup _).filter _).map fun _ _ h => (Prod.mk.inj h).1
  · have hnodup : (colliding carried).Nodup :=
      (List.perm_insertionSort _ _).nodup_iff.2 ((List.nodup_dedup _).filter _)
    refine hnodup.imp fun hne c hc hc' => hne ?_
    rcases List.mem_map.1 hc with ⟨_, _, rfl⟩
    rcases List.mem_map.1 hc' with ⟨_, _, h⟩
    exact (Prod.mk.inj h).2.symm

theorem settled_iff_needed : Settled m ranges device ↔
    needed (carriedPrefixesForDevice m.toTables device) ranges = [] := by
  rw [List.eq_nil_iff_forall_not_mem]
  constructor
  · rintro h ⟨n, p⟩ hmem
    rcases mem_needed.1 hmem with ⟨hp, hn, hnone⟩
    rcases h p hp n hn with ⟨r, hr, hrow⟩
    exact hnone r hr hrow
  · intro h p hp n hn
    by_contra hnone
    push Not at hnone
    exact h (n, p) (mem_needed.2 ⟨hp, hn, fun r hr hrow => hnone r hr hrow.1 hrow.2⟩)

section Allocate

variable {org : Id} {reserved : List Prefix} {missing : List (Id × Prefix)}

theorem mem_allocateMissing {r : MappedRange}
    (h : r ∈ (allocateMissing block org reserved missing).1) : (r.networkId, r.real) ∈ missing := by
  induction missing generalizing reserved with
  | nil => cases h
  | cons c rest ih =>
    rw [allocateMissing] at h
    split at h
    · cases h
    · rcases List.mem_cons.1 h with rfl | h
      · exact .head _
      · exact .tail _ (ih h)

theorem allocateMissing_all (h : (allocateMissing block org reserved missing).2 = none)
    (hmem : (n, p) ∈ missing) :
    ∃ r ∈ (allocateMissing block org reserved missing).1, r.networkId = n ∧ r.real = p := by
  induction missing generalizing reserved with
  | nil => cases hmem
  | cons c rest ih =>
    rw [allocateMissing] at h ⊢
    split at h
    · cases h
    · rcases List.mem_cons.1 hmem with rfl | hmem
      · exact ⟨_, .head _, rfl, rfl⟩
      · rcases ih h hmem with ⟨r, hr, hrow⟩
        exact ⟨r, .tail _ hr, hrow⟩

theorem allocateMissing_one (hnodup : missing.Nodup) {r r' : MappedRange}
    (hr : r ∈ (allocateMissing block org reserved missing).1)
    (hr' : r' ∈ (allocateMissing block org reserved missing).1)
    (hn : r.networkId = r'.networkId) (hreal : r.real = r'.real) : r = r' := by
  induction missing generalizing reserved with
  | nil => cases hr
  | cons c rest ih =>
    rcases List.nodup_cons.1 hnodup with ⟨hhead, hrest⟩
    rw [allocateMissing] at hr hr'
    cases halloc : Prefixmap.allocate block c.2 reserved with
    | error fault =>
      rw [halloc] at hr
      cases hr
    | ok q =>
      -- The row for the head is the only one with its key.
      rw [halloc] at hr hr'
      rcases List.mem_cons.1 hr with rfl | hr
      · rcases List.mem_cons.1 hr' with rfl | hr'
        · rfl
        · have := mem_allocateMissing hr'
          rw [← hn, ← hreal] at this
          exact absurd this hhead
      · rcases List.mem_cons.1 hr' with rfl | hr'
        · have := mem_allocateMissing hr
          rw [hn, hreal] at this
          exact absurd this hhead
        · exact ih hrest hr hr'

end Allocate

theorem mem_fresh {r : MappedRange} (h : r ∈ (ensureMappings block m ranges device).fresh) :
    (r.networkId, r.real) ∈ needed (carriedPrefixesForDevice m.toTables device) ranges := by
  simp only [ensureMappings, needed_mappedPrefixes] at h
  split at h
  · cases h
  split at h
  · cases h
  split at h
  · cases h
  · exact mem_allocateMissing h

theorem rangesInv_record (h : RangesInv ranges) :
    RangesInv (ranges ++ (ensureMappings block m ranges device).fresh) := by
  have hnew : ∀ r ∈ (ensureMappings block m ranges device).fresh, ∀ r' ∈ ranges,
      ¬(r'.networkId = r.networkId ∧ r'.real = r.real) := fun r hr =>
    (mem_needed.1 (mem_fresh hr)).2.2
  refine ⟨fun r hr => ?_, fun r hr r' hr' hn hreal => ?_⟩
  · rcases List.mem_append.1 hr with hr | hr
    · exact h.masked r hr
    · rcases mem_networksCarrying.1 (mem_needed.1 (mem_fresh hr)).2.1 with ⟨q, _, hq⟩
      rw [← hq, Prefix.masked_masked]
  · rcases List.mem_append.1 hr with hr | hr
    · rcases List.mem_append.1 hr' with hr' | hr'
      · exact h.one r hr r' hr' hn hreal
      · exact absurd ⟨hn, hreal⟩ (hnew r' hr' r hr)
    · rcases List.mem_append.1 hr' with hr' | hr'
      · exact absurd ⟨hn.symm, hreal.symm⟩ (hnew r hr r' hr')
      · simp only [ensureMappings, needed_mappedPrefixes] at hr hr'
        split at hr
        · cases hr
        rename_i hcol
        rw [if_neg hcol] at hr'
        split at hr
        · cases hr
        rename_i hmissing
        rw [if_neg hmissing] at hr'
        split at hr
        · cases hr
        · rename_i hdev
          rw [hdev] at hr'
          exact allocateMissing_one (nodup_needed _ _) hr hr' hn hreal

theorem ensureMappings_settled (h : Settled m ranges device) :
    ensureMappings block m ranges device =
      { mappings := if colliding (carriedPrefixesForDevice m.toTables device) = [] then []
          else (mappedPrefixesForNetworks ranges
            ((carriedPrefixesForDevice m.toTables device).map Prod.fst)).map
              MappedRange.mapping } := by
  simp only [ensureMappings, needed_mappedPrefixes, settled_iff_needed.1 h, if_true]
  split <;> rfl

theorem mem_mappings_settled (h : Settled m ranges device) {pm : PrefixMapping} :
    pm ∈ (ensureMappings block m ranges device).mappings ↔
      colliding (carriedPrefixesForDevice m.toTables device) ≠ [] ∧
        ∃ r ∈ ranges, (∃ p, (r.networkId, p) ∈ carriedPrefixesForDevice m.toTables device) ∧
          r.mapping = pm := by
  rw [ensureMappings_settled h]
  simp only
  by_cases hcol : colliding (carriedPrefixesForDevice m.toTables device) = []
  · simp only [hcol, if_true, List.not_mem_nil, ne_eq, not_true_eq_false, false_and]
  · rw [if_neg hcol, List.mem_map]
    simp only [mem_mappedPrefixesForNetworks, List.mem_map, Prod.exists, exists_and_right,
      exists_eq_right, ne_eq, hcol, not_false_eq_true, true_and, and_assoc]

theorem settled_of_roomy (hdev : ∃ d ∈ m.devices, d.id = device)
    (h : Roomy block m ranges device) :
    Settled m (ranges ++ (ensureMappings block m ranges device).fresh) device := by
  intro p hp n hn
  by_cases hrow : ∃ r ∈ ranges, r.networkId = n ∧ r.real = p
  · rcases hrow with ⟨r, hr, hrow⟩
    exact ⟨r, List.mem_append_left _ hr, hrow⟩
  · have hmem : (n, p) ∈ needed (carriedPrefixesForDevice m.toTables device) ranges := by
      push Not at hrow
      exact mem_needed.2 ⟨hp, hn, fun r hr hr' => hrow r hr hr'.1 hr'.2⟩
    have hcol : colliding (carriedPrefixesForDevice m.toTables device) ≠ [] :=
      List.ne_nil_of_mem hp
    cases hfind : m.devices.find? (·.id = device) with
    | none =>
      rcases hdev with ⟨d, hd, hid⟩
      exact absurd (decide_eq_true hid) (List.find?_eq_none.1 hfind d hd)
    | some d =>
      obtain ⟨hd, hid⟩ := Base.of_find? hfind
      rcases allocateMissing_all (h d hd hid) hmem with ⟨r, hr, hrow⟩
      refine ⟨r, List.mem_append_right _ ?_, hrow⟩
      simp only [ensureMappings, needed_mappedPrefixes, if_neg hcol, hfind,
        if_neg (List.ne_nil_of_mem hmem)]
      exact hr

theorem mapped_eq (hinv : RangesInv ranges) (hinv' : RangesInv ranges')
    (h : Settled m ranges device) (h' : Settled m' ranges' device)
    (hcol : colliding (carriedPrefixesForDevice m'.toTables device) = [] ↔
      colliding (carriedPrefixesForDevice m.toTables device) = [])
    (hcarried : ∀ p, (n, p) ∈ carriedPrefixesForDevice m'.toTables device ↔
      (n, p) ∈ carriedPrefixesForDevice m.toTables device)
    (hrows : colliding (carriedPrefixesForDevice m.toTables device) ≠ [] →
      ∀ r, r.networkId = n → (r ∈ ranges' ↔ r ∈ ranges)) :
    mappedByNetwork (ensureMappings block m' ranges' device).mappings n =
      mappedByNetwork (ensureMappings block m ranges device).mappings n := by
  refine mappedByNetwork_congr (hinv'.onePer fun p hp => ?_) (hinv.onePer fun p hp => ?_)
    fun pm hn => ?_
  · rcases (mem_mappings_settled h').1 hp with ⟨_, r, hr, _, hrp⟩
    exact ⟨r, hr, hrp⟩
  · rcases (mem_mappings_settled h).1 hp with ⟨_, r, hr, _, hrp⟩
    exact ⟨r, hr, hrp⟩
  · rw [mem_mappings_settled h, mem_mappings_settled h', ne_eq, ne_eq, hcol]
    refine and_congr_right fun hne => exists_congr fun r => ?_
    constructor
    · rintro ⟨hr, ⟨p, hp⟩, rfl⟩
      change r.networkId = n at hn
      rw [hn] at hp
      exact ⟨(hrows hne r hn).1 hr, ⟨p, by rw [hn]; exact (hcarried p).1 hp⟩, rfl⟩
    · rintro ⟨hr, ⟨p, hp⟩, rfl⟩
      change r.networkId = n at hn
      rw [hn] at hp
      exact ⟨(hrows hne r hn).2 hr, ⟨p, by rw [hn]; exact (hcarried p).2 hp⟩, rfl⟩

theorem mapped_record (hinv : RangesInv ranges)
    (h : Settled m (ranges ++ (ensureMappings block m ranges device).fresh) device) :
    mappedByNetwork (ensureMappings block m
        (ranges ++ (ensureMappings block m ranges device).fresh) device).mappings n =
      mappedByNetwork (ensureMappings block m ranges device).mappings n := by
  by_cases hnone : (ensureMappings block m ranges device).fresh = []
  · rw [hnone, List.append_nil]
  have hnew : RangesInv (ranges ++ (ensureMappings block m ranges device).fresh) :=
    rangesInv_record hinv
  -- Something was recorded, so the answer is the rows there were and the new ones.
  have hall : colliding (carriedPrefixesForDevice m.toTables device) ≠ [] ∧
      ∀ pm, pm ∈ (ensureMappings block m ranges device).mappings ↔
        ∃ r ∈ ranges ++ (ensureMappings block m ranges device).fresh,
          (∃ p, (r.networkId, p) ∈ carriedPrefixesForDevice m.toTables device) ∧
            r.mapping = pm := by
    have hcarried : ∀ r ∈ (ensureMappings block m ranges device).fresh,
        ∃ p, (r.networkId, p) ∈ carriedPrefixesForDevice m.toTables device := by
      intro r hr
      rcases mem_networksCarrying.1 (mem_needed.1 (mem_fresh hr)).2.1 with ⟨q, hq, _⟩
      exact ⟨q, hq⟩
    generalize hans : ensureMappings block m ranges device = ans at hnone hcarried ⊢
    simp only [ensureMappings] at hans
    split at hans
    · subst hans
      exact absurd rfl hnone
    rename_i hcol
    split at hans
    · subst hans
      exact absurd rfl hnone
    split at hans
    · subst hans
      exact absurd rfl hnone
    refine ⟨hcol, fun pm => ?_⟩
    subst hans
    simp only [List.mem_map, List.mem_append, mem_mappedPrefixesForNetworks, Prod.exists,
      exists_and_right, exists_eq_right] at hcarried ⊢
    refine exists_congr fun r => ?_
    constructor
    · rintro ⟨⟨hr, hp⟩ | hr, rfl⟩
      · exact ⟨.inl hr, hp, rfl⟩
      · exact ⟨.inr hr, hcarried r hr, rfl⟩
    · rintro ⟨hr | hr, hp, rfl⟩
      · exact ⟨.inl ⟨hr, hp⟩, rfl⟩
      · exact ⟨.inr hr, rfl⟩
  refine mappedByNetwork_congr (hnew.onePer fun p hp => ?_) (hnew.onePer fun p hp => ?_)
    fun pm _ => ?_
  · rcases (mem_mappings_settled h).1 hp with ⟨_, r, hr, _, hrp⟩
    exact ⟨r, hr, hrp⟩
  · rcases (hall.2 p).1 hp with ⟨r, hr, _, hrp⟩
    exact ⟨r, hr, hrp⟩
  · rw [mem_mappings_settled h, hall.2 pm]
    exact ⟨And.right, fun hr => ⟨hall.1, hr⟩⟩

end Ensure

end Meshp.Session
