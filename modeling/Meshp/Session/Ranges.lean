import Meshp.Session.Collide
import Meshp.Store.Ownership

/-!
# The Ranges of One Device

Ranges are recorded for a network, by whichever call finds one missing, and kept
clear of what the organisation of that call's device has spoken for. A device is
answered with every range of every network it is in. So that its own ranges stay
apart rests on rows that other calls wrote for other devices, and on three things
nothing checks: that the networks of a device are all its own organisation's, that
no pool and no route is laid over a range once it is recorded, and that what a
call read is still all there is when it writes.
-/

namespace Meshp.Session.Ranges

open Base (Along run)
open Netip (Prefix)
open Store

/-- The statement a call of `EnsureMappings` is at, with what it holds so far. -/
inductive Stage
  /-- `CarriedPrefixesForDevice`. -/
  | readCarried
  /-- `MappedPrefixesForNetworks`. -/
  | readExisting (carried : List (Id × Prefix))
  /-- `OrganizationForDevice`. -/
  | readOrganization (existing : List MappedRange) (missing : List (Id × Prefix))
  /-- `SpokenForRangesInOrganization`. -/
  | readSpoken (org : Id) (existing : List MappedRange) (missing : List (Id × Prefix))
  /-- `Allocate` and `InsertPrefixMapping`, for the first of `missing`. -/
  | insert (org : Id) (reserved : List Prefix) (out : List MappedRange)
      (missing : List (Id × Prefix))
  | returned
  deriving DecidableEq

/-- What a statement leaves: a row if it wrote one, where the call goes on, and the answer if it is
over. -/
structure Outcome where
  row : Option MappedRange := none
  stage : Stage
  answer : Option (List PrefixMapping) := none

def Outcome.returns (out : List MappedRange) : Outcome :=
  { stage := .returned, answer := some (out.map MappedRange.mapping) }

def record (ranges : List MappedRange) (reserved : List Prefix) (out : List MappedRange)
    (r : MappedRange) (rest : List (Id × Prefix)) : Outcome :=
  if ranges.any fun r' => r'.networkId = r.networkId ∧ r'.real = r.real then .returns out
  else if ranges.any fun r' => r'.organizationId = r.organizationId ∧ r'.mapped = r.mapped then
    .returns out
  else
    { row := some r
      stage := .insert r.organizationId (reserved ++ [r.mapped]) (out ++ [r]) rest }

/-- One statement of `EnsureMappings`. -/
def Stage.next (m : Mesh) (ranges : List MappedRange) (device : Id) (block : Prefix) :
    Stage → Outcome
  | .readCarried =>
    let carried := carriedPrefixesForDevice m.toTables device
    if colliding carried = [] then .returns [] else { stage := .readExisting carried }
  | .readExisting carried =>
    let existing := mappedPrefixesForNetworks ranges (carried.map Prod.fst)
    let missing := needed carried existing
    if missing = [] then .returns existing else { stage := .readOrganization existing missing }
  | .readOrganization existing missing =>
    match m.devices.find? (·.id = device) with
    | none => .returns []
    | some d => { stage := .readSpoken d.organizationId existing missing }
  | .readSpoken org existing missing =>
    { stage := .insert org (spokenForRangesInOrganization m ranges org block) existing missing }
  | .insert _ _ out [] => .returns out
  | .insert org reserved out ((n, p) :: rest) =>
    match Prefixmap.allocate block p reserved with
    | .error _ => .returns out
    | .ok q => record ranges reserved out ⟨org, n, p, q⟩ rest
  | .returned => { stage := .returned }

structure Call where
  device : Id
  block : Prefix
  stage : Stage := .readCarried
  deriving DecidableEq

/-- The mesh and its ranges, the calls there have been, and what they answered, the latest first. -/
structure Deployment where
  mesh : Mesh := {}
  ranges : List MappedRange := []
  calls : List Call := []
  answers : List (Id × List PrefixMapping) := []

inductive Act
  | mutate (s : Stamped)
  | call (device : Id) (block : Prefix)
  | advance (call : Nat)

def Deployment.advance (w : Deployment) (i : Nat) : Deployment :=
  match w.calls[i]? with
  | none => w
  | some call =>
    let o := call.stage.next w.mesh w.ranges call.device call.block
    { w with
      ranges := w.ranges ++ o.row.toList
      calls := w.calls.set i { call with stage := o.stage }
      answers := (o.answer.map fun a => (call.device, a)).toList ++ w.answers }

def Deployment.act (c : Enroll.Checks) (w : Deployment) : Act → Deployment
  | .mutate s => { w with mesh := apply c w.mesh s }
  | .call device block => { w with calls := w.calls ++ [{ device, block }] }
  | .advance i => w.advance i

def Deployment.Sent (w : Deployment) (device : Id) (pm : PrefixMapping) : Prop :=
  ∃ a ∈ w.answers, a.1 = device ∧ pm ∈ a.2

def Deployment.latest (w : Deployment) (device : Id) : List PrefixMapping :=
  ((w.answers.find? (·.1 = device)).map Prod.snd).getD []

def Deployment.InUse (w : Deployment) (device : Id) (p : Prefix) : Prop :=
  ∃ n, ActiveIn w.mesh.toTables device n ∧
    ((∃ pool ∈ w.mesh.addressPools, pool.networkId = n ∧ pool.network = p) ∨
      (Carries w.mesh.toTables n p ∧ mappedByNetwork (w.latest device) n p = none))

/-- The ranges a device was ever sent overlap neither each other nor anything in use on it. -/
structure Apart (w : Deployment) (device : Id) : Prop where
  ranges : ∀ a b, w.Sent device a → w.Sent device b → a ≠ b → a.mapped.overlaps b.mapped = false
  used : ∀ a p, w.Sent device a → w.InUse device p → a.mapped.overlaps p = false

def Spares (c : Enroll.Checks) (w : Deployment) (s : Stamped) : Prop :=
  match s.event with
  | .redeem req =>
    ∀ tok ∈ w.mesh.enrollmentTokens, c.hashToken req.token = .ok tok.tokenHash →
      ∀ d ∈ w.mesh.devices, d.identityPublicKey = req.identityPublicKey →
        d.organizationId = tok.organizationId
  | .createNetwork org _ _ pools =>
    ∀ r ∈ w.ranges, r.organizationId = org → ∀ p ∈ pools, r.mapped.overlaps p = false
  | .createRouteGroup req =>
    ∀ r ∈ w.ranges, w.mesh.Owned req.networkId r.organizationId →
      ∀ p ∈ req.prefixes, r.mapped.overlaps p = false
  | _ => True

def UpToDate (w : Deployment) (call : Call) : Prop :=
  match call.stage with
  | .insert org reserved _ _ =>
    ∀ p ∈ spokenForRangesInOrganization w.mesh w.ranges org call.block, p ∈ reserved
  | _ => True

def Clear (c : Enroll.Checks) (w : Deployment) : Act → Prop
  | .mutate s => Spares c w s
  | .call _ _ => True
  | .advance i => ∀ call ∈ w.calls[i]?, UpToDate w call

/-- Every network a device is in is its organisation's. `owner` goes on naming the organisation of a
device that has been forgotten. -/
structure Grounded (owner : Id → Id) (m : Mesh) : Prop where
  inv : m.Inv
  titled : Titled m
  devices : ∀ d ∈ m.devices, d.organizationId = owner d.id
  members : ∀ x ∈ m.memberships, m.Owned x.networkId (owner x.deviceId)
  poolBelow : ∀ p ∈ m.addressPools, p.networkId < m.nextId
  carriedBelow : ∀ n p, Carries m.toTables n p → n < m.nextId

/-- An organisation's ranges are clear of each other, of its pools, and of what its networks carry.
-/
structure Spaced (m : Mesh) (ranges : List MappedRange) : Prop where
  rows : ∀ r ∈ ranges, m.Owned r.networkId r.organizationId
  apart : ∀ r ∈ ranges, ∀ r' ∈ ranges, r.organizationId = r'.organizationId → r ≠ r' →
    r.mapped.overlaps r'.mapped = false
  pools : ∀ r ∈ ranges, ∀ p ∈ m.addressPools, m.Owned p.networkId r.organizationId →
    r.mapped.overlaps p.network = false
  routes : ∀ r ∈ ranges, ∀ n p, Carries m.toTables n p → m.Owned n r.organizationId →
    r.mapped.overlaps p = false

def Recorded (ranges : List MappedRange) (org : Id) (rows : List MappedRange) : Prop :=
  ∀ r ∈ rows, r ∈ ranges ∧ r.organizationId = org

def Within (m : Mesh) (org : Id) (ds : List (Id × Prefix)) : Prop :=
  ∀ d ∈ ds, m.Owned d.1 org

def Stage.Holds (m : Mesh) (ranges : List MappedRange) (org : Id) : Stage → Prop
  | .readCarried => True
  | .readExisting carried => Within m org carried
  | .readOrganization existing missing => Recorded ranges org existing ∧ Within m org missing
  | .readSpoken org' existing missing =>
    org' = org ∧ Recorded ranges org existing ∧ Within m org missing
  | .insert org' _ out missing => org' = org ∧ Recorded ranges org out ∧ Within m org missing
  | .returned => True

def Stage.InOrder (owner : Id → Id) (m : Mesh) (ranges : List MappedRange) (device : Id)
    (stage : Stage) : Prop :=
  stage = .readCarried ∨
    (device < m.nextId ∧ stage.Holds m ranges (owner device)) ∨ stage = .returned

def AnswerOf (owner : Id → Id) (m : Mesh) (ranges : List MappedRange) (device : Id)
    (mappings : List PrefixMapping) : Prop :=
  mappings = [] ∨ device < m.nextId ∧ ∃ rows, Recorded ranges (owner device) rows ∧
    mappings = rows.map MappedRange.mapping

structure Tidy (owner : Id → Id) (w : Deployment) : Prop where
  grounded : Grounded owner w.mesh
  spaced : Spaced w.mesh w.ranges
  calls : ∀ call ∈ w.calls, call.stage.InOrder owner w.mesh w.ranges call.device
  answers : ∀ a ∈ w.answers, AnswerOf owner w.mesh w.ranges a.1 a.2

section Invariant

variable {c : Enroll.Checks} {w : Deployment} {owner owner' : Id → Id} {m m' : Mesh}
  {ranges ranges' : List MappedRange} {org : Id}

theorem Recorded.mono {rows : List MappedRange} (h : Recorded ranges org rows)
    (hsub : ∀ r ∈ ranges, r ∈ ranges') : Recorded ranges' org rows :=
  fun r hr => ⟨hsub r (h r hr).1, (h r hr).2⟩

theorem Within.mono {ds : List (Id × Prefix)} (h : Within m org ds)
    (howned : ∀ n, m.Owned n org → m'.Owned n org) : Within m' org ds :=
  fun d hd => howned d.1 (h d hd)

theorem Stage.Holds.mono {stage : Stage} (h : stage.Holds m ranges org)
    (howned : ∀ n, m.Owned n org → m'.Owned n org) (hsub : ∀ r ∈ ranges, r ∈ ranges') :
    stage.Holds m' ranges' org := by
  cases stage with
  | readCarried => trivial
  | readExisting carried => exact Within.mono h howned
  | readOrganization existing missing => exact ⟨h.1.mono hsub, h.2.mono howned⟩
  | readSpoken org' existing missing | insert org' reserved out missing =>
    exact ⟨h.1, h.2.1.mono hsub, h.2.2.mono howned⟩
  | returned => trivial

theorem lt_of_owned (hids : m.NetworkIds) {n : Id} (h : m.Owned n org) : n < m.nextId := by
  rcases h.exists_row with ⟨r, hr, rfl, _⟩
  exact hids.2 r hr

section Mutate

variable {s : Stamped}

theorem owned_of_placed (hp : Placed c s m m') {n : Id} (hn : n < m.nextId)
    (h : m'.Owned n org) : m.Owned n org := by
  rcases hp.of_owned h with hold | ⟨rfl, _⟩
  · exact hold
  · exact absurd hn (Nat.lt_irrefl _)

def ownerIn (m : Mesh) (owner : Id → Id) (device : Id) : Id :=
  ((m.devices.find? (·.id = device)).map Device.organizationId).getD (owner device)

theorem ownerIn_of_lt (h : Grounded owner m) (hp : Placed c s m m') {device : Id}
    (hlt : device < m.nextId) : ownerIn m' owner device = owner device := by
  unfold ownerIn
  cases hfind : m'.devices.find? (·.id = device) with
  | none => rfl
  | some d =>
    obtain ⟨hmem, hid⟩ := Base.of_find? hfind
    rcases hp.devices d hmem with hold | hnew
    · rw [← hid]
      exact h.devices d hold
    · rw [← hid, hnew] at hlt
      exact absurd hlt (Nat.lt_irrefl _)

theorem ownerIn_of_mem (hinv : m.Inv) {d : Device} (hd : d ∈ m.devices) :
    ownerIn m owner d.id = d.organizationId := by
  unfold ownerIn
  cases hfind : m.devices.find? (·.id = d.id) with
  | none => exact absurd (decide_eq_true rfl) (List.find?_eq_none.1 hfind d hd)
  | some d' =>
    obtain ⟨hd', hid⟩ := Base.of_find? hfind
    rw [List.inj_on_of_nodup_map hinv.members.deviceIds hd' hd hid]
    rfl

theorem grounded_apply (h : Grounded owner w.mesh) (hclear : Clear c w (.mutate s)) :
    Grounded (ownerIn (apply c w.mesh s) owner) (apply c w.mesh s) := by
  have hp : Placed c s w.mesh (apply c w.mesh s) := apply_placed h.inv.routes
  have he : Effect c s w.mesh (apply c w.mesh s) := apply_effect h.inv.routes
  have hinv := he.inv h.inv
  have htitled : Titled (apply c w.mesh s) := titled_apply h.inv h.titled
  refine ⟨hinv, htitled, fun d hd => (ownerIn_of_mem hinv hd).symm, fun x hx => ?_,
    fun p hpool => ?_, fun n p hcar => ?_⟩
  · rcases hp.members x hx with ⟨y, hy, hdev, hnet⟩ | ⟨req, tok, d, hs, htok, hhash, hxd, hxn, hd,
      hsame⟩
    · rcases h.inv.members.memberDevice y hy with ⟨d, hd, hid⟩
      have hlt : y.deviceId < w.mesh.nextId := hid ▸ h.inv.members.deviceBelow d hd
      rw [← hdev, ← hnet, ownerIn_of_lt h hp hlt]
      exact hp.owned (h.members y hy)
    · rw [hxd, hxn, ownerIn_of_mem hinv hd]
      have horg : d.organizationId = tok.organizationId := by
        rcases hsame with ⟨hold, hkey⟩ | hnew
        · simp only [Clear, Spares, hs] at hclear
          exact hclear tok htok hhash d hold hkey
        · exact hnew
      rw [horg]
      exact hp.owned (h.titled.tokens tok htok)
  · rcases hp.pools p hpool with hold | ⟨org, slug, name, pools, hs, hn, hlt, _⟩
    · exact Nat.lt_of_lt_of_le (h.poolBelow p hold) he.nextId_le
    · rw [hn]
      exact hlt
  · rcases hp.carries n p hcar with hold | ⟨req, _, _, hsome, _⟩
    · exact Nat.lt_of_lt_of_le (h.carriedBelow n p hold) he.nextId_le
    · rcases Option.isSome_iff_exists.1 hsome with ⟨r, hr⟩
      obtain ⟨hmem, hid⟩ := Base.of_find? hr
      refine Nat.lt_of_lt_of_le ?_ he.nextId_le
      rw [← hid]
      exact h.titled.keyed.2 r hmem

theorem spaced_apply (h : Grounded owner w.mesh) (hs : Spaced w.mesh w.ranges)
    (hclear : Clear c w (.mutate s)) : Spaced (apply c w.mesh s) w.ranges := by
  have hp : Placed c s w.mesh (apply c w.mesh s) := apply_placed h.inv.routes
  refine ⟨fun r hr => hp.owned (hs.rows r hr), hs.apart, fun r hr p hpool howned => ?_,
    fun r hr n p hcar howned => ?_⟩
  · rcases hp.pools p hpool with hold | ⟨org, slug, name, pools, hevent, hn, _, q, hq, hmasked⟩
    · exact hs.pools r hr p hold (owned_of_placed hp (h.poolBelow p hold) howned)
    · -- A pool of the network just created, which is its creator's.
      have horg : r.organizationId = org := by
        rcases hp.of_owned howned with hold | ⟨_, slug', name', pools', hevent'⟩
        · rw [hn] at hold
          exact absurd (lt_of_owned h.titled.keyed hold) (Nat.lt_irrefl _)
        · rw [hevent] at hevent'
          cases hevent'
          rfl
      simp only [Clear, Spares, hevent] at hclear
      rw [← hmasked, Prefix.overlaps_masked]
      exact hclear r hr horg q hq
  · rcases hp.carries n p hcar with hold | ⟨req, hevent, hn, hsome, q, hq, hmasked⟩
    · exact hs.routes r hr n p hold (owned_of_placed hp (h.carriedBelow n p hold) howned)
    · rcases Option.isSome_iff_exists.1 hsome with ⟨row, hrow⟩
      obtain ⟨hmem, hid⟩ := Base.of_find? hrow
      have hlt : n < w.mesh.nextId := hid ▸ h.titled.keyed.2 row hmem
      simp only [Clear, Spares, hevent] at hclear
      rw [← hmasked, Prefix.overlaps_masked]
      exact hclear r hr (hn ▸ owned_of_placed hp hlt howned) q hq

theorem tidy_mutate (h : Tidy owner w) (hclear : Clear c w (.mutate s)) :
    ∃ owner', Tidy owner' (w.act c (.mutate s)) := by
  have hp : Placed c s w.mesh (apply c w.mesh s) := apply_placed h.grounded.inv.routes
  have hle : w.mesh.nextId ≤ (apply c w.mesh s).nextId :=
    (apply_effect h.grounded.inv.routes).nextId_le
  refine ⟨ownerIn (apply c w.mesh s) owner, grounded_apply h.grounded hclear,
    spaced_apply h.grounded h.spaced hclear, fun call hcall => ?_, fun a ha => ?_⟩
  · rcases h.calls call hcall with hstart | ⟨hlt, hholds⟩ | hdone
    · exact .inl hstart
    · refine .inr (.inl ⟨Nat.lt_of_lt_of_le hlt hle, ?_⟩)
      rw [ownerIn_of_lt h.grounded hp hlt]
      exact hholds.mono (fun n ho => hp.owned ho) fun r hr => hr
    · exact .inr (.inr hdone)
  · rcases h.answers a ha with hnil | ⟨hlt, hrows⟩
    · exact .inl hnil
    · refine .inr ⟨Nat.lt_of_lt_of_le hlt hle, ?_⟩
      rw [ownerIn_of_lt h.grounded hp hlt]
      exact hrows

end Mutate

section Calls

variable {device : Id} {block : Prefix}

theorem advance_eq {i : Nat} {stage : Stage} (h : w.calls[i]? = some ⟨device, block, stage⟩) :
    w.advance i =
      { w with
        ranges := w.ranges ++ (stage.next w.mesh w.ranges device block).row.toList
        calls := w.calls.set i ⟨device, block, (stage.next w.mesh w.ranges device block).stage⟩
        answers := ((stage.next w.mesh w.ranges device block).answer.map fun a =>
          (device, a)).toList ++ w.answers } := by
  unfold Deployment.advance
  rw [h]

variable {out : List MappedRange} {r : MappedRange}

theorem range_mem_spoken (hr : r ∈ ranges) :
    r.mapped ∈ spokenForRangesInOrganization m ranges r.organizationId block := by
  unfold spokenForRangesInOrganization
  refine List.mem_append_left _ (List.mem_append_right _ (List.mem_map_of_mem ?_))
  exact List.mem_filter.2 ⟨hr, decide_eq_true rfl⟩

theorem pool_mem_spoken {p : AddressPool} (hp : p ∈ m.addressPools)
    (h : m.Owned p.networkId org) :
    p.network ∈ spokenForRangesInOrganization m ranges org block := by
  rcases h.exists_row with ⟨r, hr, hid, horg, hlive⟩
  unfold spokenForRangesInOrganization
  refine List.mem_append_left _ (List.mem_append_left _ (List.mem_map_of_mem ?_))
  refine List.mem_filter.2 ⟨hp, decide_eq_true (List.mem_map.2 ⟨r, ?_, hid⟩)⟩
  exact List.mem_filter.2 ⟨hr, decide_eq_true ⟨horg, hlive⟩⟩

theorem carried_mem_spoken {n : Id} {p : Prefix} (hcar : Carries m.toTables n p)
    (h : m.Owned n org) (hblock : p.overlaps block = true) :
    p ∈ spokenForRangesInOrganization m ranges org block := by
  rcases h.exists_row with ⟨r, hr, hid, horg, hlive⟩
  rcases hcar with ⟨g, hg, hkind, row, hrow, hgroup, rfl⟩
  rcases mem_groupsOf.1 hg with ⟨hg, hn⟩
  unfold spokenForRangesInOrganization
  refine List.mem_append_right _ (List.mem_dedup.2 (List.mem_flatMap.2 ⟨g, ?_, ?_⟩))
  · refine List.mem_filter.2 ⟨hg, decide_eq_true ⟨List.mem_map.2 ⟨r, ?_, ?_⟩, hkind⟩⟩
    · exact List.mem_filter.2 ⟨hr, decide_eq_true ⟨horg, hlive⟩⟩
    · exact hid.trans hn.symm
  · refine List.mem_map_of_mem (List.mem_filter.2 ⟨hrow, decide_eq_true ⟨hgroup, ?_⟩⟩)
    exact hblock

theorem spaced_record {reserved : List Prefix} (h : Spaced m ranges)
    (hrow : m.Owned r.networkId r.organizationId)
    (halloc : Prefixmap.allocate block r.real reserved = .ok r.mapped)
    (hread : ∀ p ∈ spokenForRangesInOrganization m ranges r.organizationId block, p ∈ reserved) :
    Spaced m (ranges ++ [r]) := by
  have hclear : ∀ p ∈ spokenForRangesInOrganization m ranges r.organizationId block,
      r.mapped.overlaps p = false := fun p hp => Prefixmap.overlaps_reserved halloc (hread p hp)
  have hranges : ∀ r' ∈ ranges, r'.organizationId = r.organizationId →
      r.mapped.overlaps r'.mapped = false := by
    intro r' hr' horg
    refine hclear _ ?_
    rw [← horg]
    exact range_mem_spoken hr'
  refine ⟨fun r' hr' => ?_, fun r₁ h₁ r₂ h₂ horg hne => ?_, fun r' hr' p hp howned => ?_,
    fun r' hr' n p hcar howned => ?_⟩
  · rcases Base.mem_concat.1 hr' with hr' | rfl
    · exact h.rows r' hr'
    · exact hrow
  · rcases Base.mem_concat.1 h₁ with hold₁ | rfl
    · rcases Base.mem_concat.1 h₂ with hold₂ | rfl
      · exact h.apart r₁ hold₁ r₂ hold₂ horg hne
      · rw [Prefix.overlaps_comm]
        exact hranges r₁ hold₁ horg
    · rcases Base.mem_concat.1 h₂ with hold₂ | rfl
      · exact hranges r₂ hold₂ horg.symm
      · exact absurd rfl hne
  · rcases Base.mem_concat.1 hr' with hr' | rfl
    · exact h.pools r' hr' p hp howned
    · exact hclear _ (pool_mem_spoken hp howned)
  · rcases Base.mem_concat.1 hr' with hr' | rfl
    · exact h.routes r' hr' n p hcar howned
    · -- Only what overlaps the block is read, and nothing else can overlap the range.
      by_cases hblock : p.overlaps block = true
      · exact hclear _ (carried_mem_spoken hcar howned hblock)
      · rw [Bool.eq_false_iff]
        exact fun hover => hblock (Prefixmap.overlaps_block halloc hover)

theorem returns_inOrder (hlt : device < m.nextId)
    (hout : Recorded ranges (owner device) out) :
    AnswerOf owner m ranges device (out.map MappedRange.mapping) :=
  .inr ⟨hlt, out, hout, rfl⟩

/-- A statement leaves rows in order, the call in order, and whatever it answers in order. -/
structure Orderly (owner : Id → Id) (m : Mesh) (ranges : List MappedRange) (device : Id)
    (o : Outcome) : Prop where
  spaced : Spaced m (ranges ++ o.row.toList)
  stage : o.stage.InOrder owner m (ranges ++ o.row.toList) device
  answer : ∀ a ∈ o.answer, AnswerOf owner m (ranges ++ o.row.toList) device a

theorem orderly_returns (h : Spaced m ranges)
    (ha : AnswerOf owner m ranges device (out.map MappedRange.mapping)) :
    Orderly owner m ranges device (.returns out) := by
  refine ⟨?_, .inr (.inr rfl), fun a ha' => ?_⟩
  · simpa only [Outcome.returns, Option.toList_none, List.append_nil] using h
  · cases ha'
    simpa only [Outcome.returns, Option.toList_none, List.append_nil] using ha

theorem orderly_reads {stage : Stage} (h : Spaced m ranges) (hlt : device < m.nextId)
    (hholds : stage.Holds m ranges (owner device)) :
    Orderly owner m ranges device { stage } := by
  refine ⟨?_, .inr (.inl ⟨hlt, ?_⟩), nofun⟩
  · simpa only [Option.toList_none, List.append_nil] using h
  · simpa only [Option.toList_none, List.append_nil] using hholds

theorem within_carried (h : Grounded owner m) :
    Within m (owner device) (carriedPrefixesForDevice m.toTables device) := by
  rintro ⟨n, p⟩ hd
  rcases (mem_carried.1 hd).1 with ⟨x, hx, rfl, _, rfl⟩
  exact h.members x hx

theorem lt_of_colliding (h : Grounded owner m)
    (hcol : colliding (carriedPrefixesForDevice m.toTables device) ≠ []) : device < m.nextId := by
  rcases List.exists_mem_of_ne_nil _ hcol with ⟨p, hp⟩
  rcases (mem_colliding.1 hp).2 with ⟨n, hn, _⟩
  rcases mem_networksCarrying.1 hn with ⟨q, hq, _⟩
  rcases (mem_carried.1 hq).1 with ⟨x, hx, rfl, _⟩
  rcases h.inv.members.memberDevice x hx with ⟨d, hd, hid⟩
  exact hid ▸ h.inv.members.deviceBelow d hd

theorem recorded_existing (h : Grounded owner m) (hs : Spaced m ranges)
    {carried : List (Id × Prefix)} (hw : Within m org carried) :
    Recorded ranges org (mappedPrefixesForNetworks ranges (carried.map Prod.fst)) := by
  intro r hr
  rcases mem_mappedPrefixesForNetworks.1 hr with ⟨hr, hn⟩
  rcases List.mem_map.1 hn with ⟨d, hd, hdn⟩
  exact ⟨hr, (hs.rows r hr).unique h.titled.keyed (hdn ▸ hw d hd)⟩

theorem within_needed {carried : List (Id × Prefix)} (hw : Within m org carried)
    (existing : List MappedRange) : Within m org (needed carried existing) := by
  rintro ⟨n, p⟩ hd
  rcases mem_networksCarrying.1 (mem_needed.1 hd).2.1 with ⟨q, hq, _⟩
  exact hw (n, q) hq

theorem orderly_record {reserved : List Prefix} {out : List MappedRange}
    {rest : List (Id × Prefix)} (hs : Spaced m ranges) (hlt : device < m.nextId)
    (horg : r.organizationId = owner device) (hout : Recorded ranges (owner device) out)
    (hrow : m.Owned r.networkId (owner device)) (hrest : Within m (owner device) rest)
    (halloc : Prefixmap.allocate block r.real reserved = .ok r.mapped)
    (hread : ∀ p ∈ spokenForRangesInOrganization m ranges r.organizationId block, p ∈ reserved) :
    Orderly owner m ranges device (record ranges reserved out r rest) := by
  unfold record
  split
  · exact orderly_returns hs (returns_inOrder hlt hout)
  split
  · exact orderly_returns hs (returns_inOrder hlt hout)
  refine ⟨spaced_record hs (horg ▸ hrow) halloc hread,
    .inr (.inl ⟨hlt, horg, fun r' hr' => ?_, hrest⟩), nofun⟩
  rcases Base.mem_concat.1 hr' with hr' | rfl
  · exact ⟨List.mem_append_left _ (hout r' hr').1, (hout r' hr').2⟩
  · exact ⟨List.mem_concat_self, horg⟩

theorem orderly_next (h : Grounded owner m) (hs : Spaced m ranges) {stage : Stage}
    (hstage : stage.InOrder owner m ranges device)
    (hread : ∀ org reserved out missing, stage = .insert org reserved out missing →
      ∀ p ∈ spokenForRangesInOrganization m ranges org block, p ∈ reserved) :
    Orderly owner m ranges device (stage.next m ranges device block) := by
  rcases hstage with rfl | ⟨hlt, hholds⟩ | rfl
  · simp only [Stage.next]
    split
    · exact orderly_returns hs (.inl rfl)
    · rename_i hcol
      exact orderly_reads hs (lt_of_colliding h hcol) (within_carried h)
  · cases stage with
    | readCarried =>
      simp only [Stage.next]
      split
      · exact orderly_returns hs (.inl rfl)
      · exact orderly_reads hs hlt (within_carried h)
    | readExisting carried =>
      have hexisting := recorded_existing h hs hholds
      simp only [Stage.next]
      split
      · exact orderly_returns hs (returns_inOrder hlt hexisting)
      · exact orderly_reads hs hlt ⟨hexisting, within_needed hholds _⟩
    | readOrganization existing missing =>
      simp only [Stage.next]
      split
      · exact orderly_returns hs (.inl rfl)
      · rename_i d hfind
        obtain ⟨hmem, hid⟩ := Base.of_find? hfind
        refine orderly_reads hs hlt ⟨?_, hholds⟩
        rw [h.devices d hmem, hid]
    | readSpoken org existing missing => exact orderly_reads hs hlt hholds
    | insert org reserved out missing =>
      rcases hholds with ⟨rfl, hout, hmissing⟩
      cases missing with
      | nil => exact orderly_returns hs (returns_inOrder hlt hout)
      | cons d rest =>
        rcases d with ⟨n, p⟩
        cases halloc : Prefixmap.allocate block p reserved with
        | error fault =>
          simp only [Stage.next, halloc]
          exact orderly_returns hs (returns_inOrder hlt hout)
        | ok q =>
          simp only [Stage.next, halloc]
          exact orderly_record hs hlt rfl hout (hmissing (n, p) (.head _))
            (fun d hd => hmissing d (.tail _ hd)) halloc
            (hread _ _ _ _ rfl)
    | returned =>
      refine ⟨?_, .inr (.inr rfl), nofun⟩
      simpa only [Stage.next, Option.toList_none, List.append_nil] using hs
  · refine ⟨?_, .inr (.inr rfl), nofun⟩
    simpa only [Stage.next, Option.toList_none, List.append_nil] using hs

theorem tidy_advance (h : Tidy owner w) {i : Nat} (hclear : Clear c w (.advance i)) :
    Tidy owner (w.act c (.advance i)) := by
  change Tidy owner (w.advance i)
  cases hcall : w.calls[i]? with
  | none =>
    unfold Deployment.advance
    rw [hcall]
    exact h
  | some call =>
    rcases call with ⟨device, block, stage⟩
    have hmem := List.mem_of_getElem? hcall
    have hread : ∀ org reserved out missing, stage = .insert org reserved out missing →
        ∀ p ∈ spokenForRangesInOrganization w.mesh w.ranges org block, p ∈ reserved := by
      rintro org reserved out missing rfl
      exact hclear _ hcall
    have ho : Orderly owner w.mesh w.ranges device
        (stage.next w.mesh w.ranges device block) :=
      orderly_next h.grounded h.spaced (h.calls _ hmem) hread
    rw [advance_eq hcall]
    generalize stage.next w.mesh w.ranges device block = o at ho ⊢
    have hsub : ∀ r ∈ w.ranges, r ∈ w.ranges ++ o.row.toList :=
      fun r hr => List.mem_append_left _ hr
    refine ⟨h.grounded, ho.spaced, fun call hc => ?_, fun a ha => ?_⟩
    · rcases List.mem_or_eq_of_mem_set hc with hc | rfl
      · exact (h.calls call hc).imp_right fun hrest =>
          hrest.imp_left fun ⟨hlt, hholds⟩ => ⟨hlt, hholds.mono (fun _ hn => hn) hsub⟩
      · exact ho.stage
    · rcases List.mem_append.1 ha with ha | ha
      · rcases Option.mem_toList.1 ha with ha
        rcases Option.map_eq_some_iff.1 ha with ⟨a', ha', rfl⟩
        exact ho.answer a' ha'
      · exact (h.answers a ha).imp_right fun ⟨hlt, rows, hrows, heq⟩ =>
          ⟨hlt, rows, hrows.mono hsub, heq⟩

end Calls

theorem tidy_act (h : Tidy owner w) (e : Act) (hclear : Clear c w e) :
    ∃ owner', Tidy owner' (w.act c e) := by
  cases e with
  | mutate s => exact tidy_mutate h hclear
  | call device block =>
    refine ⟨owner, h.grounded, h.spaced, fun call hcall => ?_, h.answers⟩
    rcases Base.mem_concat.1 hcall with hcall | rfl
    · exact h.calls call hcall
    · exact .inl rfl
  | advance i => exact ⟨owner, tidy_advance h hclear⟩

theorem tidy_start : Tidy owner {} where
  grounded :=
    { inv := inv_empty
      titled := ⟨⟨List.nodup_nil, nofun⟩,
        nofun, nofun⟩
      devices := nofun
      members := nofun
      poolBelow := nofun
      carriedBelow := fun _ _ ⟨_, hg, _⟩ => absurd hg List.not_mem_nil }
  spaced := ⟨nofun, nofun,
    nofun, nofun⟩
  calls := nofun
  answers := nofun

theorem Tidy.exists_row (h : Tidy owner w) {device : Id} {a : PrefixMapping}
    (ha : w.Sent device a) : ∃ r ∈ w.ranges, r.organizationId = owner device ∧ r.mapping = a := by
  rcases ha with ⟨answer, hanswer, rfl, hmem⟩
  rcases h.answers answer hanswer with hnil | ⟨_, rows, hrows, heq⟩
  · rw [hnil] at hmem
    cases hmem
  · rw [heq] at hmem
    rcases List.mem_map.1 hmem with ⟨r, hr, rfl⟩
    exact ⟨r, (hrows r hr).1, (hrows r hr).2, rfl⟩

theorem Tidy.apart (h : Tidy owner w) (device : Id) : Apart w device where
  ranges := fun a b ha hb hne => by
    rcases h.exists_row ha with ⟨r, hr, horg, rfl⟩
    rcases h.exists_row hb with ⟨r', hr', horg', rfl⟩
    exact h.spaced.apart r hr r' hr' (horg.trans horg'.symm) fun heq => hne (heq ▸ rfl)
  used := fun a p ha hp => by
    rcases h.exists_row ha with ⟨r, hr, horg, rfl⟩
    rcases hp with ⟨n, ⟨x, hx, rfl, _, rfl⟩, hp⟩
    have howned : w.mesh.Owned x.networkId r.organizationId := horg ▸ h.grounded.members x hx
    rcases hp with ⟨pool, hpool, hn, rfl⟩ | ⟨hcar, _⟩
    · exact h.spaced.pools r hr pool hpool (hn ▸ howned)
    · exact h.spaced.routes r hr _ p hcar howned

end Invariant

/-- In every run that puts nothing on a range and no range on anything, whatever the calls and
however they interleave, the ranges sent to a device overlap neither each other nor anything in use
on it. -/
theorem ranges_apart (c : Enroll.Checks) (es : List Act)
    (hclear : Along (Deployment.act c) (Clear c) {} es) (device : Id) :
    Apart (run (Deployment.act c) {} es) device := by
  have htidy : ∃ owner, Tidy owner (run (Deployment.act c) {} es) :=
    Base.run_inv_along (fun w => ∃ owner, Tidy owner w)
      (fun _ e ⟨_, h⟩ hcond => tidy_act h e hcond) {} es ⟨fun _ => 0, tidy_start⟩ hclear
  rcases htidy with ⟨owner, h⟩
  exact h.apart device

instance decidableOwned (m : Mesh) (n org : Id) : Decidable (m.Owned n org) :=
  inferInstanceAs (Decidable (_ ∈ _))

instance decidableSpares (c : Enroll.Checks) (w : Deployment) (s : Stamped) :
    Decidable (Spares c w s) := by
  delta Spares
  rcases s with ⟨_, event⟩
  induction event using Store.Event.casesOn <;> infer_instance

instance decidableUpToDate (w : Deployment) (call : Call) : Decidable (UpToDate w call) := by
  unfold UpToDate
  cases call.stage <;> infer_instance

instance decidableClear (c : Enroll.Checks) (w : Deployment) (e : Act) : Decidable (Clear c w e) := by
  cases e <;> unfold Clear <;> infer_instance

instance decidableSent (w : Deployment) (device : Id) (pm : PrefixMapping) :
    Decidable (w.Sent device pm) :=
  inferInstanceAs (Decidable (∃ a ∈ w.answers, a.1 = device ∧ pm ∈ a.2))

/-- Whoever holds identity key `w` presents a token, with WireGuard key `k`. -/
def presenting (token : String) (w k : UInt8) : Stamped :=
  ⟨1, .redeem
    { token, identityPublicKey := List.replicate 32 w, challenge := [], signature := []
      wireGuardPublicKey := Keys.keyText (List.replicate 32 k), name := "host", hostname := "" }⟩

def carrying (n : Id) (p : Prefix) : Stamped :=
  ⟨2, .createRouteGroup { networkId := n, slug := "lan", name := "Lan", kind := "subnet"
                          prefixes := [p] }⟩

def tenants : List Stamped :=
  founding [] ++
    [⟨0, .createOrganization "globex" "Globex"⟩,
     ⟨0, .createNetwork 1 "site" "" [.upTo (.v4 0x0A000100) 24]⟩,
     ⟨0, .createNetwork 5 "east" "" [⟨.v4 0x0A000200, 24, by decide⟩]⟩,
     ⟨0, .createNetwork 5 "west" "" [⟨.v4 0x0A000300, 24, by decide⟩]⟩,
     ⟨0, .createEnrollmentToken 6 (bytes "u") [] 10 100⟩,
     ⟨0, .createEnrollmentToken 8 (bytes "v") [] 10 100⟩,
     ⟨0, .createEnrollmentToken 10 (bytes "x") [] 10 100⟩,
     carrying 2 (.upTo (.v4 0xC0A80100) 24), carrying 6 (.upTo (.v4 0xC0A80100) 24),
     carrying 8 ⟨.v4 0x0A090000, 24, by decide⟩, carrying 10 ⟨.v4 0x0A090000, 24, by decide⟩]

def calling (device : Id) (call : Nat) : List Act :=
  .call device defaultMappedBlock :: List.replicate 7 (.advance call)

theorem ranges_apart_tenants :
    let es : List Act := (tenants ++
      [presenting "t" 7 7, presenting "u" 7 8, presenting "v" 8 9, presenting "x" 8 10]).map
        .mutate ++ [.call 19 defaultMappedBlock] ++ List.replicate 5 (.advance 0) ++
          calling 22 1 ++ List.replicate 2 (.advance 0)
    let w := run (Deployment.act trusting) {} es
    (Along (Deployment.act trusting) (Clear trusting) {} es ∧
      w.answers.map (fun a => (a.1, a.2.map PrefixMapping.networkId)) =
        [(19, [2, 6]), (22, [8, 10])]) ∧ Apart w 19 ∧ Apart w 22 := by
  intro es w
  refine (and_iff_left_of_imp fun hrun => ?_).2 (by decide +kernel)
  exact ⟨ranges_apart trusting es hrun.1 19, ranges_apart trusting es hrun.1 22⟩

/-- A device of organisation 1 is also in a network of organisation 5. That network's range was
recorded clear of organisation 5, its own are recorded clear of organisation 1, and one range is
both. -/
theorem ranges_overlap_across_organizations :
    let w := run (Deployment.act trusting) {} ((tenants ++
      [presenting "t" 7 7, presenting "u" 7 8, presenting "v" 8 9, presenting "x" 8 10,
       presenting "v" 7 11]).map .mutate ++ calling 22 0 ++ calling 19 1)
    let mapped : Prefix := ⟨.v4 0x64470000, 24, by decide⟩
    (w.Sent 19 ⟨2, ⟨.v4 0xC0A80100, 24, by decide⟩, mapped⟩ ∧
      w.Sent 19 ⟨8, ⟨.v4 0x0A090000, 24, by decide⟩, mapped⟩) ∧ ¬Apart w 19 := by
  intro w mapped
  refine (and_iff_left_of_imp fun hsent h => ?_).2 (by decide +kernel)
  have := h.ranges _ _ hsent.1 hsent.2 (by decide)
  rw [Prefix.overlaps_self] at this
  cases this

end Meshp.Session.Ranges
