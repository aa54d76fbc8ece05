import Meshp.Session.Mapped
import Meshp.Session.Ranges

/-!
# Contested Prefixes

Which prefixes `EnsureMappings` tells a device to reach elsewhere, and which it
finds a range for. A range is recorded for a network and a prefix, not for the
device that needed it, and the loop that records returns at the first failure.
-/

namespace Meshp.Session

open Base (Along run run_inv run_inv_along)
open Netip (Prefix)
open Prefixmap (Free Mappable)
open Ranges.Deployment (act)
open Store

def Collides (t : Tables) (device n : Id) (p : Prefix) : Prop :=
  ∃ n' ≠ n, ∃ q, (n', q) ∈ carriedPrefixesForDevice t device ∧ q.masked = p.masked

def World.Sends (w : World) (device n : Id) (p : Prefix) : Prop :=
  (n, p) ∈ carriedPrefixesForDevice w.mesh.toTables device ∧
    (mappedByNetwork (ensureMappings defaultMappedBlock w.mesh w.ranges device).mappings n p).isSome

section Told

variable {block : Prefix} {m : Mesh} {ranges : List MappedRange} {device n : Id} {p : Prefix}

theorem collides_of_colliding
    (h : p.masked ∈ colliding (carriedPrefixesForDevice m.toTables device)) :
    Collides m.toTables device n p := by
  obtain ⟨-, a, ha, b, hb, hne⟩ := mem_colliding.1 h
  by_cases han : a = n
  · exact ⟨b, fun hbn => hne (han.trans hbn.symm), mem_networksCarrying.1 hb⟩
  · exact ⟨a, han, mem_networksCarrying.1 ha⟩

theorem mem_mappings (hdev : ∃ d ∈ m.devices, d.id = device) {pm : PrefixMapping} :
    pm ∈ (ensureMappings block m ranges device).mappings ↔
      colliding (carriedPrefixesForDevice m.toTables device) ≠ [] ∧
        ∃ r, ((r ∈ ranges ∧ r.networkId ∈
            (carriedPrefixesForDevice m.toTables device).map Prod.fst) ∨
          r ∈ (ensureMappings block m ranges device).fresh) ∧ r.mapping = pm := by
  have hfind : m.devices.find? (·.id = device) ≠ none := by
    simpa [List.find?_eq_none] using hdev
  simp only [ensureMappings]
  by_cases hcol : colliding (carriedPrefixesForDevice m.toTables device) = []
  · simp [hcol]
  rw [if_neg hcol]
  split
  · simp [hcol, mem_mappedPrefixesForNetworks]
  split
  · contradiction
  · simp [hcol, mem_mappedPrefixesForNetworks, or_and_right, exists_or]

theorem isSome_mappedByNetwork {mappings : List PrefixMapping} :
    (mappedByNetwork mappings n p).isSome ↔
      ∃ pm ∈ mappings, pm.networkId = n ∧ pm.real.masked = p.masked := by
  simp [mappedByNetwork, List.find?_isSome, and_assoc]

end Told

/-- After any history of mutations and calls, every prefix a device is sent with a mapping collides
on it exactly if nothing at all collides on it, or no network of its has a range recorded for a
prefix that does not. -/
theorem collides_of_sends_iff (c : Enroll.Checks) (b : Builder) (me : Id) (turns : List Turn)
    (device : Id) :
    let w := run (World.turn c b me) {} turns
    let carried := carriedPrefixesForDevice w.mesh.toTables device
    (∀ n p, w.Sends device n p → Collides w.mesh.toTables device n p) ↔
      colliding carried = [] ∨ ∀ r ∈ w.ranges, ∀ p, (r.networkId, p) ∈ carried →
        r.real.masked = p.masked → Collides w.mesh.toTables device r.networkId p := by
  intro w carried
  have hinv : w.mesh.Inv := by
    refine run_inv (fun w : World => w.mesh.Inv) (fun w e h => ?_) {} turns inv_empty
    cases e with
    | mutate s => exact inv_apply h
    | build | sync => exact h
  have hdev : ∀ n p, (n, p) ∈ carried → ∃ d ∈ w.mesh.devices, d.id = device := by
    intro n p h
    obtain ⟨⟨x, hx, rfl, -⟩, -⟩ := mem_carried.1 h
    exact hinv.members.memberDevice x hx
  constructor
  · intro h
    by_cases hcol : colliding carried = []
    · exact .inl hcol
    refine .inr fun r hr p hp hreal => h _ _ ⟨hp, isSome_mappedByNetwork.2 ⟨r.mapping, ?_, rfl, hreal⟩⟩
    exact (mem_mappings (hdev _ _ hp)).2 ⟨hcol, r, .inl ⟨hr, List.mem_map_of_mem hp⟩, rfl⟩
  · rintro h n p ⟨hp, hsome⟩
    obtain ⟨pm, hpm, rfl, hreal⟩ := isSome_mappedByNetwork.1 hsome
    obtain ⟨hcol, r, hr, rfl⟩ := (mem_mappings (hdev _ _ hp)).1 hpm
    rcases hr with ⟨hr, -⟩ | hr
    · exact h.resolve_left hcol r hr p hp hreal
    · -- What this call records it records for a prefix that collides.
      obtain ⟨hmem, hn, -⟩ := mem_needed.1 (mem_fresh hr)
      obtain ⟨q, -, hq⟩ := mem_networksCarrying.1 hn
      refine collides_of_colliding ?_
      have hmasked : p.masked = r.real := by
        rw [← hreal]
        change r.real.masked = r.real
        rw [← hq, Prefix.masked_masked]
      exact hmasked ▸ hmem

/-- A technician is in networks 2, 6 and 8; the prefix that 2 and 6 carry collides. Somebody else,
in networks 8 and 10, has had a range recorded for the prefix of network 8, and the technician, for
whom it is the only one, is sent that range. -/
theorem sends_uncontested :
    let w := run (World.turn trusting {} 0) {} ((Ranges.tenants ++
      [Ranges.presenting "t" 7 7, Ranges.presenting "u" 7 8, Ranges.presenting "v" 8 9,
       Ranges.presenting "x" 8 10, Ranges.presenting "v" 7 11]).map .mutate ++ [.build 23 0])
    w.Sends 19 8 ⟨.v4 0x0A090000, 24, by decide⟩ ∧
      ¬Collides w.mesh.toTables 19 8 ⟨.v4 0x0A090000, 24, by decide⟩ := by
  intro w
  have hrun : w.Sends 19 8 ⟨.v4 0x0A090000, 24, by decide⟩ ∧
      ∀ x ∈ carriedPrefixesForDevice w.mesh.toTables 19,
        x.1 ≠ 8 → x.2.masked ≠ ⟨.v4 0x0A090000, 24, by decide⟩ := by
    unfold World.Sends
    decide +kernel
  refine hrun.imp_right fun halone => ?_
  rintro ⟨n, hn, q, hq, hmasked⟩
  exact halone (n, q) hq hn hmasked

namespace Ranges

def HasRange (block p : Prefix) (reserved : List Prefix) : Prop :=
  Mappable block p ∧ ∃ q, Free block p.bits reserved q

theorem hasRange_iff {block p : Prefix} {reserved : List Prefix} :
    (Prefixmap.allocate block p reserved).toOption.isSome ↔ HasRange block p reserved := by
  have hspec := (Prefixmap.allocate_spec block p reserved).1
  constructor
  · intro h
    cases halloc : Prefixmap.allocate block p reserved with
    | error fault => simp [halloc, Except.toOption] at h
    | ok q => exact ⟨((hspec q).1 halloc).1, q, ((hspec q).1 halloc).2.free⟩
  · rintro ⟨hmappable, q, hq⟩
    obtain ⟨r, hr⟩ := hq.exists_lowest
    rw [(hspec r).2 ⟨hmappable, hr⟩]
    rfl

instance (block p : Prefix) (reserved : List Prefix) : Decidable (HasRange block p reserved) :=
  decidable_of_iff _ hasRange_iff

def Has (ranges : List MappedRange) (n : Id) (p : Prefix) : Prop :=
  ∃ r ∈ ranges, r.networkId = n ∧ r.real = p

def Meets (w : Deployment) (call : Call) : Prop :=
  UpToDate w call ∧ match call.stage with
    | .insert _ reserved _ ((n, p) :: rest) =>
      rest = [] ∨ HasRange call.block p reserved ∧ ¬Has w.ranges n p
    | _ => True

/-- Nothing but calls, of which call `i` meets no obstacle. -/
def Unopposed (i : Nat) (w : Deployment) : Act → Prop
  | .mutate _ => False
  | .call _ _ => True
  | .advance j => i = j → ∀ call ∈ w.calls[i]?, Meets w call

section Served

variable {m : Mesh} {ranges ranges' : List MappedRange} {device n : Id} {block p : Prefix}

def Pairs (m : Mesh) (device : Id) (P : Id → Prefix → Prop) : Prop :=
  ∀ p ∈ colliding (carriedPrefixesForDevice m.toTables device),
    ∀ n ∈ networksCarrying (carriedPrefixesForDevice m.toTables device) p, P n p

def Served (m : Mesh) (ranges : List MappedRange) (device : Id) (block : Prefix) : Prop :=
  ∀ d, m.devices.find? (·.id = device) = some d → Pairs m device fun n p =>
    HasRange block p (spokenForRangesInOrganization m ranges d.organizationId block) →
      Has ranges n p

def Stage.Serves (m : Mesh) (ranges : List MappedRange) (device : Id) (block : Prefix) :
    Stage → Prop
  | .readCarried => True
  | .readExisting carried => carried = carriedPrefixesForDevice m.toTables device
  | .readOrganization _ missing => Pairs m device fun n p => Has ranges n p ∨ (n, p) ∈ missing
  | .readSpoken org _ missing =>
    (∀ d, m.devices.find? (·.id = device) = some d → d.organizationId = org) ∧
      Pairs m device fun n p => Has ranges n p ∨ (n, p) ∈ missing
  | .insert org reserved _ missing =>
    (∀ d, m.devices.find? (·.id = device) = some d → d.organizationId = org) ∧
      (∀ q ∈ reserved, q ∈ spokenForRangesInOrganization m ranges org block) ∧
      Pairs m device fun n p => Has ranges n p ∨ (n, p) ∈ missing
  | .returned => Served m ranges device block

theorem Has.mono (h : Has ranges n p) (hsub : ∀ r ∈ ranges, r ∈ ranges') : Has ranges' n p := by
  obtain ⟨r, hr, hrest⟩ := h
  exact ⟨r, hsub r hr, hrest⟩

theorem HasRange.anti {reserved reserved' : List Prefix} (h : HasRange block p reserved')
    (hsub : ∀ q ∈ reserved, q ∈ reserved') : HasRange block p reserved := by
  obtain ⟨hmappable, q, hq⟩ := h
  exact ⟨hmappable, q, { hq with clear := fun r hr => hq.clear r (hsub r hr) }⟩

theorem spoken_mono (hsub : ∀ r ∈ ranges, r ∈ ranges') (org : Id) :
    ∀ q ∈ spokenForRangesInOrganization m ranges org block,
      q ∈ spokenForRangesInOrganization m ranges' org block := by
  intro q hq
  simp only [spokenForRangesInOrganization, List.mem_append, List.mem_map, List.mem_filter] at hq ⊢
  rcases hq with (hq | ⟨r, ⟨hr, horg⟩, rfl⟩) | hq
  · exact .inl (.inl hq)
  · exact .inl (.inr ⟨r, ⟨hsub r hr, horg⟩, rfl⟩)
  · exact .inr hq

theorem Stage.Serves.mono {stage : Stage} (h : stage.Serves m ranges device block)
    (hsub : ∀ r ∈ ranges, r ∈ ranges') : stage.Serves m ranges' device block := by
  have hpairs : ∀ missing : List (Id × Prefix), (Pairs m device fun n p => Has ranges n p ∨ (n, p) ∈ missing) →
      Pairs m device fun n p => Has ranges' n p ∨ (n, p) ∈ missing :=
    fun _ h p hp n hn => (h p hp n hn).imp_left (·.mono hsub)
  cases stage with
  | readCarried | readExisting => exact h
  | readOrganization existing missing => exact hpairs _ h
  | readSpoken org existing missing => exact ⟨h.1, hpairs _ h.2⟩
  | insert org reserved out missing =>
    exact ⟨h.1, fun q hq => spoken_mono hsub org q (h.2.1 q hq), hpairs _ h.2.2⟩
  | returned =>
    exact fun d hd p hp n hn hfree =>
      (h d hd p hp n hn (hfree.anti (spoken_mono hsub _))).mono hsub

theorem serves_insert {org : Id} {reserved : List Prefix} {out : List MappedRange}
    {rest : List (Id × Prefix)}
    (h : (Stage.insert org reserved out ((n, p) :: rest)).Serves m ranges device block)
    (hread : ∀ q ∈ spokenForRangesInOrganization m ranges org block, q ∈ reserved)
    (hmeets : rest = [] ∨ HasRange block p reserved ∧ ¬Has ranges n p) :
    let o := (Stage.insert org reserved out ((n, p) :: rest)).next m ranges device block
    o.stage.Serves m (ranges ++ o.row.toList) device block := by
  obtain ⟨horg, hreserved, hpairs⟩ := h
  -- A call that returns here has this pair only, and it is recorded or has no range.
  have hlast : rest = [] → (HasRange block p reserved → Has ranges n p) →
      Served m (ranges ++ []) device block := by
    rintro rfl hone d hd p' hp' n' hn' hfree
    rw [List.append_nil] at hfree ⊢
    rcases hpairs p' hp' n' hn' with hhas | hmem
    · exact hhas
    · cases List.mem_singleton.1 hmem
      exact hone (hfree.anti (horg d hd ▸ hreserved))
  simp only [Stage.next]
  cases halloc : Prefixmap.allocate block p reserved with
  | error fault =>
    have hnone : ¬HasRange block p reserved := fun h => by
      simpa [halloc, Except.toOption] using hasRange_iff.2 h
    exact hlast (hmeets.resolve_right fun h => hnone h.1) fun h => absurd h hnone
  | ok q =>
    simp only [record]
    split
    case isTrue hany =>
      have hhas : Has ranges n p := by simpa [Has] using hany
      exact hlast (hmeets.resolve_right fun h => h.2 hhas) fun _ => hhas
    split
    case isTrue hany =>
      -- The range would have been read as spoken for, and is clear of all that is.
      simp only [List.any_eq_true, decide_eq_true_eq] at hany
      obtain ⟨r, hr, rfl, hq⟩ := hany
      have hclear := Prefixmap.overlaps_reserved halloc (hread _ (range_mem_spoken hr))
      rw [hq, Prefix.overlaps_self] at hclear
      cases hclear
    case isFalse =>
      have hsub : ∀ r ∈ ranges, r ∈ ranges ++ [⟨org, n, p, q⟩] := fun r => List.mem_append_left _
      refine ⟨horg, fun q' hq' => ?_, fun p' hp' n' hn' => ?_⟩
      · rcases Base.mem_concat.1 hq' with hq' | rfl
        · exact spoken_mono hsub org q' (hreserved q' hq')
        · exact range_mem_spoken (r := ⟨org, n, p, q'⟩) (List.mem_append_right _ (by simp))
      · rcases hpairs p' hp' n' hn' with hhas | hmem
        · exact .inl (hhas.mono hsub)
        · rcases List.mem_cons.1 hmem with heq | hmem
          · cases heq
            exact .inl ⟨_, List.mem_append_right _ (List.mem_singleton_self _), rfl, rfl⟩
          · exact .inr hmem

theorem serves_next {w : Deployment} {stage : Stage}
    (h : stage.Serves w.mesh w.ranges device block) (hmeets : Meets w ⟨device, block, stage⟩) :
    let o := stage.next w.mesh w.ranges device block
    o.stage.Serves w.mesh (w.ranges ++ o.row.toList) device block := by
  cases stage with
  | readCarried =>
    simp only [Stage.next]
    split
    case isTrue hcol => exact fun d _ p hp => absurd hp (by simp [hcol])
    case isFalse => exact rfl
  | readExisting carried =>
    cases h
    have hpairs : Pairs w.mesh device fun n p => Has w.ranges n p ∨
        (n, p) ∈ needed (carriedPrefixesForDevice w.mesh.toTables device) w.ranges := by
      intro p hp n hn
      by_cases hhas : Has w.ranges n p
      · exact .inl hhas
      · exact .inr (mem_needed.2 ⟨hp, hn, fun r hr hrest => hhas ⟨r, hr, hrest⟩⟩)
    simp only [Stage.next, needed_mappedPrefixes]
    split
    case isTrue hnone =>
      intro d _ p hp n hn _
      simpa [hnone, Outcome.returns] using hpairs p hp n hn
    case isFalse => simpa [Stage.Serves] using hpairs
  | readOrganization existing missing =>
    simp only [Stage.next]
    split
    case h_1 hfind => exact fun d hd => by cases hfind.symm.trans hd
    case h_2 d hfind =>
      refine ⟨fun d' hd' => ?_, by simpa [Stage.Serves] using h⟩
      rw [Option.some.inj (hfind.symm.trans hd')]
  | readSpoken org existing missing =>
    exact ⟨h.1, by simp [Stage.next], by simpa [Stage.next] using h.2⟩
  | insert org reserved out missing =>
    cases missing with
    | nil =>
      intro o d _ p hp n hn _
      simpa [o, Stage.next, Outcome.returns] using h.2.2 p hp n hn
    | cons pair rest => exact serves_insert h hmeets.1 hmeets.2
  | returned => simpa [Stage.next] using h

def Serving (i : Nat) (device : Id) (block : Prefix) (m : Mesh) (w : Deployment) : Prop :=
  w.mesh = m ∧ ∃ stage : Stage, w.calls[i]? = some ⟨device, block, stage⟩ ∧
    stage.Serves m w.ranges device block

theorem serving_act {c : Enroll.Checks} {i : Nat} (w : Deployment) (e : Act)
    (h : Serving i device block m w) (hcond : Unopposed i w e) :
    Serving i device block m (w.act c e) := by
  obtain ⟨rfl, stage, hcall, hserves⟩ := h
  cases e with
  | mutate s => exact hcond.elim
  | call device' block' =>
    refine ⟨rfl, stage, ?_, hserves⟩
    exact (List.getElem?_append_left (List.getElem?_eq_some_iff.1 hcall).1).trans hcall
  | advance j =>
    simp only [act]
    by_cases hj : i = j
    · subst hj
      rw [advance_eq hcall]
      refine ⟨rfl, _, ?_, serves_next hserves (hcond rfl _ hcall)⟩
      exact List.getElem?_set_self (List.getElem?_eq_some_iff.1 hcall).1
    · -- Another call only adds to what is recorded.
      cases hother : w.calls[j]? with
      | none =>
        rw [Deployment.advance, hother]
        exact ⟨rfl, stage, hcall, hserves⟩
      | some call =>
        rw [advance_eq hother]
        exact ⟨rfl, stage, by rw [List.getElem?_set_ne (Ne.symm hj), hcall],
          hserves.mono fun r => List.mem_append_left _⟩

end Served

/-- After any history, a call that meets no obstacle returns with a range recorded for every pair
the block has one for, whatever other calls do meanwhile. -/
theorem mapped_of_unopposed (c : Enroll.Checks) (es es' : List Act) (device : Id)
    (block : Prefix) :
    let before := run (act c) {} es
    let i := before.calls.length
    let begun := before.act c (.call device block)
    let w := run (act c) begun es'
    Along (act c) (Unopposed i) begun es' →
      w.calls[i]? = some ⟨device, block, .returned⟩ → Served w.mesh w.ranges device block := by
  intro before i begun w hcond hreturned
  have hbegun : Serving i device block before.mesh begun :=
    ⟨rfl, .readCarried, List.getElem?_concat_length, trivial⟩
  obtain ⟨hmesh, stage, hcall, hserves⟩ :=
    run_inv_along (Serving i device block before.mesh) serving_act begun es' hbegun hcond
  cases Option.some.inj (hcall.symm.trans hreturned)
  exact hmesh ▸ hserves

instance (ranges : List MappedRange) (n : Id) (p : Prefix) : Decidable (Has ranges n p) :=
  inferInstanceAs (Decidable (∃ r ∈ ranges, _))

instance (w : Deployment) (call : Call) : Decidable (Meets w call) := by
  unfold Meets
  rcases call with ⟨_, _, _ | _ | _ | _ | ⟨_, _, _, _ | _⟩ | _⟩ <;> infer_instance

instance (i : Nat) (w : Deployment) (e : Act) : Decidable (Unopposed i w e) := by
  delta Unopposed
  induction e using Act.casesOn <;> infer_instance

theorem mapped_of_unopposed_tenants :
    let joins := [presenting "t" 7 7, presenting "u" 7 8, presenting "v" 8 9, presenting "x" 8 10]
    let before := run (act trusting) {} ((tenants ++ joins).map .mutate)
    let w := run (act trusting) (before.act trusting (.call 19 defaultMappedBlock))
      (List.replicate 5 (.advance 0) ++ calling 22 1 ++ List.replicate 2 (.advance 0))
    w.ranges.map (fun r => (r.networkId, r.mapped.text)) =
        [(2, "100.71.0.0/24"), (8, "100.71.0.0/24"), (10, "100.71.1.0/24"),
          (6, "100.71.1.0/24")] ∧
      Served w.mesh w.ranges 19 defaultMappedBlock :=
  ⟨by decide +kernel, mapped_of_unopposed trusting _ _ 19 defaultMappedBlock
    (by decide +kernel) (by decide +kernel)⟩

/-- Two devices are in the same two networks. The call of the second records the range of the first
network, and the call of the first, which meets it there, returns without one for the other network.
-/
theorem unmapped_after_race :
    let joins := [presenting "t" 7 7, presenting "u" 7 8, presenting "t" 8 9, presenting "u" 8 10]
    let w := run (act trusting) {} ((tenants ++ joins).map .mutate ++
      [.call 19 defaultMappedBlock, .call 22 defaultMappedBlock] ++
        List.replicate 4 (.advance 0) ++ List.replicate 5 (.advance 1) ++ [.advance 0])
    w.calls[0]? = some ⟨19, defaultMappedBlock, .returned⟩ ∧
      ¬Served w.mesh w.ranges 19 defaultMappedBlock := by
  intro joins w
  let p : Prefix := ⟨.v4 0xC0A80100, 24, by decide⟩
  have hfree : ∀ d ∈ w.mesh.devices, HasRange defaultMappedBlock p
      (spokenForRangesInOrganization w.mesh w.ranges d.organizationId defaultMappedBlock) := by
    decide +kernel
  have hpair : p ∈ colliding (carriedPrefixesForDevice w.mesh.toTables 19) ∧
      6 ∈ networksCarrying (carriedPrefixesForDevice w.mesh.toTables 19) p ∧
      ¬Has w.ranges 6 p ∧ (w.mesh.devices.find? (·.id = 19)).isSome := by
    decide +kernel
  refine ⟨by decide +kernel, fun h => ?_⟩
  obtain ⟨hp, hn, hnone, hdevice⟩ := hpair
  obtain ⟨d, hd⟩ := Option.isSome_iff_exists.1 hdevice
  exact hnone (h d hd p hp 6 hn (hfree d (List.mem_of_find?_eq_some hd)))

end Ranges

end Meshp.Session
