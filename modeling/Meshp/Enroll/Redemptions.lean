import Meshp.Store.History

/-!
# Redemptions of One Token

Devices present the same token at the same time, and somebody may revoke it
meanwhile. A redemption locks the token's row before it looks at it and keeps the lock
until it commits or rolls back, takes its use by an update that asks again, and
writes nothing anybody else sees before it commits. Here it is one statement at a
time, each reading what has been committed and what the transaction itself wrote.
-/

namespace Meshp.Enroll.Redemptions

open Base (bind_eq_ok run run_inv)
open Store

inductive Row
  | device (d : Device)
  | membership (x : Membership)
  | allocation (a : AddressAllocation)
  | key (k : WireGuardKey)

def Row.clashes : Row → Row → Bool
  | .device d, .device e => d.identityPublicKey = e.identityPublicKey
  | .membership x, .membership y =>
    x.networkId = y.networkId ∧ (x.deviceId = y.deviceId ∨ x.dnsLabel = y.dnsLabel)
  | .allocation a, .allocation b => a.networkId = b.networkId ∧ a.address = b.address
  | .key k, .key l => k.publicKey = l.publicKey
  | _, _ => false

def onto (t : Tables) (rows : List Row) : Tables :=
  { t with
    devices := t.devices ++ rows.filterMap fun | .device d => some d | _ => none
    memberships := t.memberships ++ rows.filterMap fun | .membership x => some x | _ => none
    addressAllocations := t.addressAllocations ++
      rows.filterMap fun | .allocation a => some a | _ => none
    wireguardKeys := t.wireguardKeys ++ rows.filterMap fun | .key k => some k | _ => none }

def rowsOf (t : Tables) : List Row :=
  t.devices.map .device ++ t.memberships.map .membership ++
    t.addressAllocations.map .allocation ++ t.wireguardKeys.map .key

structure Grant where
  req : RedeemRequest
  tok : EnrollmentToken
  key : Key

structure Work extends Grant where
  usedAt : Time
  /-- Whether a revocation of the token had committed by then. -/
  late : Bool
  rows : List Row := []

inductive Next
  | device
  | addresses (d : Device)
  | label (d : Device) (chosen : List ChosenAddress)
  | membership (d : Device) (chosen : List ChosenAddress) (label : String)
  | allocations (x : Membership) (chosen : List ChosenAddress)
  | key (x : Membership)
  | commit (x : Membership)

inductive Stage
  | begun (req : RedeemRequest)
  | locked (g : Grant)
  | working (w : Work) (next : Next)
  | committed (w : Work)
  /-- Rolled back, by a refusal or for want of the database or the caller. -/
  | failed (why : Option Refusal)

def Stage.holds : Stage → Option Id
  | .locked g => some g.tok.id
  | .working w _ => some w.tok.id
  | .begun _ | .committed _ | .failed _ => none

def Stage.redeemed : Stage → Option Id
  | .committed w => some w.tok.id
  | .begun _ | .locked _ | .working _ _ | .failed _ => none

def Stage.pending : Stage → List Row
  | .working w _ => w.rows
  | .begun _ | .locked _ | .committed _ | .failed _ => []

structure World where
  mesh : Mesh
  nextId : Id := mesh.nextId
  txns : List Stage := []

namespace World

variable (w : World)

def held (id : Id) : Bool :=
  w.txns.any (·.holds = some id)

def put (i : Nat) (s : Stage) : World :=
  { w with txns := w.txns.set i s }

def redemptions (id : Id) : Nat :=
  w.txns.countP (·.redeemed = some id)

def view (rows : List Row) : Tables :=
  { onto w.mesh.toTables rows with nextId := w.nextId }

def waits (i : Nat) (rows : List Row) : Bool :=
  (w.txns.eraseIdx i).any fun s => s.pending.any fun r => rows.any (·.clashes r)

end World

def insert (now : Time) (t : Tables) (w : Work) : Next → Except Refusal (Id × List Row × Next)
  | .device => do
    let (t', d) ← upsertDevice t w.tok w.req
    pure (t'.nextId, if t'.devices = t.devices then [] else [.device d], .addresses d)
  | .addresses d => do
    pure (t.nextId, [], .label d (← pickAddresses now t w.tok.networkId))
  | .label d chosen => do
    pure (t.nextId, [], .membership d chosen (← freeLabel t w.tok.networkId d))
  | .membership d chosen label => do
    let (t', x) ← createMembership t d w.tok chosen label
    pure (t'.nextId, [.membership x], .allocations x chosen)
  | .allocations x chosen => do
    let _ ← recordAddresses t w.tok.networkId x.id chosen
    pure (t.nextId, (allocationRows w.tok.networkId x.id chosen).map .allocation, .key x)
  | .key x => do
    let _ ← createWireGuardKey t x.id w.key
    pure (t.nextId, [.key { membershipId := x.id, publicKey := w.key }], .commit x)
  | .commit x => pure (t.nextId, [], .commit x)

def commit (now : Time) (w : World) (work : Work) (x : Membership) : Except Refusal Mesh := do
  let t := { onto (consumeToken w.mesh.toTables work.tok) work.rows with nextId := w.nextId }
  let m ← bumpVersion now { w.mesh with toTables := t } x.networkId [peerUpserted x.id]
  bumpRoutes now m (otherNetworksForDevice m.toTables x.deviceId x.networkId)

/-- `ConsumeEnrollmentToken`: the row, if it may be used at this time. -/
def usable (now : Time) (id : Id) (tok : EnrollmentToken) : Bool :=
  tok.id = id ∧ tok.uses < tok.maxUses ∧ tok.revokedAt = none ∧ now < tok.expiresAt

def onward (c : Checks) (now : Time) (w : World) (i : Nat) : Stage → World
  | .begun req =>
    if w.mesh.enrollmentTokens.any fun tok =>
        (c.hashToken req.token).toOption = some tok.tokenHash ∧ w.held tok.id then w
    else match authenticate c now w.mesh.toTables req with
      | .error e => w.put i (.failed (some e))
      | .ok (tok, key) => w.put i (.locked ⟨req, tok, key⟩)
  | .locked g =>
    match w.mesh.enrollmentTokens.find? (usable now g.tok.id) with
    | none => w.put i (.failed (some .tokenExhausted))
    | some _ =>
      let late := w.mesh.enrollmentTokens.any fun tok => tok.id = g.tok.id ∧ tok.revokedAt ≠ none
      w.put i (.working { g with usedAt := now, late } .device)
  | .working work (.commit x) =>
    match commit now w work x with
    | .error e => w.put i (.failed (some e))
    | .ok mesh => { w.put i (.committed work) with mesh }
  | .working work next =>
    match insert now (w.view work.rows) work next with
    | .error e => w.put i (.failed (some e))
    | .ok (nextId, rows, next) =>
      if w.waits i rows then w
      else { w.put i (.working { work with rows := work.rows ++ rows } next) with nextId }
  | .committed _ | .failed _ => w

inductive Move
  | begin (req : RedeemRequest)
  | next (i : Nat) (now : Time)
  /-- The transaction is rolled back. -/
  | fail (i : Nat)
  /-- `RevokeEnrollmentToken`, once it is not locked out. -/
  | revoke (now : Time) (n id : Id)

/-- `RevokeEnrollmentToken`. -/
def revokeToken (t : Tables) (now : Time) (n id : Id) : Tables :=
  { t with enrollmentTokens := t.enrollmentTokens.map fun tok =>
      if tok.id = id ∧ tok.networkId = n ∧ tok.revokedAt = none then { tok with revokedAt := now }
      else tok }

def step (c : Checks) (w : World) : Move → World
  | .begin req => { w with txns := w.txns ++ [.begun req] }
  | .next i now =>
    match w.txns[i]? with
    | none => w
    | some s => onward c now w i s
  | .fail i =>
    match w.txns[i]? with
    | none | some (.committed _) => w
    | some _ => w.put i (.failed none)
  | .revoke now n id =>
    if w.held id then w
    else { w with mesh := { w.mesh with toTables := revokeToken w.mesh.toTables now n id } }

structure Constrained (t : Tables) : Prop where
  ids : (t.enrollmentTokens.map (·.id)).Nodup
  uses : ∀ tok ∈ t.enrollmentTokens, tok.uses ≤ tok.maxUses

/-- Since `m₀`, a token has been used as often as redemptions of it have committed, and no more
often than it may. Each took its use before the token expired and before a revocation committed, and
every row there is was there or is a row of one of them. -/
structure Accounted (m₀ : Mesh) (w : World) : Prop where
  uses : ∀ tok ∈ m₀.enrollmentTokens, ∃ row ∈ w.mesh.enrollmentTokens, row.id = tok.id ∧
    row.uses = tok.uses + w.redemptions tok.id ∧ row.uses ≤ tok.maxUses
  inTime : ∀ work, .committed work ∈ w.txns → work.late = false ∧
    ∀ tok ∈ m₀.enrollmentTokens, tok.id = work.tok.id → work.usedAt < tok.expiresAt
  rows : ∀ r ∈ rowsOf w.mesh.toTables, r ∈ rowsOf m₀.toTables ∨
    ∃ work, .committed work ∈ w.txns ∧ r ∈ work.rows

theorem mem_rowsOf_onto {t : Tables} {rows : List Row} {r : Row} :
    r ∈ rowsOf (onto t rows) ↔ r ∈ rowsOf t ∨ r ∈ rows := by
  cases r <;> simp [rowsOf, onto, List.mem_filterMap] <;> grind

theorem redemptions_put {w : World} {i : Nat} {s : Stage} (hs : w.txns[i]? = some s)
    (hnone : s.redeemed = none) (s' : Stage) (id : Id) :
    (w.put i s').redemptions id = w.redemptions id + if s'.redeemed = some id then 1 else 0 := by
  obtain ⟨hi, rfl⟩ := List.getElem?_eq_some_iff.1 hs
  simp [World.redemptions, World.put, List.countP_set, hi, hnone]

section Sound

variable {m₀ : Mesh} {w : World} {i : Nat} {s s' : Stage}

def InTime (m₀ : Mesh) (work : Work) : Prop :=
  work.late = false ∧
    ∀ tok ∈ m₀.enrollmentTokens, tok.id = work.tok.id → work.usedAt < tok.expiresAt

def Stage.work : Stage → Option Work
  | .working w _ | .committed w => some w
  | .begun _ | .locked _ | .failed _ => none

structure Sound (m₀ : Mesh) (w : World) : Prop where
  ids : w.mesh.enrollmentTokens.map (·.id) = m₀.enrollmentTokens.map (·.id)
  uses : ∀ row ∈ w.mesh.enrollmentTokens, ∃ tok ∈ m₀.enrollmentTokens, row.id = tok.id ∧
    row.maxUses = tok.maxUses ∧ row.expiresAt = tok.expiresAt ∧
    row.uses = tok.uses + w.redemptions tok.id ∧ row.uses ≤ row.maxUses
  /-- A token is locked by one transaction. -/
  apart : ∀ (i j : Nat) (s s' : Stage), w.txns[i]? = some s → w.txns[j]? = some s' →
    s.holds ≠ none → s.holds = s'.holds → i = j
  /-- A use that has been taken is still there to be committed. -/
  left : ∀ work next, .working work next ∈ w.txns → ∀ row ∈ w.mesh.enrollmentTokens,
    row.id = work.tok.id → row.uses < row.maxUses
  inTime : ∀ s ∈ w.txns, ∀ work ∈ s.work, InTime m₀ work
  rows : ∀ r ∈ rowsOf w.mesh.toTables, r ∈ rowsOf m₀.toTables ∨
    ∃ work, .committed work ∈ w.txns ∧ r ∈ work.rows

theorem mem_put {t : Stage} (ht : t ∈ w.txns) (hs : w.txns[i]? = some s) (hne : t ≠ s) :
    t ∈ (w.put i s').txns := by
  obtain ⟨j, hj⟩ := List.mem_iff_getElem?.1 ht
  have hji : i ≠ j := by
    rintro rfl
    exact hne (Option.some.inj (hj.symm.trans hs))
  exact List.mem_iff_getElem?.2 ⟨j, by rw [World.put, List.getElem?_set_ne hji, hj]⟩

variable {work : Work} {now : Time}

theorem committed_put (hs : w.txns[i]? = some s) (hnone : s.redeemed = none)
    (h : .committed work ∈ w.txns) : .committed work ∈ (w.put i s').txns := by
  refine mem_put h hs ?_
  rintro rfl
  cases hnone

theorem apart_put (hw : Sound m₀ w) (hs : w.txns[i]? = some s)
    (hholds : ∀ id, s'.holds = some id → s.holds = some id ∨ w.held id = false) (j k : Nat)
    (t t' : Stage) (ht : (w.put i s').txns[j]? = some t) (ht' : (w.put i s').txns[k]? = some t')
    (hne : t.holds ≠ none) (heq : t.holds = t'.holds) : j = k := by
  obtain ⟨id, hid⟩ := Option.ne_none_iff_exists'.1 hne
  have hi : i < w.txns.length := (List.getElem?_eq_some_iff.1 hs).1
  -- Whoever else holds the token held it before, so the one that moves held it too.
  have hother {l : Nat} {u : Stage} (hu : w.txns[l]? = some u) (hul : u.holds = some id)
      (hs' : s'.holds = some id) : i = l := by
    rcases hholds id hs' with h | h
    · exact hw.apart i l s u hs hu (by simp [h]) (h.trans hul.symm)
    · have := List.any_eq_false.1 h u (List.mem_of_getElem? hu)
      simp [hul] at this
  simp only [World.put, List.getElem?_set, hi, if_true] at ht ht'
  by_cases hj : i = j
  · by_cases hk : i = k
    · exact hj.symm.trans hk
    · rw [if_neg hk] at ht'
      rw [if_pos hj] at ht
      cases ht
      exact hj.symm.trans (hother ht' (heq ▸ hid) hid)
  · rw [if_neg hj] at ht
    by_cases hk : i = k
    · rw [if_pos hk] at ht'
      cases ht'
      exact (hother ht hid (heq ▸ hid)).symm.trans hk
    · rw [if_neg hk] at ht'
      exact hw.apart j k t t' ht ht' hne heq

theorem Sound.put (hw : Sound m₀ w) (hs : w.txns[i]? = some s) (hnone : s.redeemed = none)
    (hnone' : s'.redeemed = none)
    (hholds : ∀ id, s'.holds = some id → s.holds = some id ∨ w.held id = false)
    (hleft : ∀ work next, s' = .working work next → ∀ row ∈ w.mesh.enrollmentTokens,
      row.id = work.tok.id → row.uses < row.maxUses)
    (htime : ∀ work ∈ s'.work, InTime m₀ work) (nextId : Id) :
    Sound m₀ { w.put i s' with nextId } := by
  have hcount : ∀ id, (w.put i s').redemptions id = w.redemptions id := by
    intro id
    rw [redemptions_put hs hnone, hnone']
    rfl
  refine ⟨hw.ids, fun row hrow => ?_, apart_put hw hs hholds, fun work next h => ?_,
    fun t ht => ?_, fun r hr => ?_⟩
  · obtain ⟨tok, htok, h⟩ := hw.uses row hrow
    exact ⟨tok, htok, by rwa [← hcount] at h⟩
  · rcases List.mem_or_eq_of_mem_set h with h | h
    · exact hw.left work next h
    · exact hleft work next h.symm
  · rcases List.mem_or_eq_of_mem_set ht with ht | rfl
    · exact hw.inTime t ht
    · exact htime
  · rcases hw.rows r hr with h | ⟨work, hwork, h⟩
    · exact .inl h
    · exact .inr ⟨work, committed_put hs hnone hwork, h⟩

theorem Sound.fail (hw : Sound m₀ w) (hs : w.txns[i]? = some s) (hnone : s.redeemed = none)
    (why : Option Refusal) : Sound m₀ (w.put i (.failed why)) := by
  refine hw.put hs hnone rfl ?_ ?_ ?_ w.nextId
  · intro id h
    cases h
  · intro work next h
    cases h
  · intro work h
    cases h

theorem sound_begin (hw : Sound m₀ w) (req : RedeemRequest) :
    Sound m₀ { w with txns := w.txns ++ [.begun req] } := by
  have hnew {t : Stage} (h : t ∈ w.txns ++ [.begun req]) : t ∈ w.txns ∨ t = .begun req := by
    simpa using h
  have hold {j : Nat} {t : Stage} (h : (w.txns ++ [.begun req])[j]? = some t)
      (hne : t.holds ≠ none) : w.txns[j]? = some t := by
    by_cases hj : j < w.txns.length
    · rwa [List.getElem?_append_left hj] at h
    · rw [List.getElem?_append_right (Nat.le_of_not_lt hj)] at h
      have := List.mem_singleton.1 (List.mem_of_getElem? h)
      subst this
      exact absurd rfl hne
  refine ⟨hw.ids, fun row hrow => ?_, fun j k t t' ht ht' hne heq => ?_, fun work next h => ?_,
    fun t ht => ?_, fun r hr => ?_⟩
  · obtain ⟨tok, htok, h⟩ := hw.uses row hrow
    have hcount : ({ w with txns := w.txns ++ [.begun req] } : World).redemptions tok.id =
        w.redemptions tok.id := by
      simp [World.redemptions, Stage.redeemed]
    exact ⟨tok, htok, by rwa [← hcount] at h⟩
  · exact hw.apart j k t t' (hold ht hne) (hold ht' (heq ▸ hne)) hne heq
  · rcases hnew h with h | h
    · exact hw.left work next h
    · cases h
  · rcases hnew ht with ht | rfl
    · exact hw.inTime t ht
    · intro work h
      cases h
  · rcases hw.rows r hr with h | ⟨work, hwork, h⟩
    · exact .inl h
    · exact .inr ⟨work, List.mem_append_left _ hwork, h⟩

theorem sound_revoke (hw : Sound m₀ w) (now : Time) (n id : Id) :
    Sound m₀ { w with mesh := { w.mesh with toTables := revokeToken w.mesh.toTables now n id } } := by
  have hsame : ∀ row ∈ (revokeToken w.mesh.toTables now n id).enrollmentTokens,
      ∃ old ∈ w.mesh.enrollmentTokens, row.id = old.id ∧ row.maxUses = old.maxUses ∧
        row.expiresAt = old.expiresAt ∧ row.uses = old.uses := by
    intro row hrow
    obtain ⟨old, hold, rfl⟩ := List.mem_map.1 hrow
    refine ⟨old, hold, ?_⟩
    split <;> exact ⟨rfl, rfl, rfl, rfl⟩
  refine ⟨?_, fun row hrow => ?_, hw.apart, fun work next h row hrow hid => ?_, hw.inTime, hw.rows⟩
  · rw [← hw.ids]
    simp only [revokeToken, List.map_map]
    refine List.map_congr_left fun tok _ => ?_
    simp only [Function.comp_apply]
    split <;> rfl
  · obtain ⟨old, hold, h₁, h₂, h₃, h₄⟩ := hsame row hrow
    obtain ⟨tok, htok, h⟩ := hw.uses old hold
    exact ⟨tok, htok, by rwa [h₁, h₂, h₃, h₄]⟩
  · obtain ⟨old, hold, h₁, h₂, -, h₄⟩ := hsame row hrow
    rw [h₂, h₄]
    exact hw.left work next h old hold (h₁.symm.trans hid)

theorem commit_ok {x : Membership} {mesh : Mesh} (h : commit now w work x = .ok mesh) :
    mesh.toTables =
      { onto (consumeToken w.mesh.toTables work.tok) work.rows with nextId := w.nextId } := by
  unfold commit at h
  rcases bind_eq_ok.1 h with ⟨m, hbump, h⟩
  obtain ⟨rfl, -⟩ := bumpVersion_ok [.peerUpsert x.id] rfl hbump
  obtain ⟨rfl, -⟩ := bumpRoutes_ok h
  rw [Mesh.toTables_recordAll, Mesh.toTables_recordAll]

theorem sound_commit (hw : Sound m₀ w) {x : Membership} {mesh : Mesh}
    (hs : w.txns[i]? = some (.working work (.commit x))) (h : commit now w work x = .ok mesh) :
    Sound m₀ { w.put i (.committed work) with mesh } := by
  have htables := commit_ok h
  have htokens : mesh.enrollmentTokens = w.mesh.enrollmentTokens.map fun t =>
      if t.id = work.tok.id then { t with uses := t.uses + 1 } else t := by
    rw [htables]
    rfl
  have hmem := List.mem_of_getElem? hs
  have hi : i < w.txns.length := (List.getElem?_eq_some_iff.1 hs).1
  refine ⟨?_, fun row hrow => ?_, apart_put hw hs (by intro id h; cases h), ?_, fun t ht => ?_,
    fun r hr => ?_⟩
  · rw [htokens, ← hw.ids, List.map_map]
    refine List.map_congr_left fun tok _ => ?_
    simp only [Function.comp_apply]
    split <;> rfl
  · rw [htokens] at hrow
    obtain ⟨old, hold, rfl⟩ := List.mem_map.1 hrow
    obtain ⟨tok, htok, hid, hmax, hexp, huses, hle⟩ := hw.uses old hold
    have hcount := redemptions_put hs rfl (.committed work) tok.id
    refine ⟨tok, htok, ?_⟩
    change _ ∧ _ ∧ _ ∧ _ = tok.uses + (w.put i (.committed work)).redemptions tok.id ∧ _
    rw [hcount]
    by_cases hused : old.id = work.tok.id
    · have := hw.left work _ hmem old hold hused
      have hred : (Stage.committed work).redeemed = some tok.id := by rw [← hid, hused]; rfl
      rw [if_pos hused, if_pos hred]
      exact ⟨hid, hmax, hexp, by simp only [huses]; omega, this⟩
    · have hred : (Stage.committed work).redeemed ≠ some tok.id := by
        intro he
        exact hused (hid.trans (Option.some.inj he).symm)
      rw [if_neg hused, if_neg hred]
      exact ⟨hid, hmax, hexp, huses, hle⟩
  · intro work' next h row hrow hid
    obtain ⟨j, hj⟩ := List.mem_iff_getElem?.1 h
    simp only [World.put, List.getElem?_set, hi, if_true] at hj
    split at hj
    case isTrue => cases hj
    case isFalse hne =>
      have hother : work'.tok.id ≠ work.tok.id := by
        intro he
        exact hne (hw.apart j i _ _ hj hs nofun (congrArg some he)).symm
      rw [htokens] at hrow
      obtain ⟨old, hold, rfl⟩ := List.mem_map.1 hrow
      by_cases hused : old.id = work.tok.id
      · rw [if_pos hused] at hid
        exact absurd (hid.symm.trans hused) hother
      · rw [if_neg hused] at hid ⊢
        exact hw.left work' next (List.mem_of_getElem? hj) old hold hid
  · rcases List.mem_or_eq_of_mem_set ht with ht | rfl
    · exact hw.inTime t ht
    · intro work' h
      exact hw.inTime _ hmem work' h
  · rw [htables] at hr
    rcases mem_rowsOf_onto.1 hr with hr | hr
    · rcases hw.rows r hr with h | ⟨work', hwork', h⟩
      · exact .inl h
      · exact .inr ⟨work', committed_put hs rfl hwork', h⟩
    · exact .inr ⟨work, List.mem_set hi _, hr⟩

theorem sound_lock (hw : Sound m₀ w) {c : Checks} {req : RedeemRequest} {tok : EnrollmentToken}
    {key : Key} (hs : w.txns[i]? = some (.begun req))
    (hfree : ¬w.mesh.enrollmentTokens.any fun tok => (c.hashToken req.token).toOption = some tok.tokenHash ∧ w.held tok.id)
    (h : authenticate c now w.mesh.toTables req = .ok (tok, key)) :
    Sound m₀ (w.put i (.locked ⟨req, tok, key⟩)) := by
  obtain ⟨htok, hhash, -⟩ := authenticate_ok h
  refine hw.put hs rfl rfl ?_ ?_ ?_ w.nextId
  · intro id hid
    cases hid
    refine .inr (Bool.eq_false_iff.2 fun hheld => hfree (List.any_eq_true.2 ⟨tok, htok, ?_⟩))
    simp [hhash, hheld, Except.toOption]
  · intro work next h
    cases h
  · intro work h
    cases h

theorem sound_use (hc : Constrained m₀.toTables) (hw : Sound m₀ w) {g : Grant}
    {found : EnrollmentToken} (hs : w.txns[i]? = some (.locked g))
    (h : w.mesh.enrollmentTokens.find? (usable now g.tok.id) = some found) :
    Sound m₀ (w.put i (.working { g with
      usedAt := now
      late := w.mesh.enrollmentTokens.any fun tok =>
        tok.id = g.tok.id ∧ tok.revokedAt ≠ none } .device)) := by
  have hmem := List.mem_of_find?_eq_some h
  have husable := List.find?_some h
  simp only [usable, Bool.decide_and, Bool.and_eq_true, decide_eq_true_eq] at husable
  obtain ⟨hid, hleft, hrevoked, hnow⟩ := husable
  have hids : (w.mesh.enrollmentTokens.map (·.id)).Nodup := hw.ids ▸ hc.ids
  have honly : ∀ row ∈ w.mesh.enrollmentTokens, row.id = g.tok.id → row = found :=
    fun row hrow hrow' => List.inj_on_of_nodup_map hids hrow hmem (hrow'.trans hid.symm)
  refine hw.put hs rfl rfl ?_ ?_ ?_ w.nextId
  · intro id h
    exact .inl h
  · intro work next h row hrow hrow'
    cases h
    rw [honly row hrow hrow']
    exact hleft
  · intro work h
    cases h
    constructor
    · refine Bool.eq_false_iff.2 fun hlate => ?_
      obtain ⟨row, hrow, h⟩ := List.any_eq_true.1 hlate
      have hrow' := of_decide_eq_true h
      exact hrow'.2 (honly row hrow hrow'.1 ▸ hrevoked)
    · intro tok htok htok'
      obtain ⟨tok', htok'', hid', -, hexp, -⟩ := hw.uses found hmem
      -- The token the row came from is this one, for they have one identifier.
      have : tok = tok' :=
        List.inj_on_of_nodup_map hc.ids htok htok'' (htok'.trans (hid.symm.trans hid'))
      rw [this, ← hexp]
      exact hnow

theorem sound_insert (hw : Sound m₀ w) {next next' : Next}
    (hs : w.txns[i]? = some (.working work next)) (rows : List Row) (nextId : Id) :
    Sound m₀ { w.put i (.working { work with rows := work.rows ++ rows } next') with nextId } := by
  have hmem := List.mem_of_getElem? hs
  refine hw.put hs rfl rfl ?_ ?_ ?_ nextId
  · intro id h
    exact .inl h
  · intro work' next h
    cases h
    exact hw.left work _ hmem
  · intro work' h
    cases h
    exact hw.inTime _ hmem work rfl

theorem sound_onward (hc : Constrained m₀.toTables) (hw : Sound m₀ w) (c : Checks) (now : Time)
    (hs : w.txns[i]? = some s) : Sound m₀ (onward c now w i s) := by
  fun_cases onward c now w i s
  case case1 => exact hw
  case case2 => exact hw.fail hs rfl _
  case case3 hfree tok key hauth => exact sound_lock hw hs hfree hauth
  case case4 => exact hw.fail hs rfl _
  case case5 hfind late => exact sound_use hc hw hs hfind
  case case6 => exact hw.fail hs rfl _
  case case7 hcommit _ => exact sound_commit hw hs hcommit
  case case8 => exact hw.fail hs rfl _
  case case9 => exact hw
  case case10 => exact sound_insert hw hs _ _
  case case11 => exact hw
  case case12 => exact hw

theorem sound_step (hc : Constrained m₀.toTables) (c : Checks) (hw : Sound m₀ w) (move : Move) :
    Sound m₀ (step c w move) := by
  cases move with
  | begin req => exact sound_begin hw req
  | next i now =>
    cases hs : w.txns[i]? with
    | none => simpa only [step, hs] using hw
    | some s => simpa only [step, hs] using sound_onward hc hw c now hs
  | fail i =>
    cases hs : w.txns[i]? with
    | none => simpa only [step, hs] using hw
    | some s =>
      cases s with
      | committed work => simpa only [step, hs] using hw
      | begun _ | locked _ | working _ _ | failed _ =>
        simpa only [step, hs] using hw.fail hs rfl none
  | revoke now n id =>
    by_cases hheld : w.held id
    · simpa only [step, if_pos hheld] using hw
    · simpa only [step, if_neg hheld] using sound_revoke hw now n id

theorem Sound.accounted (hc : Constrained m₀.toTables) (hw : Sound m₀ w) : Accounted m₀ w := by
  refine ⟨fun tok htok => ?_, fun work h => hw.inTime _ h work rfl, hw.rows⟩
  have hid : tok.id ∈ w.mesh.enrollmentTokens.map (·.id) :=
    hw.ids ▸ List.mem_map_of_mem htok
  obtain ⟨row, hrow, hid⟩ := List.mem_map.1 hid
  obtain ⟨tok', htok', hid', hmax, -, huses, hle⟩ := hw.uses row hrow
  have : tok' = tok := List.inj_on_of_nodup_map hc.ids htok' htok (hid'.symm.trans hid)
  subst this
  exact ⟨row, hrow, hid, huses, hmax ▸ hle⟩

theorem sound_opening (hc : Constrained m₀.toTables) : Sound m₀ { mesh := m₀ } := by
  refine ⟨rfl, fun row hrow => ⟨row, hrow, rfl, rfl, rfl, rfl, hc.uses row hrow⟩, ?_, ?_, ?_, ?_⟩
  · intro i j s s' h
    cases h
  · intro work next h
    cases h
  · intro s h
    cases h
  · intro r hr
    exact .inl hr

end Sound

/-- A device that presents the token of `founding`. -/
def presenting (w : UInt8) : RedeemRequest :=
  { token := "t", identityPublicKey := List.replicate 32 w, challenge := [], signature := []
    wireGuardPublicKey := Keys.keyText (List.replicate 32 w), name := "host", hostname := "" }

end Meshp.Enroll.Redemptions
