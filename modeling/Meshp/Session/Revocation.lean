import Meshp.Session.Answers

/-!
# Sessions That Outlive Their Membership

A membership is checked when its device opens a session. After that the session is
served for as long as the connection lasts: whatever nudges it has the state of
the membership built and written, and building asks what the membership is told,
not whether it is still to be told anything. Revoking commits first, then nudges
every session of the network, the revoked one among them, and only then asks that
one to say goodbye, if the replica that answers happens to hold it.
-/

namespace Meshp.Session.Revocation

open Base (run Along)
open Store

inductive Stage
  /-- The hello and its challenge have been verified, for an identity key. -/
  | greeting (identityPublicKey : List UInt8)
  /-- `handshake` has read the membership and found nothing against it. -/
  | admitted
  /-- The hub knows the session, and `run` has not read the membership yet. -/
  | registered
  /-- `run` waits for something to do. -/
  | serving
  /-- `pushState` has built a state, before or after the revocation, and is writing it. -/
  | writing (d : Wire.StateDelta) (late : Bool)
  | ended
  deriving DecidableEq

structure Connection where
  replica : Nat
  stage : Stage
  applied : Nat
  /-- A nudge is pending. -/
  notify : Bool := false
  /-- A last message is pending. -/
  farewell : Bool := false

/-- The database, the sessions of one membership that any replica has had, and which of them each
replica's hub has for it. -/
structure World where
  mesh : Mesh
  connections : List Connection := []
  hub : Nat → Option Nat := fun _ => none
  /-- Whether a revocation of the membership has committed. -/
  revoked : Bool := false
  /-- The states that were sent, and whether each was built after that. -/
  sent : List (Wire.StateDelta × Bool) := []

inductive Act
  /-- `handshake` reads the membership. -/
  | check
  /-- `hub.Add`. A session it displaces is closed, and ends when it notices. -/
  | add
  /-- `run` reads the membership, says hello and asks for the first state. -/
  | start
  | heartbeat (applied : Nat)
  | ack (applied : Nat)
  /-- `run` takes the nudge, and `pushState` builds. -/
  | push (b : Builder)
  /-- What was built is written. -/
  | write
  /-- `run` takes the farewell. -/
  | leave
  /-- The session ends for any other reason. -/
  | finish

inductive Move
  /-- A mutation commits. -/
  | commit (s : Stamped)
  /-- A device that has proved an identity key says hello. -/
  | connect (replica : Nat) (identityPublicKey : List UInt8) (applied : Nat)
  | session (i : Nat) (a : Act)
  /-- `NotifyNetwork`, on a replica that commits a change or hears of one. -/
  | notifyNetwork (replica : Nat)
  /-- `tellRevoked`, on the replica that revokes. -/
  | tellRevoked (replica : Nat)

section Step

variable (c : Enroll.Checks) (me : Id)

/-- What `handshake` asks of the membership it has read. -/
def admits (m : Mesh) (identityPublicKey : List UInt8) : Bool :=
  match sessionRow m me with
  | .error _ => false
  | .ok row =>
    match m.devices.find? (·.id = row.membership.deviceId) with
    | none => false
    | some d => decide (d.identityPublicKey = identityPublicKey ∧ d.revokedAt = none ∧
        row.membership.state = .active)

def revokes (s : Stamped) : Bool :=
  match s.event with
  | .revokeMembership _ id => id = me
  | _ => false

namespace World

def put (w : World) (i : Nat) (k : Connection) : World :=
  { w with connections := w.connections.set i k }

/-- The deferred end of `run`: the hub forgets the session, if it is the one it has. -/
def drop (w : World) (i : Nat) (k : Connection) : World :=
  { w.put i { k with stage := .ended } with
    hub := fun r => if w.hub r = some i then none else w.hub r }

end World

def onward (w : World) (i : Nat) (k : Connection) : Act → World
  | .check =>
    match k.stage with
    | .greeting key =>
      w.put i { k with stage := if admits me w.mesh key then .admitted else .ended }
    | _ => w
  | .add =>
    match k.stage with
    | .admitted =>
      { w.put i { k with stage := .registered } with
        hub := fun r => if r = k.replica then some i else w.hub r }
    | _ => w
  | .start =>
    match k.stage with
    | .registered =>
      match sessionRow w.mesh me with
      | .ok _ => w.put i { k with stage := .serving, notify := true }
      | .error _ => w.drop i k
    | _ => w
  | .heartbeat applied =>
    match sessionRow w.mesh me with
    | .ok row =>
      if applied < row.network.stateVersion then w.put i { k with notify := true } else w
    | .error _ => w
  | .ack applied => w.put i { k with applied }
  | .push b =>
    if k.stage = .serving ∧ k.notify = true then
      match b.for w.mesh me k.applied with
      | .ok d => w.put i { k with stage := .writing d w.revoked, notify := false }
      | .error _ => w.drop i k
    else w
  | .write =>
    match k.stage with
    | .writing d late => { w.put i { k with stage := .serving } with sent := (d, late) :: w.sent }
    | _ => w
  | .leave => if k.stage = .serving ∧ k.farewell = true then w.drop i k else w
  | .finish => w.drop i k

def reach (w : World) (replica : Nat) (f : Connection → Connection) : World :=
  match w.hub replica with
  | none => w
  | some i =>
    match w.connections[i]? with
    | none => w
    | some k => w.put i (f k)

def step (w : World) : Move → World
  | .commit s =>
    { w with
      mesh := apply c w.mesh s
      revoked := w.revoked || (revokes me s && (mutate c s w.mesh).toOption.isSome) }
  | .connect replica key applied =>
    { w with connections := w.connections ++ [{ replica, stage := .greeting key, applied }] }
  | .session i a =>
    match w.connections[i]? with
    | none => w
    | some k => onward me w i k a
  | .notifyNetwork replica => reach w replica fun k => { k with notify := true }
  | .tellRevoked replica => reach w replica fun k => { k with farewell := true }

end Step

def opening (c : Enroll.Checks) (ss : List Stamped) (me : Id) : World :=
  { mesh := history c ss
    revoked := (history c ss).memberships.any fun x => x.id = me ∧ x.state = .revoked }

def Silenced (w : World) : Prop :=
  ∀ e ∈ w.sent, e.2 = false

def Stage.isOpen : Stage → Bool
  | .greeting _ | .ended => false
  | .admitted | .registered | .serving | .writing _ _ => true

def Alone (me : Id) (w : World) : Move → Prop
  | .commit s => revokes me s = true → ∀ k ∈ w.connections, k.stage.isOpen = false
  | .connect _ _ _ | .session _ _ | .notifyNetwork _ | .tellRevoked _ => True

instance (me : Id) (w : World) : ∀ mv, Decidable (Alone me w mv)
  | .commit s => inferInstanceAs
      (Decidable (revokes me s = true → ∀ k ∈ w.connections, k.stage.isOpen = false))
  | .connect _ _ _ | .session _ _ | .notifyNetwork _ | .tellRevoked _ =>
    inferInstanceAs (Decidable True)

section Sound

variable {c : Enroll.Checks} {me : Id}

def Out (me : Id) (m : Mesh) : Prop :=
  me < m.nextId ∧ ∀ x ∈ m.memberships, x.id = me → x.state ≠ .active

variable {m : Mesh} {w : World}

theorem out_apply (hinv : m.Inv) (h : Out me m) (s : Stamped) : Out me (apply c m s) := by
  have he : Effect c s m (apply c m s) := apply_effect hinv.routes
  refine ⟨Nat.lt_of_lt_of_le h.1 he.nextId_le, fun x hx hid hactive => ?_⟩
  rcases he.member_of hx with ⟨y, hy, -, hsame⟩ | hnew
  · -- Nothing makes a membership active again.
    rw [hsame hactive] at hy
    exact h.2 x hy hid hactive
  · rw [hid] at hnew
    exact absurd h.1 (Nat.not_lt_of_le hnew)

theorem out_of_revokes {m' : Mesh} {s : Stamped} (hinv : m.Inv) (hs : revokes me s = true)
    (h : mutate c s m = .ok m') : Out me m' := by
  cases hevent : s.event with
  | revokeMembership n id =>
    obtain rfl : id = me := by simpa [revokes, hevent] using hs
    simp only [mutate, hevent] at h
    unfold revokeMembership at h
    split at h
    · rename_i x key hx hkey
      obtain ⟨rfl, -⟩ := bumpVersion_ok [.peerRemove key] rfl h
      obtain ⟨hmem, hid, _⟩ := Base.of_find? hx
      unfold Out
      rw [Mesh.toTables_recordAll]
      refine ⟨?_, fun y hy hyid => ?_⟩
      · rw [← hid]
        exact hinv.members.memberBelow x hmem
      · obtain ⟨z, -, rfl⟩ := List.mem_map.1 hy
        by_cases hz : z.id = id
        · simp [hz]
        · rw [if_neg hz] at hyid
          exact absurd hyid hz
    · cases h
  | _ => simp [revokes, hevent] at hs

theorem admits_of_out (h : Out me m) (key : List UInt8) : admits me m key = false := by
  unfold admits
  cases hrow : sessionRow m me with
  | error e => rfl
  | ok row =>
    simp only
    cases m.devices.find? (·.id = row.membership.deviceId) with
    | none => rfl
    | some d =>
      obtain ⟨hmem, hid, -⟩ := sessionRow_ok hrow
      have hstate := h.2 _ hmem hid
      simp [hstate]

def Stage.Early : Stage → Prop
  | .writing _ late => late = false
  | .greeting _ | .admitted | .registered | .serving | .ended => True

structure Sound (me : Id) (w : World) : Prop where
  inv : w.mesh.Inv
  out : w.revoked = true → Out me w.mesh
  shut : w.revoked = true → ∀ k ∈ w.connections, k.stage.isOpen = false
  early : ∀ k ∈ w.connections, k.stage.Early
  silenced : Silenced w

theorem Sound.put (hw : Sound me w) (i : Nat) {k : Connection}
    (hshut : w.revoked = true → k.stage.isOpen = false) (hearly : k.stage.Early) :
    Sound me (w.put i k) := by
  refine { hw with shut := fun hr k' hk' => ?_, early := fun k' hk' => ?_ }
  · rcases List.mem_or_eq_of_mem_set hk' with hk' | rfl
    · exact hw.shut hr k' hk'
    · exact hshut hr
  · rcases List.mem_or_eq_of_mem_set hk' with hk' | rfl
    · exact hw.early k' hk'
    · exact hearly

theorem Sound.rehub (hw : Sound me w) (hub : Nat → Option Nat) : Sound me { w with hub } :=
  { hw with }

theorem Sound.drop (hw : Sound me w) (i : Nat) (k : Connection) : Sound me (w.drop i k) :=
  (hw.put i (k := { k with stage := .ended }) (fun _ => rfl) trivial).rehub _

theorem sound_onward (hw : Sound me w) {i : Nat} {k : Connection} (hk : k ∈ w.connections) (a : Act) :
    Sound me (onward me w i k a) := by
  have hshut (hr : w.revoked = true) : k.stage.isOpen = false := hw.shut hr k hk
  have hopen (ho : k.stage.isOpen = true) : w.revoked = false := by
    cases hr : w.revoked with
    | false => rfl
    | true => simp [hshut hr] at ho
  have hstay {k' : Connection} (hstage : k'.stage = k.stage) : Sound me (w.put i k') :=
    hw.put i (fun hr => hstage ▸ hshut hr) (hstage ▸ hw.early k hk)
  have hmove {k' : Connection} (ho : k.stage.isOpen = true) (hearly : k'.stage.Early) :
      Sound me (w.put i k') :=
    hw.put i (fun hr => by simp [hopen ho] at hr) hearly
  cases a with
  | check =>
    unfold onward
    cases hstage : k.stage with
    | greeting key =>
      refine hw.put i (fun hr => ?_) ?_
      · rw [admits_of_out (hw.out hr)]
        rfl
      · split <;> trivial
    | admitted | registered | serving | writing | ended => exact hw
  | add =>
    unfold onward
    cases hstage : k.stage with
    | admitted =>
      have hput : Sound me (w.put i { k with stage := .registered }) :=
        hmove (by rw [hstage]; rfl) trivial
      exact hput.rehub _
    | greeting | registered | serving | writing | ended => exact hw
  | start =>
    unfold onward
    cases hstage : k.stage with
    | registered =>
      cases sessionRow w.mesh me with
      | ok row => exact hmove (by rw [hstage]; rfl) trivial
      | error e => exact hw.drop i k
    | greeting | admitted | serving | writing | ended => exact hw
  | heartbeat applied =>
    unfold onward
    cases sessionRow w.mesh me with
    | ok row =>
      simp only
      split
      · exact hstay rfl
      · exact hw
    | error e => exact hw
  | ack applied => exact hstay rfl
  | push b =>
    unfold onward
    simp only
    split
    · rename_i hserving
      have ho : k.stage.isOpen = true := by rw [hserving.1]; rfl
      cases b.for w.mesh me k.applied with
      | ok d => exact hmove ho (hopen ho)
      | error e => exact hw.drop i k
    · exact hw
  | write =>
    unfold onward
    cases hstage : k.stage with
    | writing d late =>
      have hearly : late = false := by
        have := hw.early k hk
        rwa [hstage] at this
      have hput : Sound me (w.put i { k with stage := .serving }) :=
        hmove (by rw [hstage]; rfl) trivial
      refine { hput with silenced := fun e he => ?_ }
      rcases List.mem_cons.1 he with rfl | he
      · exact hearly
      · exact hw.silenced e he
    | greeting | admitted | registered | serving | ended => exact hw
  | leave =>
    unfold onward
    simp only
    split
    · exact hw.drop i k
    · exact hw
  | finish => exact hw.drop i k

theorem sound_reach (hw : Sound me w) (r : Nat) {f : Connection → Connection}
    (hf : ∀ k, (f k).stage = k.stage) : Sound me (reach w r f) := by
  unfold reach
  cases w.hub r with
  | none => exact hw
  | some i =>
    cases hk : w.connections[i]? with
    | none =>
      simp only [hk]
      exact hw
    | some k =>
      simp only [hk]
      have hmem := List.mem_of_getElem? hk
      exact hw.put i (fun hr => hf k ▸ hw.shut hr k hmem) (hf k ▸ hw.early k hmem)

theorem sound_commit (hw : Sound me w) {s : Stamped} (halone : Alone me w (.commit s)) :
    Sound me (step c me w (.commit s)) := by
  refine ⟨inv_apply hw.inv, fun hr => ?_, fun hr => ?_, hw.early, hw.silenced⟩
  · rcases Bool.or_eq_true_iff.1 hr with hr | hr
    · exact out_apply hw.inv (hw.out hr) s
    · obtain ⟨hs, hok⟩ := Bool.and_eq_true_iff.1 hr
      cases hm : mutate c s w.mesh with
      | error e => simp [hm, Except.toOption] at hok
      | ok m' =>
        have happly : apply c w.mesh s = m' := by
          unfold apply Base.attempt
          rw [hm]
        change Out me (apply c w.mesh s)
        rw [happly]
        exact out_of_revokes hw.inv hs hm
  · rcases Bool.or_eq_true_iff.1 hr with hr | hr
    · exact hw.shut hr
    · exact halone (Bool.and_eq_true_iff.1 hr).1

theorem sound_step (w : World) (mv : Move) (hw : Sound me w) (halone : Alone me w mv) :
    Sound me (step c me w mv) := by
  cases mv with
  | commit s => exact sound_commit hw halone
  | connect r key applied =>
    refine { hw with shut := fun hr k hk => ?_, early := fun k hk => ?_ }
    · rcases Base.mem_concat.1 hk with hk | rfl
      · exact hw.shut hr k hk
      · rfl
    · rcases Base.mem_concat.1 hk with hk | rfl
      · exact hw.early k hk
      · trivial
  | session i a =>
    unfold step
    cases hk : w.connections[i]? with
    | none =>
      simp only [hk]
      exact hw
    | some k =>
      simp only [hk]
      exact sound_onward hw (List.mem_of_getElem? hk) a
  | notifyNetwork r | tellRevoked r => exact sound_reach hw r fun k => rfl

theorem sound_opening (c : Enroll.Checks) (ss : List Stamped) (me : Id) :
    Sound me (opening c ss me) := by
  have hinv : (history c ss).Inv := inv_history ss
  have hnone {α : Type} {p : α → Prop} : ∀ a ∈ ([] : List α), p a := nofun
  refine ⟨hinv, fun hr => ?_, fun _ => hnone, hnone, hnone⟩
  obtain ⟨x, hx, h⟩ := List.any_eq_true.1 hr
  obtain ⟨hid, hrevoked⟩ := of_decide_eq_true h
  refine ⟨hid ▸ hinv.members.memberBelow x hx, fun y hy hyid hactive => ?_⟩
  rw [hinv.member_eq hy hx (hyid.trans hid.symm), hrevoked] at hactive
  cases hactive

/-- In a deployment of any number of replicas, as long as the membership is revoked while none of
them has an open session of it, no state built afterwards is sent to one. -/
theorem silenced_run (c : Enroll.Checks) (ss : List Stamped) (me : Id) (moves : List Move)
    (halone : Along (step c me) (Alone me) (opening c ss me) moves) :
    Silenced (run (step c me) (opening c ss me) moves) :=
  (Base.run_inv_along (Sound me) sound_step _ moves (sound_opening c ss me) halone).silenced

end Sound

def twoDevices : List Stamped := founding [] ++ [joining 1 7, joining 2 8]

def opened (replica i : Nat) : List Move :=
  [.connect replica (List.replicate 32 7) 0, .session i .check, .session i .add,
    .session i .start, .session i (.push {}), .session i .write]

def revoking : Move :=
  .commit ⟨3, .revokeMembership 2 (founder []).id⟩

theorem silenced_returning :
    let moves := opened 0 0 ++ [.session 0 .finish, revoking] ++ opened 1 1
    Along (step trusting (founder []).id) (Alone (founder []).id)
        (opening trusting twoDevices (founder []).id) moves ∧
      Silenced (run (step trusting (founder []).id)
        (opening trusting twoDevices (founder []).id) moves) ∧
      (run (step trusting (founder []).id)
        (opening trusting twoDevices (founder []).id) moves).sent.length = 1 :=
  have halone := by decide +kernel
  ⟨halone, silenced_run trusting twoDevices (founder []).id _ halone, by decide +kernel⟩

/-- A connected device is revoked. Its session is nudged with the others of the network and takes
the nudge before the farewell; or it is with another replica, where the nudge arrives and the
farewell never does. Either way it is sent the whole network, the other device's key included, as it
was after the revocation. -/
theorem told_after_revocation :
    let me := (founder []).id
    let told (w : World) := w.revoked = true ∧
      (w.sent.map fun e => (e.1.upsertPeers.map (·.publicKey), e.2)).head? =
        some ([Keys.keyText (List.replicate 32 8)], true)
    let here := run (step trusting me) (opening trusting twoDevices me)
      (opened 0 0 ++ [revoking, .notifyNetwork 0, .tellRevoked 0, .session 0 (.push {}),
        .session 0 .write])
    let elsewhere := run (step trusting me) (opening trusting twoDevices me)
      (opened 1 0 ++ [revoking, .notifyNetwork 0, .tellRevoked 0, .notifyNetwork 1,
        .session 0 (.push {}), .session 0 .write])
    (¬ Silenced here ∧ told here) ∧
      (¬ Silenced elsewhere ∧ told elsewhere ∧
        elsewhere.connections.map (fun k => (k.stage, k.farewell)) = [(.serving, false)]) := by
  have hloud {w : World} (h : (w.sent.any fun e => e.2) = true) : ¬ Silenced w := by
    intro hs
    obtain ⟨e, he, hlate⟩ := List.any_eq_true.1 h
    simp [hs e he] at hlate
  exact ⟨⟨hloud (by decide +kernel), by decide +kernel⟩, hloud (by decide +kernel),
    by decide +kernel, by decide +kernel⟩

end Meshp.Session.Revocation
