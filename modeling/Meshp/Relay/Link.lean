import Meshp.Base.Run
import Meshp.Wire.State

/-!
# A Relay Attachment

A link is one membership's attachment to a relay. Desired state says which relay
and where it answers, the control channel brings the token, and a loop dials,
records the connection, hands it to the forwarder as what to send through, and
serves it until it ends. Recording a connection and handing it over are two
sections, and a dial is under no lock at all.
-/

namespace Meshp.Relaylink

open Base (run Along)

/-- `meshpv1.RelayConfig`, with the relay it prefers. -/
structure Config extends Wire.RelayConfig where
  preferredRelayId : String := ""

/-- `preferred`: the relay that is named, or else the first. -/
def preferred (cfg : Option Config) : Option Wire.Relay :=
  match cfg with
  | none => none
  | some cfg =>
    if cfg.preferredRelayId = "" then cfg.relays.head?
    else cfg.relays.find? (·.id = cfg.preferredRelayId) <|> cfg.relays.head?

/-- `relayclient.Client`: one connection, to one of the endpoints it was dialled with. Two dials
never give the same one. -/
structure Client where
  id : Nat
  endpoint : String
  deriving DecidableEq

/-- `Link`, as far as its lock guards it. -/
structure Link where
  relayID : String := ""
  endpoints : List String := []
  token : List UInt8 := []
  expires : Nat := 0
  client : Option Client := none
  closed : Bool := false

namespace Link

variable (l : Link)

/-- The locked section of `SetRelays`, and the connection it leaves to be dropped. -/
def setRelays (cfg : Option Config) : Link × Option Client :=
  let id := ((preferred cfg).map (·.id)).getD ""
  let endpoints := ((preferred cfg).map (·.endpoints)).getD []
  let l' := { l with relayID := id, endpoints }
  if id ≠ l.relayID ∨ endpoints ≠ l.endpoints then ({ l' with client := none }, l.client)
  else (l', none)

def setToken (token : List UInt8) (expires : Nat) : Link :=
  { l with token, expires }

/-- The locked section of `Close`, and the connection it leaves to be closed. -/
def close : Link × Option Client :=
  if l.closed then (l, none) else ({ l with closed := true, client := none }, l.client)

/-- `dialInputs`, the token apart: where to dial, if there is anything to dial with. -/
def dialInputs (now : Nat) : Option (List String) :=
  if l.closed ∨ l.endpoints = [] ∨ l.token = [] ∨ l.expires ≤ now then none
  else some l.endpoints

def refuse (refused : Bool) : Link :=
  if refused then { l with token := [], expires := 0 } else l

/-- The locked section of `dialFailed`. -/
def dialFailed (refused : Bool) : Link :=
  l.refuse refused

/-- The locked section of `attach`. -/
def attach (c : Client) : Link :=
  { l with client := some c }

/-- The locked section of `detach`: only this connection is let go of. -/
def detach (c : Client) (refused : Bool) : Link :=
  ({ l with client := if l.client = some c then none else l.client }).refuse refused

inductive EndpointFailure
  | closed
  | notAttached (relayID : String)
  deriving DecidableEq

/-- `Endpoint`, up to the forwarder: the peer's relay must be the one this link serves. -/
def endpoint (relayID : String) : Except EndpointFailure Unit :=
  if l.closed then .error .closed
  else if relayID = "" ∨ relayID ≠ l.relayID then .error (.notAttached relayID)
  else .ok ()

@[simp] theorem refuse_client (r : Bool) : (l.refuse r).client = l.client := by
  unfold refuse
  split <;> rfl

@[simp] theorem refuse_endpoints (r : Bool) : (l.refuse r).endpoints = l.endpoints := by
  unfold refuse
  split <;> rfl

@[simp] theorem refuse_closed (r : Bool) : (l.refuse r).closed = l.closed := by
  unfold refuse
  split <;> rfl

theorem setRelays_cases (cfg : Option Config) :
    ((l.setRelays cfg).1.client = none ∧ (l.setRelays cfg).2 = l.client) ∨
      ((l.setRelays cfg).1 = l ∧ (l.setRelays cfg).2 = none) := by
  unfold setRelays
  by_cases h : ((preferred cfg).map (·.id)).getD "" ≠ l.relayID ∨
      ((preferred cfg).map (·.endpoints)).getD [] ≠ l.endpoints
  · exact .inl (by simp only [if_pos h, and_self])
  · refine .inr ?_
    simp only [if_neg h, and_true]
    simp only [not_or, not_not] at h
    rw [h.1, h.2]

theorem close_cases :
    (l.close.1.client = none ∧ l.close.2 = l.client) ∨ (l.close.1 = l ∧ l.close.2 = none) := by
  unfold close
  by_cases h : l.closed
  · exact .inr (by simp only [if_pos h, and_self])
  · exact .inl (by simp only [if_neg h, and_self])

end Link

/-- Where `Run` stands. What it does under no lock and sees nothing of is part of the section that
follows it. -/
inductive Phase
  /-- Asleep, or about to look at what there is to dial with. -/
  | idle
  /-- In `Dial`, with the endpoints it was given. -/
  | dialling (endpoints : List String)
  /-- In `attach`, with the connection recorded. -/
  | attaching (c : Client)
  /-- In `serve`. -/
  | serving (c : Client)
  /-- In `detach`, with the connection let go of. -/
  | detaching (c : Client)
  /-- In `detach`, with the connection taken from the forwarder. -/
  | closing (c : Client)
  | stopped
  deriving DecidableEq

inductive Task
  /-- `SetRelays`, before it closes the connection it dropped. -/
  | drop (c : Client)
  /-- `SetRelays`, before it takes the connection from the forwarder. -/
  | mute
  /-- `Close`, before it closes the connection it found. -/
  | shut (c : Client)
  deriving DecidableEq

structure World where
  link : Link := {}
  /-- What the forwarder sends through. -/
  sender : Option Client := none
  phase : Phase := .idle
  tasks : List Task := []
  /-- The connections that have been closed. -/
  gone : List Client := []
  /-- How many dials have been answered. -/
  dials : Nat := 0
  /-- Whether the context has ended. -/
  done : Bool := false

inductive Move
  | setRelays (cfg : Option Config)
  | setToken (token : List UInt8) (expires : Nat)
  | close
  /-- A command under way goes on. -/
  | next (i : Nat)
  /-- `Run` looks at what there is to dial with. -/
  | wake (now : Nat)
  /-- An endpoint answers. -/
  | dialled (k : Nat)
  | dialFailed (refused : Bool)
  /-- `serve` comes to its end, by itself or because the connection was closed. -/
  | served (refused : Bool)
  /-- `Run` goes on in `attach` or in `detach`. -/
  | goOn
  /-- The context ends. -/
  | cancel
  /-- The goroutine of `serve` closes the connection when the context has ended. -/
  | watchdog

namespace World

def leave (w : World) (p : Link × Option Client) (task : Client → Task) : World :=
  { w with link := p.1, tasks := w.tasks ++ (p.2.map task).toList }

def advance (w : World) (i : Nat) : World :=
  let rest := w.tasks.eraseIdx i
  match w.tasks[i]? with
  | some (.drop c) => { w with gone := c :: w.gone, tasks := rest ++ [.mute] }
  | some .mute => { w with sender := none, tasks := rest }
  | some (.shut c) => { w with gone := c :: w.gone, tasks := rest }
  | none => w

/-- The head of the loop of `Run`. -/
def wake (w : World) (now : Nat) : World :=
  if w.phase ≠ .idle then w
  else if w.done then { w with phase := .stopped }
  else match w.link.dialInputs now with
    | some endpoints => { w with phase := .dialling endpoints }
    | none => if w.link.closed then { w with phase := .stopped } else w

def dialled (w : World) (k : Nat) : World :=
  match w.phase with
  | .dialling endpoints =>
    match endpoints[k]? with
    | some e =>
      { w with
        link := w.link.attach ⟨w.dials, e⟩
        phase := .attaching ⟨w.dials, e⟩
        dials := w.dials + 1 }
    | none => w
  | _ => w

def dialFailed (w : World) (refused : Bool) : World :=
  match w.phase with
  | .dialling _ =>
    if w.done then { w with phase := .stopped }
    else { w with link := w.link.dialFailed refused, phase := .idle }
  | _ => w

def served (w : World) (refused : Bool) : World :=
  match w.phase with
  | .serving c => { w with link := w.link.detach c (refused && !w.done), phase := .detaching c }
  | _ => w

def goOn (w : World) : World :=
  match w.phase with
  | .attaching c => { w with sender := some c, phase := .serving c }
  | .detaching c => { w with sender := none, phase := .closing c }
  | .closing c => { w with gone := c :: w.gone, phase := .idle }
  | _ => w

def watchdog (w : World) : World :=
  match w.phase with
  | .serving c => if w.done then { w with gone := c :: w.gone } else w
  | _ => w

end World

def step (w : World) : Move → World
  | .setRelays cfg => w.leave (w.link.setRelays cfg) .drop
  | .setToken token expires => { w with link := w.link.setToken token expires }
  | .close => w.leave w.link.close .shut
  | .next i => w.advance i
  | .wake now => w.wake now
  | .dialled k => w.dialled k
  | .dialFailed refused => w.dialFailed refused
  | .served refused => w.served refused
  | .goOn => w.goOn
  | .cancel => { w with done := true }
  | .watchdog => w.watchdog

/-- The loop sleeps, has ended, or waits for a packet. A connection that has been closed is not
waited for: `serve` is then on its way to `detach`. -/
def AtRest (gone : List Client) : Phase → Prop
  | .idle | .stopped => True
  | .serving c => c ∉ gone
  | .dialling _ | .attaching _ | .detaching _ | .closing _ => False

instance (gone : List Client) : ∀ p, Decidable (AtRest gone p)
  | .idle | .stopped => inferInstanceAs (Decidable True)
  | .serving c => inferInstanceAs (Decidable (c ∉ gone))
  | .dialling _ | .attaching _ | .detaching _ | .closing _ => inferInstanceAs (Decidable False)

def Quiet (w : World) : Prop :=
  w.tasks = [] ∧ AtRest w.gone w.phase

instance (w : World) : Decidable (Quiet w) :=
  inferInstanceAs (Decidable (_ ∧ _))

def Attached (w : World) : Prop :=
  (∀ c ∈ w.link.client,
    w.sender = some c ∧ c.endpoint ∈ w.link.endpoints ∧ w.link.closed = false) ∧
  (w.link.client = none → w.sender = none)

instance (w : World) : Decidable (Attached w) :=
  inferInstanceAs (Decidable (_ ∧ _))

def InTime (l : Link) (k : Nat) : Phase → Prop
  | .dialling endpoints => ∀ e ∈ endpoints[k]?, l.closed = false ∧ e ∈ l.endpoints
  | .idle | .attaching _ | .serving _ | .detaching _ | .closing _ | .stopped => True

instance (l : Link) (k : Nat) : ∀ p, Decidable (InTime l k p)
  | .dialling endpoints => inferInstanceAs (Decidable (∀ e ∈ endpoints[k]?, _ ∧ _))
  | .idle | .attaching _ | .serving _ | .detaching _ | .closing _ | .stopped =>
    inferInstanceAs (Decidable True)

def Orderly (w : World) : Move → Prop
  | .dialled k => InTime w.link k w.phase
  | .next i => w.tasks[i]? = some .mute → w.link.client = none
  | .setRelays _ | .setToken _ _ | .close | .wake _ | .dialFailed _ | .served _ | .goOn
  | .cancel | .watchdog => True

instance (w : World) : ∀ m, Decidable (Orderly w m)
  | .dialled k => inferInstanceAs (Decidable (InTime w.link k w.phase))
  | .next i => inferInstanceAs (Decidable (w.tasks[i]? = some .mute → w.link.client = none))
  | .setRelays _ | .setToken _ _ | .close | .wake _ | .dialFailed _ | .served _ | .goOn
  | .cancel | .watchdog => inferInstanceAs (Decidable True)

def Leaving (w : World) (c : Client) : Prop :=
  c ∈ w.gone ∨ .drop c ∈ w.tasks ∨ .shut c ∈ w.tasks

def Holds (w : World) : Phase → Prop
  | .idle | .dialling _ | .closing _ | .stopped => w.link.client = none ∧ w.sender = none
  | .detaching _ => w.link.client = none
  | .attaching c => w.link.client = some c ∨ (w.link.client = none ∧ Leaving w c)
  | .serving c =>
    (w.link.client = some c ∧ w.sender = some c) ∨ (w.link.client = none ∧ Leaving w c)

def Wanted (l : Link) : Prop :=
  ∀ c ∈ l.client, c.endpoint ∈ l.endpoints ∧ l.closed = false

def Sound (w : World) : Prop :=
  Wanted w.link ∧ Holds w w.phase

variable {w : World} {i : Nat}

theorem attached_of_quiet (hw : Sound w) (hq : Quiet w) : Attached w := by
  obtain ⟨hwant, hholds⟩ := hw
  obtain ⟨htasks, hrest⟩ := hq
  cases hp : w.phase with
  | idle | stopped =>
    rw [hp] at hholds
    obtain ⟨hc, hs⟩ := hholds
    exact ⟨fun c h => by simp [hc] at h, fun _ => hs⟩
  | serving c =>
    rw [hp] at hholds hrest
    -- With no command under way, a connection that is leaving is closed.
    have hopen : ¬ Leaving w c := by
      intro h
      rcases h with h | h | h
      · exact hrest h
      · simp [htasks] at h
      · simp [htasks] at h
    rcases hholds with ⟨hc, hs⟩ | ⟨-, h⟩
    · refine ⟨fun d hd => ?_, fun h => by simp [hc] at h⟩
      obtain rfl : c = d := by simpa [hc] using hd
      exact ⟨hs, hwant c hc⟩
    · exact absurd h hopen
  | dialling es | attaching c | detaching c | closing c =>
    rw [hp] at hrest
    exact hrest.elim

theorem Holds.mono {v : World} {p : Phase} (h : Holds w p) (hclient : v.link.client = w.link.client)
    (hsender : v.sender = w.sender) (hleaving : ∀ c, Leaving w c → Leaving v c) : Holds v p := by
  cases p with
  | idle | dialling | closing | stopped => exact ⟨hclient.trans h.1, hsender.trans h.2⟩
  | detaching => exact hclient.trans h
  | attaching c => exact h.imp hclient.trans fun h => ⟨hclient.trans h.1, hleaving c h.2⟩
  | serving c =>
    exact h.imp (fun h => ⟨hclient.trans h.1, hsender.trans h.2⟩)
      fun h => ⟨hclient.trans h.1, hleaving c h.2⟩

theorem Holds.dropped {v : World} {p : Phase} (h : Holds w p) (hclient : v.link.client = none)
    (hsender : v.sender = w.sender) (hleaving : ∀ c, Leaving w c → Leaving v c)
    (hdropped : ∀ c, w.link.client = some c → Leaving v c) : Holds v p := by
  cases p with
  | idle | dialling | closing | stopped => exact ⟨hclient, hsender.trans h.2⟩
  | detaching => exact hclient
  | attaching c => exact .inr ⟨hclient, h.elim (hdropped c) fun h => hleaving c h.2⟩
  | serving c =>
    exact .inr ⟨hclient, h.elim (fun h => hdropped c h.1) fun h => hleaving c h.2⟩

theorem sound_leave {p : Link × Option Client} {task : Client → Task} (hw : Sound w)
    (hp : (p.1.client = none ∧ p.2 = w.link.client) ∨ (p.1 = w.link ∧ p.2 = none))
    (htask : ∀ c, task c = .drop c ∨ task c = .shut c) : Sound (w.leave p task) := by
  obtain ⟨hwant, hholds⟩ := hw
  have hleaving : ∀ c, Leaving w c → Leaving (w.leave p task) c := by
    intro c h
    exact h.imp id (Or.imp (List.mem_append_left _) (List.mem_append_left _))
  rcases hp with ⟨hnone, hleft⟩ | ⟨hsame, -⟩
  · refine ⟨fun c hc => by simp [World.leave, hnone] at hc, ?_⟩
    refine hholds.dropped hnone rfl hleaving fun c hc => .inr ?_
    have hmem : task c ∈ (w.leave p task).tasks :=
      List.mem_append_right _ (by simp [hleft, hc])
    rcases htask c with h | h
    · exact .inl (h ▸ hmem)
    · exact .inr (h ▸ hmem)
  · refine ⟨?_, hholds.mono (congrArg Link.client hsame) rfl hleaving⟩
    change Wanted p.1
    rwa [hsame]

theorem mem_eraseIdx_or_eq {ts : List Task} {t u : Task} (ht : t ∈ ts) (hu : ts[i]? = some u) :
    t ∈ ts.eraseIdx i ∨ t = u := by
  obtain ⟨j, hj⟩ := List.mem_iff_getElem?.1 ht
  by_cases hji : j = i
  · subst hji
    exact .inr (Option.some.inj (hj.symm.trans hu))
  · exact .inl (List.mem_eraseIdx_iff_getElem?.2 ⟨j, hji, hj⟩)

theorem leaving_advance {c : Client} (h : Leaving w c) : Leaving (w.advance i) c := by
  unfold World.advance
  cases hu : w.tasks[i]? with
  | none => exact h
  | some u =>
    have hdrop (h : .drop c ∈ w.tasks) := mem_eraseIdx_or_eq h hu
    have hshut (h : .shut c ∈ w.tasks) := mem_eraseIdx_or_eq h hu
    unfold Leaving at h ⊢
    cases u with
    | drop d | shut d | mute =>
      simp only [List.mem_cons, List.mem_append]
      grind

theorem sound_advance (hw : Sound w) (ho : Orderly w (.next i)) : Sound (w.advance i) := by
  obtain ⟨hwant, hholds⟩ := hw
  have hleaving (c : Client) (h : Leaving w c) : Leaving (w.advance i) c := leaving_advance h
  unfold World.advance at hleaving ⊢
  cases ht : w.tasks[i]? with
  | none => exact ⟨hwant, hholds⟩
  | some t =>
    rw [ht] at hleaving
    cases t with
    | drop c | shut c => exact ⟨hwant, hholds.mono rfl rfl hleaving⟩
    | mute =>
      have hnone : w.link.client = none := ho ht
      refine ⟨hwant, ?_⟩
      change Holds _ w.phase
      cases hp : w.phase with
      | idle | dialling | closing | stopped => exact ⟨hnone, rfl⟩
      | detaching => exact hnone
      | attaching c | serving c =>
        rw [hp] at hholds
        refine .inr ⟨hnone, hleaving c ?_⟩
        rcases hholds with h | h
        · simp [hnone] at h
        · exact h.2

theorem sound_wake (hw : Sound w) (now : Nat) : Sound (w.wake now) := by
  unfold World.wake
  by_cases hp : w.phase = .idle
  · obtain ⟨hwant, hholds⟩ := hw
    rw [hp] at hholds
    simp only [hp, ne_eq, not_true_eq_false, if_false]
    split
    · exact ⟨hwant, hholds⟩
    · split
      · exact ⟨hwant, hholds⟩
      · split
        · exact ⟨hwant, hholds⟩
        · exact ⟨hwant, hp ▸ hholds⟩
  · rw [if_pos hp]
    exact hw

theorem sound_dialled {k : Nat} (hw : Sound w) (ho : Orderly w (.dialled k)) :
    Sound (w.dialled k) := by
  unfold World.dialled
  cases hp : w.phase with
  | dialling es =>
    rw [Orderly, hp] at ho
    cases he : es[k]? with
    | none =>
      simp only [he]
      exact hw
    | some e =>
      simp only [he]
      obtain ⟨hopen, hcurrent⟩ := ho e he
      refine ⟨fun c hc => ?_, .inl rfl⟩
      obtain rfl : ⟨w.dials, e⟩ = c := Option.some.inj hc
      exact ⟨hcurrent, hopen⟩
  | idle | attaching | serving | detaching | closing | stopped => exact hw

theorem Wanted.refuse {l : Link} (h : Wanted l) (r : Bool) : Wanted (l.refuse r) := by
  intro c hc
  rw [Link.refuse_client] at hc
  rw [Link.refuse_endpoints, Link.refuse_closed]
  exact h c hc

theorem sound_dialFailed (hw : Sound w) (r : Bool) : Sound (w.dialFailed r) := by
  unfold World.dialFailed
  cases hp : w.phase with
  | dialling es =>
    obtain ⟨hwant, hholds⟩ := hw
    rw [hp] at hholds
    by_cases hd : w.done
    · simp only [if_pos hd]
      exact ⟨hwant, hholds⟩
    · simp only [if_neg hd]
      exact ⟨hwant.refuse r, (Link.refuse_client _ _).trans hholds.1, hholds.2⟩
  | idle | attaching | serving | detaching | closing | stopped => exact hw

theorem sound_served (hw : Sound w) (r : Bool) : Sound (w.served r) := by
  unfold World.served
  cases hp : w.phase with
  | serving c =>
    have hnone : (w.link.detach c (r && !w.done)).client = none := by
      have hholds := hw.2
      rw [hp] at hholds
      rw [Link.detach, Link.refuse_client]
      rcases hholds with h | h
      · exact if_pos h.1
      · simp [h.1]
    refine ⟨fun d hd => ?_, hnone⟩
    simp [hnone] at hd
  | idle | dialling | attaching | detaching | closing | stopped => exact hw

theorem sound_goOn (hw : Sound w) : Sound w.goOn := by
  unfold World.goOn
  obtain ⟨hwant, hholds⟩ := hw
  cases hp : w.phase with
  | attaching c =>
    rw [hp] at hholds
    exact ⟨hwant, hholds.imp (fun h => ⟨h, rfl⟩) id⟩
  | detaching c =>
    rw [hp] at hholds
    exact ⟨hwant, hholds, rfl⟩
  | closing c =>
    rw [hp] at hholds
    exact ⟨hwant, hholds⟩
  | idle | dialling | serving | stopped => exact ⟨hwant, hholds⟩

theorem sound_watchdog (hw : Sound w) : Sound w.watchdog := by
  unfold World.watchdog
  cases hp : w.phase with
  | serving c =>
    by_cases hd : w.done
    · simp only [if_pos hd]
      obtain ⟨hwant, hholds⟩ := hw
      rw [hp] at hholds
      exact ⟨hwant, hholds.mono rfl rfl fun d h => h.imp (.tail _) id⟩
    · simp only [if_neg hd]
      exact hw
  | idle | dialling | attaching | detaching | closing | stopped => exact hw

theorem sound_step (w : World) (m : Move) (hw : Sound w) (ho : Orderly w m) :
    Sound (step w m) := by
  cases m with
  | setRelays cfg => exact sound_leave hw (w.link.setRelays_cases cfg) fun _ => .inl rfl
  | setToken token expires | cancel => exact ⟨hw.1, hw.2.mono rfl rfl fun _ h => h⟩
  | close => exact sound_leave hw w.link.close_cases fun _ => .inr rfl
  | next i => exact sound_advance hw ho
  | wake now => exact sound_wake hw now
  | dialled k => exact sound_dialled hw ho
  | dialFailed refused => exact sound_dialFailed hw refused
  | served refused => exact sound_served hw refused
  | goOn => exact sound_goOn hw
  | watchdog => exact sound_watchdog hw

/-- In a run of a new link in which no connection is recorded that is no longer wanted, and none is
taken away for an older one, a quiet state has the forwarder send through what the link records. -/
theorem attached_run {moves : List Move} (ho : Along step Orderly {} moves)
    (hq : Quiet (run step {} moves)) : Attached (run step {} moves) := by
  have hstart : Sound {} := ⟨fun c hc => (Option.not_mem_none c hc).elim, rfl, rfl⟩
  exact attached_of_quiet (Base.run_inv_along Sound sound_step _ _ hstart ho) hq

def soleRelay (id endpoint : String) : Option Config :=
  some { relays := [⟨id, [endpoint]⟩] }

def arrival : List Move :=
  [.setRelays (soleRelay "fra" "fra:3478"), .setToken [7] 100, .wake 10, .dialled 0, .goOn]

theorem attached_moved :
    let moves := arrival ++ [.setRelays (soleRelay "ams" "ams:3478"), .next 0, .next 0,
      .served false, .goOn, .goOn, .wake 20, .dialled 0, .goOn]
    Along step Orderly {} moves ∧ Attached (run step {} moves) ∧
      (run step {} moves).link.client = some ⟨1, "ams:3478"⟩ :=
  ⟨by decide +kernel, attached_run (by decide +kernel) (by decide +kernel), by decide +kernel⟩

/-- The relay is replaced, or the link closed, while a dial is out: there is nothing to drop, and
the dial records a connection to the old relay, or of a closed link. Or the relay is replaced while
its connection is served, and the change takes the connection from the forwarder when the next one
has been recorded. Nothing is under way in any of the states that are left. -/
theorem attached_to_replaced :
    let out := [.setRelays (soleRelay "fra" "fra:3478"), .setToken [7] 100, .wake 10]
    let replaced :=
      run step {} (out ++ [.setRelays (soleRelay "ams" "ams:3478"), .dialled 0, .goOn])
    let closed := run step {} (out ++ [.close, .dialled 0, .goOn])
    let late := run step {} (arrival ++ [.setRelays (soleRelay "ams" "ams:3478"), .next 0,
      .served false, .goOn, .goOn, .wake 20, .dialled 0, .goOn, .next 0])
    (Quiet replaced ∧ ¬ Attached replaced ∧
      replaced.link.client = some ⟨0, "fra:3478"⟩ ∧ replaced.link.endpoints = ["ams:3478"]) ∧
    (Quiet closed ∧ ¬ Attached closed ∧
      closed.link.client = some ⟨0, "fra:3478"⟩ ∧ closed.link.closed = true) ∧
    (Quiet late ∧ ¬ Attached late ∧
      late.link.client = some ⟨1, "ams:3478"⟩ ∧ late.sender = none) := by
  decide +kernel

end Meshp.Relaylink
