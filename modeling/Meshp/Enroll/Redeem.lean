import Meshp.Dns.Label
import Meshp.Ipam.Allocator
import Meshp.Keys.WireGuard
import Meshp.Store.StateLog

/-!
# Joining a Network

A device presents a token, a signed challenge and a WireGuard key, and comes away
with a membership: an address from each of the network's pools, a name it resolves
by, and a row every other device is told about. The whole exchange is one
transaction, so each step below is a function that either yields the tables it
wrote or refuses the lot. The checks that need cryptography are given.
-/

namespace Meshp.Enroll

open Base (bind_eq_ok)
open Netip (Addr)
open Store

/-- The checks a redemption makes that need cryptography: `HashToken`, `Challenger.Verify` and
`keys.VerifyIdentity`. -/
structure Checks where
  hashToken : String → Except String (List UInt8)
  challengeOk : (challenge tokenHash identity : List UInt8) → Time → Bool
  identityOk : (identity message signature : List UInt8) → Bool

structure RedeemRequest where
  token : String
  identityPublicKey : List UInt8
  challenge : List UInt8
  signature : List UInt8
  wireGuardPublicKey : String
  name : String
  hostname : String

/-- `classifyToken`: the specific reason a token cannot be used. -/
def classifyToken (now : Time) (tok : EnrollmentToken) : Except Refusal Unit :=
  if tok.revokedAt ≠ none then .error .tokenRevoked
  else if tok.expiresAt ≤ now then .error .tokenExpired
  else if tok.maxUses ≤ tok.uses then .error .tokenExhausted
  else .ok ()

def authenticate (c : Checks) (now : Time) (m : Tables) (req : RedeemRequest) :
    Except Refusal (EnrollmentToken × Key) :=
  match c.hashToken req.token with
  | .error message => .error (.invalid message)
  | .ok hash =>
    if req.identityPublicKey.length ≠ 32 then
      .error (.invalid ("enroll: identity public key is " ++
        toString req.identityPublicKey.length ++ " bytes, want 32"))
    else match Keys.parseWireGuardKey req.wireGuardPublicKey with
      | .error message => .error (.invalid message)
      | .ok key =>
        if Keys.isZero key then .error (.invalid "enroll: WireGuard public key is all zeroes")
        else match m.enrollmentTokens.find? (·.tokenHash = hash) with
          | none => .error .tokenUnknown
          | some tok =>
            match classifyToken now tok with
            | .error e => .error e
            | .ok () =>
              if c.challengeOk req.challenge hash req.identityPublicKey now &&
                  c.identityOk req.identityPublicKey req.challenge req.signature then
                .ok (tok, Keys.keyText key)
              else .error .proofFailed

/-- `ConsumeEnrollmentToken`. -/
def consumeToken (m : Tables) (tok : EnrollmentToken) : Tables :=
  { m with enrollmentTokens := m.enrollmentTokens.map fun t =>
      if t.id = tok.id then { t with uses := t.uses + 1 } else t }

def deviceName (req : RedeemRequest) : String :=
  if req.name ≠ "" then req.name
  else if req.hostname ≠ "" then req.hostname
  else "unnamed-device"

/-- `upsertDevice`: the device with this identity key, created if it is new. A device that exists
keeps its organisation and its name. -/
def upsertDevice (m : Tables) (tok : EnrollmentToken) (req : RedeemRequest) :
    Except Refusal (Tables × Device) :=
  match m.devices.find? (·.identityPublicKey = req.identityPublicKey) with
  | some d => if d.revokedAt = none then .ok (m, d) else .error .deviceRevoked
  | none =>
    let d : Device :=
      { id := m.nextId, organizationId := tok.organizationId, name := deviceName req,
        identityPublicKey := req.identityPublicKey }
    .ok ({ m with devices := m.devices ++ [d], nextId := m.nextId + 1 }, d)

structure ChosenAddress where
  poolId : Id
  family : Family
  addr : Addr
  deriving DecidableEq

/-- `byFamily`: the first address chosen of a family. -/
def byFamily (chosen : List ChosenAddress) (f : Family) : Option Addr :=
  (chosen.find? (·.family = f)).map ChosenAddress.addr

def pickFrom (now : Time) (m : Tables) (pool : AddressPool) : Except Ipam.Failure ChosenAddress := do
  let allocator ← Ipam.new { pool := pool.network }
  let entries := (m.addressAllocations.filter (·.poolId = pool.id)).map fun r =>
    { addr := r.address, releasedAt := r.releasedAt : Ipam.Entry }
  let allocator ← allocator.restore now entries
  let addr ← allocator.allocate now
  pure ⟨pool.id, pool.family, addr⟩

def pickOrRefuse (now : Time) (m : Tables) (pool : AddressPool) : Except Refusal ChosenAddress :=
  match pickFrom now m pool with
  | .ok c => .ok c
  | .error _ => .error (.address ("enroll: pool " ++ pool.network.text))

/-- `ListDeviceAddressPools`: IPv4 before IPv6. -/
def deviceAddressPools (m : Tables) (n : Id) : List AddressPool :=
  m.addressPools.filter (fun p => p.networkId = n ∧ p.family = .ipv4) ++
    m.addressPools.filter (fun p => p.networkId = n ∧ p.family = .ipv6)

/-- `pickAddresses`: one address from each of the network's pools. -/
def pickAddresses (now : Time) (m : Tables) (n : Id) : Except Refusal (List ChosenAddress) :=
  match deviceAddressPools m n with
  | [] => .error .noAddressPool
  | pools => pools.mapM (pickOrRefuse now m)

def firstFree (used : List String) : List String → Except Refusal String
  | [] => .error .labelsExhausted
  | c :: cs => if c ∈ used then firstFree used cs else .ok c

/-- `freeLabel`: the device's name as a label, with a number if that is taken, and its identifier if
nothing of the name survives. -/
def freeLabel (m : Tables) (n : Id) (d : Device) : Except Refusal String :=
  let base := if Dns.label d.name ≠ "" then Dns.label d.name
    else "device-" ++ String.ofList ((Nat.toDigits 16 (16 ^ 8 + d.id % 16 ^ 8)).drop 1)
  let used := ((m.memberships.filter (·.networkId = n)).map Membership.dnsLabel).filter
    fun l => base.toList.isPrefixOf l.toList
  firstFree used (base :: (List.range' 2 999).map (Dns.suffixed base))

/-- `CreateMembership`, with the table's constraints: a usable label, one membership per device and
network, one label per network. -/
def createMembership (m : Tables) (d : Device) (tok : EnrollmentToken)
    (chosen : List ChosenAddress) (label : String) : Except Refusal (Tables × Membership) :=
  if !Dns.validLabel label then .error (.constraint "device_network_memberships_dns_label_check")
  else if m.memberships.any fun x => x.deviceId = d.id ∧ x.networkId = tok.networkId then
    .error .alreadyInNetwork
  else if m.memberships.any fun x => x.networkId = tok.networkId ∧ x.dnsLabel = label then
    .error .labelTaken
  else
    let existing := (m.memberships.filter (·.deviceId = d.id)).length
    let x : Membership :=
      { id := m.nextId, deviceId := d.id, networkId := tok.networkId,
        interfaceName := "meshp" ++ toString existing,
        addressV4 := byFamily chosen .ipv4, addressV6 := byFamily chosen .ipv6,
        tags := tok.preassignedTags, dnsLabel := label }
    .ok ({ m with memberships := m.memberships ++ [x], nextId := m.nextId + 1 }, x)

/-- `recordAddresses`: one allocation per chosen address. An address is allocated once in a network.
-/
def recordAddresses (m : Tables) (n holder : Id) : List ChosenAddress → Except Refusal Tables
  | [] => .ok m
  | c :: cs =>
    if m.addressAllocations.any fun a => a.networkId = n ∧ a.address = c.addr then
      .error (.address ("enroll: recording allocation " ++ c.addr.text))
    else
      recordAddresses
        { m with addressAllocations := m.addressAllocations ++
            [{ poolId := c.poolId, networkId := n, address := c.addr, holderId := holder }] }
        n holder cs

/-- `CreateWireGuardKey`: a public key belongs to one membership. -/
def createWireGuardKey (m : Tables) (membership : Id) (key : Key) : Except Refusal Tables :=
  if m.wireguardKeys.any (·.publicKey = key) then .error .wireGuardKeyInUse
  else .ok { m with wireguardKeys := m.wireguardKeys ++
    [{ membershipId := membership, publicKey := key }] }

def join (c : Checks) (now : Time) (m : Tables) (req : RedeemRequest) :
    Except Refusal (Tables × Membership) := do
  let (tok, key) ← authenticate c now m req
  let (m, d) ← upsertDevice (consumeToken m tok) tok req
  let chosen ← pickAddresses now m tok.networkId
  let label ← freeLabel m tok.networkId d
  let (m, x) ← createMembership m d tok chosen label
  let m ← recordAddresses m tok.networkId x.id chosen
  let m ← createWireGuardKey m x.id key
  pure (m, x)

/-- `Redeem`: exchange a token and a proof of possession for a membership. -/
def redeem (c : Checks) (now : Time) (m : Mesh) (req : RedeemRequest) : Except Refusal Mesh := do
  let (t, x) ← join c now m.toTables req
  let m ← bumpVersion now { m with toTables := t } x.networkId [peerUpserted x.id]
  bumpRoutes now m (otherNetworksForDevice m.toTables x.deviceId x.networkId)

variable {c : Checks} {m m' : Tables} {now : Time} {req : RedeemRequest} {tok : EnrollmentToken}
  {chosen : List ChosenAddress}

theorem authenticate_ok {key : Key} (h : authenticate c now m req = .ok (tok, key)) :
    tok ∈ m.enrollmentTokens ∧ c.hashToken req.token = .ok tok.tokenHash ∧ key ≠ "" := by
  unfold authenticate at h
  split at h
  · cases h
  rename_i hash hhash
  split at h
  · cases h
  split at h
  · cases h
  rename_i key' hkey
  split at h
  · cases h
  split at h
  · cases h
  rename_i tok' hfind
  split at h
  · cases h
  split at h
  · simp only [Except.ok.injEq, Prod.mk.injEq] at h
    rcases h with ⟨rfl, rfl⟩
    obtain ⟨hmem, hmatch⟩ := Base.of_find? hfind
    exact ⟨hmem, by rw [hhash, hmatch], Keys.keyText_ne_empty hkey⟩
  · cases h

theorem upsertDevice_ok {d : Device} (h : upsertDevice m tok req = .ok (m', d)) :
    d.revokedAt = none ∧
      ((m' = m ∧ d ∈ m.devices ∧ d.identityPublicKey = req.identityPublicKey) ∨
        (m' = { m with devices := m.devices ++ [d], nextId := m.nextId + 1 } ∧
          d.id = m.nextId ∧ d.organizationId = tok.organizationId)) := by
  unfold upsertDevice at h
  cases hfind : m.devices.find? (·.identityPublicKey = req.identityPublicKey) with
  | some d' =>
    rw [hfind] at h
    by_cases hr : d'.revokedAt = none
    · simp only [if_pos hr, Except.ok.injEq, Prod.mk.injEq] at h
      rcases h with ⟨rfl, rfl⟩
      exact ⟨hr, .inl ⟨rfl, Base.of_find? hfind⟩⟩
    · simp only [if_neg hr, reduceCtorEq] at h
  | none =>
    rw [hfind] at h
    simp only [Except.ok.injEq, Prod.mk.injEq] at h
    rcases h with ⟨rfl, rfl⟩
    exact ⟨rfl, .inr ⟨rfl, rfl, rfl⟩⟩

theorem pickAddresses_ne_nil {n : Id} (h : pickAddresses now m n = .ok chosen) : chosen ≠ [] := by
  unfold pickAddresses at h
  cases hp : deviceAddressPools m n with
  | nil =>
    rw [hp] at h
    cases h
  | cons p ps =>
    rw [hp] at h
    exact fun hnil => List.cons_ne_nil p ps ((Base.mapM_eq_nil_iff h).1 hnil)

theorem createMembership_ok {d : Device} {label : String} {x : Membership}
    (h : createMembership m d tok chosen label = .ok (m', x)) :
    m' = { m with memberships := m.memberships ++ [x], nextId := m.nextId + 1 } ∧
      x.id = m.nextId ∧ x.deviceId = d.id ∧ x.networkId = tok.networkId ∧
      x.tags = tok.preassignedTags ∧ x.state = .active ∧
      x.addressV4 = byFamily chosen .ipv4 ∧ x.addressV6 = byFamily chosen .ipv6 ∧
      ∀ y ∈ m.memberships, y.deviceId = d.id → y.networkId ≠ tok.networkId := by
  unfold createMembership at h
  split at h
  · cases h
  split at h
  · cases h
  rename_i hdev
  split at h
  · cases h
  simp only [Except.ok.injEq, Prod.mk.injEq] at h
  rcases h with ⟨rfl, rfl⟩
  refine ⟨rfl, rfl, rfl, rfl, rfl, rfl, rfl, rfl, fun y hy hd hn => hdev ?_⟩
  exact List.any_eq_true.2 ⟨y, hy, by simp only [hd, hn, and_self, decide_true]⟩

def allocationRows (n holder : Id) (chosen : List ChosenAddress) : List AddressAllocation :=
  chosen.map fun c => { poolId := c.poolId, networkId := n, address := c.addr, holderId := holder }

theorem recordAddresses_ok {n holder : Id} (h : recordAddresses m n holder chosen = .ok m') :
    m' = { m with
        addressAllocations := m.addressAllocations ++ allocationRows n holder chosen } ∧
      ((m.addressAllocations.map fun a => (a.networkId, a.address)).Nodup →
        (m'.addressAllocations.map fun a => (a.networkId, a.address)).Nodup) := by
  induction chosen generalizing m with
  | nil =>
    simp only [recordAddresses, Except.ok.injEq] at h
    subst h
    simp only [allocationRows, List.map_nil, List.append_nil, true_and]
    exact fun hn => hn
  | cons c cs ih =>
    simp only [recordAddresses] at h
    split at h
    · cases h
    · rename_i hfree
      rcases ih h with ⟨rfl, hnodup⟩
      refine ⟨?_, fun hn => hnodup ?_⟩
      · simp only [allocationRows, List.map_cons, List.append_assoc, List.singleton_append]
      · -- The new row's address was not yet allocated in this network.
        rw [List.map_append, List.nodup_append]
        refine ⟨hn, List.nodup_singleton _, fun a ha b hb hab => hfree ?_⟩
        rcases List.mem_map.1 ha with ⟨row, hrow, rfl⟩
        simp only [List.map_cons, List.map_nil, List.mem_singleton] at hb
        subst hb
        simp only [Prod.mk.injEq] at hab
        exact List.any_eq_true.2 ⟨row, hrow, by simp only [hab, and_self, decide_true]⟩

theorem createWireGuardKey_ok {membership : Id} {key : Key}
    (h : createWireGuardKey m membership key = .ok m') :
    m' = { m with wireguardKeys := m.wireguardKeys ++
        [{ membershipId := membership, publicKey := key }] } ∧
      ∀ k ∈ m.wireguardKeys, k.publicKey ≠ key := by
  unfold createWireGuardKey at h
  split at h
  · cases h
  · rename_i hfree
    simp only [Except.ok.injEq] at h
    refine ⟨h.symm, fun k hk heq => hfree ?_⟩
    exact List.any_eq_true.2 ⟨k, hk, by simp only [heq, decide_true]⟩

/-- What a redemption writes: `x` is the membership it creates, held by `d` under `key`. -/
structure Joined (t t' : Tables) (x : Membership) (d : Device) (key : Key) : Prop where
  memberships : t'.memberships = t.memberships ++ [x]
  keys : t'.wireguardKeys =
    t.wireguardKeys ++ [{ membershipId := x.id, publicKey := key }]
  devices : (t'.devices = t.devices ∧ d ∈ t.devices) ∨
    (t'.devices = t.devices ++ [d] ∧ d.id = t.nextId ∧ t.nextId < x.id)
  fresh : t.nextId ≤ x.id ∧ x.id < t'.nextId
  active : x.state = .active
  deviceId : x.deviceId = d.id
  unrevoked : d.revokedAt = none
  notMember : ∀ y ∈ t.memberships, y.deviceId = d.id → y.networkId ≠ x.networkId
  keyNew : ∀ k ∈ t.wireguardKeys, k.publicKey ≠ key
  keyText : key ≠ ""
  addressed : x.addressV4 ≠ none ∨ x.addressV6 ≠ none
  allocated : ∃ chosen, t'.addressAllocations =
      t.addressAllocations ++ allocationRows x.networkId x.id chosen ∧
    (x.addressV4 = byFamily chosen .ipv4 ∧ x.addressV6 = byFamily chosen .ipv6)
  allocatedOnce : (t.addressAllocations.map fun a => (a.networkId, a.address)).Nodup →
    (t'.addressAllocations.map fun a => (a.networkId, a.address)).Nodup
  rest : t' = { t with
    memberships := t'.memberships
    wireguardKeys := t'.wireguardKeys
    devices := t'.devices
    enrollmentTokens := t'.enrollmentTokens
    addressAllocations := t'.addressAllocations
    nextId := t'.nextId }

theorem byFamily_ne_none (h : chosen ≠ []) :
    byFamily chosen .ipv4 ≠ none ∨ byFamily chosen .ipv6 ≠ none := by
  rcases List.exists_mem_of_ne_nil chosen h with ⟨c, hc⟩
  have hsome : ∀ f, c.family = f → byFamily chosen f ≠ none := by
    intro f hf hnone
    unfold byFamily at hnone
    rw [Option.map_eq_none_iff, List.find?_eq_none] at hnone
    exact hnone c hc (by simp only [hf, decide_true])
  cases hf : c.family with
  | ipv4 => exact .inl (hsome _ hf)
  | ipv6 => exact .inr (hsome _ hf)

theorem join_ok {t t' : Tables} {x : Membership} (h : join c now t req = .ok (t', x)) :
    ∃ d key tok, Joined t t' x d key ∧ (tok ∈ t.enrollmentTokens ∧
        c.hashToken req.token = .ok tok.tokenHash ∧
        x.networkId = tok.networkId ∧ x.tags = tok.preassignedTags) ∧
      (t'.enrollmentTokens = (consumeToken t tok).enrollmentTokens ∧
        (d ∈ t.devices ∧ d.identityPublicKey = req.identityPublicKey ∨
          d.organizationId = tok.organizationId)) ∧
      ∃ chosen, pickAddresses now t x.networkId = .ok chosen ∧ t'.addressAllocations =
        t.addressAllocations ++ allocationRows x.networkId x.id chosen := by
  unfold join at h
  rcases bind_eq_ok.1 h with ⟨⟨tok, key⟩, hauth, h⟩
  rcases bind_eq_ok.1 h with ⟨⟨t₁, d⟩, hdev, h⟩
  rcases bind_eq_ok.1 h with ⟨chosen, hpick, h⟩
  rcases bind_eq_ok.1 h with ⟨label, _, h⟩
  rcases bind_eq_ok.1 h with ⟨⟨t₂, x'⟩, hmem, h⟩
  rcases bind_eq_ok.1 h with ⟨t₃, haddr, h⟩
  rcases bind_eq_ok.1 h with ⟨t₄, hkey, h⟩
  cases h
  rcases authenticate_ok hauth with ⟨htok, hhash, hkeyText⟩
  rcases upsertDevice_ok hdev with ⟨hunrevoked, hdevices⟩
  rcases createMembership_ok hmem with ⟨rfl, hid, hdid, hnet, htags, hact, hv4, hv6, hnot⟩
  rcases recordAddresses_ok haddr with ⟨rfl, honce⟩
  rcases createWireGuardKey_ok hkey with ⟨rfl, hnew⟩
  have haddressed := byFamily_ne_none (pickAddresses_ne_nil hpick)
  rw [← hv4, ← hv6] at haddressed
  -- Whether the device was there or is new, only the devices and the next identifier differ.
  obtain ⟨devs, next, rfl, hle, hdevs, horg⟩ : ∃ devs next,
      t₁ = { consumeToken t tok with devices := devs, nextId := next } ∧ t.nextId ≤ next ∧
      ((devs = t.devices ∧ d ∈ t.devices) ∨
        (devs = t.devices ++ [d] ∧ d.id = t.nextId ∧ t.nextId < next)) ∧
      (d ∈ t.devices ∧ d.identityPublicKey = req.identityPublicKey ∨
        d.organizationId = tok.organizationId) := by
    rcases hdevices with ⟨rfl, hold⟩ | ⟨rfl, hnewId, horg⟩
    · exact ⟨_, _, rfl, Nat.le_refl _, .inl ⟨rfl, hold.1⟩, .inl hold⟩
    · exact ⟨_, _, rfl, Nat.le_succ _, .inr ⟨rfl, hnewId, Nat.lt_succ_self _⟩, .inr horg⟩
  exact ⟨d, key, tok,
    { memberships := rfl, keys := rfl, devices := by rw [hid]; exact hdevs
      fresh := by rw [hid]; exact ⟨hle, Nat.lt_succ_self _⟩
      active := hact, deviceId := hdid, unrevoked := hunrevoked
      notMember := by rw [hnet]; exact hnot
      keyNew := hnew, keyText := hkeyText, addressed := haddressed
      allocated := ⟨chosen, by rw [hnet]; rfl, hv4, hv6⟩
      allocatedOnce := honce, rest := rfl }, ⟨htok, hhash, hnet, htags⟩, ⟨rfl, horg⟩, chosen,
    hnet ▸ hpick, hnet ▸ rfl⟩

def joinBumps (t : Tables) (x : Membership) : List (Id × List ChangeKind) :=
  (x.networkId, [.peerUpsert x.id]) ::
    (otherNetworksForDevice t x.deviceId x.networkId).map fun n => (n, [.routes])

theorem redeem_ok {m m' : Mesh} (h : redeem c now m req = .ok m') :
    ∃ t x, join c now m.toTables req = .ok (t, x) ∧
      m' = Mesh.recordAll now { m with toTables := t } (joinBumps t x) ∧
      ∀ b ∈ joinBumps t x, (m.network? b.1).isSome := by
  unfold redeem at h
  rcases bind_eq_ok.1 h with ⟨⟨t, x⟩, hjoin, h⟩
  rcases bind_eq_ok.1 h with ⟨m₁, hbump, hroutes⟩
  rcases bumpVersion_ok [.peerUpsert x.id] rfl hbump with ⟨rfl, hnet⟩
  rcases bumpRoutes_ok hroutes with ⟨rfl, hnets⟩
  refine ⟨t, x, hjoin, rfl, fun b hb => ?_⟩
  rcases List.mem_cons.1 hb with rfl | hb
  · exact hnet
  · rcases List.mem_map.1 hb with ⟨n, hn, rfl⟩
    have h₁ := hnets n hn
    rw [Mesh.isSome_network?_recordAll] at h₁
    exact h₁

end Meshp.Enroll
