import Meshp.Session.Onward

/-!
# Every Answer Mends

What a build sends while mutations go on committing between its reads. The label
is the head as it was first read; everything else may be newer, and some of it
newer than the rest. The peers under a key it speaks of are as they were when
they were read, the keys it leaves out are those its window did not name, and in
both cases whatever happened since is in the log above the label. So the answer
mends any table that is behind by no more than the version it starts from.
-/

namespace Meshp.Session

open Base (Mends Statements)
open Base.Statements (Ensures ensures_pure ensures_query)
open Store

section Good

variable (b : Builder) (n me : Id) (start : Nat)

/-- The network has stood at version `v`, and its log explains what came of its rows since. -/
def Stands (m : Mesh) (v : Nat) : Prop :=
  start ≤ v ∧ v ≤ m.version n ∧ ∃ m₁, PeersExplained m₁ m n v

def wrongBefore (m : Mesh) (d : Wire.StateDelta) (k : Key) : Prop :=
  if d.fromVersion = 0 then (peerTable b m.toTables n me).lookup k ≠ none
  else Touched m n me d.fromVersion k

/-- An answer labelled with a version the network has stood at, that mends whatever is behind by the
version it starts from. -/
structure Good (m : Mesh) (d : Wire.StateDelta) : Prop where
  stands : Stands n start m d.toVersion
  from_ : d.fromVersion = 0 ∨ Stands n start m d.fromVersion
  mends : Mends Wire.Peer.publicKey (peerTable b m.toTables n me) (wrongBefore b n me m d)
    (Touched m n me d.toVersion) d.removePeerKeys d.upsertPeers

variable {b n me start}

variable {m m' m₅ : Mesh} {F head : Nat}

theorem stands_version (h : Live n me start m) : Stands n start m (m.version n) :=
  ⟨h.start, Nat.le_refl _, m, .refl fun _ => not_logged_version h.inv.logBounded n _⟩

theorem Stands.onward {v : Nat} (h : Stands n start m v) (ho : Onward b n me start m m') :
    Stands n start m' v := by
  rcases h with ⟨hlo, hhi, m₁, hex⟩
  exact ⟨hlo, Nat.le_trans hhi ho.version, m₁, ho.explained v hlo hhi m₁ hex⟩

theorem Good.onward {d : Wire.StateDelta} (h : Good b n me start m d)
    (ho : Onward b n me start m m') : Good b n me start m' d := by
  rcases h.stands with ⟨hlo, hhi, _⟩
  refine ⟨h.stands.onward ho, h.from_.imp_right fun hs => hs.onward ho,
    h.mends.step (ho.moved _ hlo hhi) (ho.kept _ hlo hhi) fun k hk => ?_⟩
  unfold wrongBefore at hk ⊢
  by_cases hsnap : d.fromVersion = 0
  · rw [if_pos hsnap] at hk ⊢
    rcases ho.moved _ hlo hhi k with hsame | ht
    · rw [hsame] at hk
      exact .inl hk
    · exact .inr ht
  · rw [if_neg hsnap] at hk ⊢
    have hfrom := h.from_.resolve_left hsnap
    exact ho.fresh _ _ hfrom.1 hlo hhi k hk

theorem good_snapshot {d : Wire.StateDelta} (hlive : Live n me start m)
    (hstands : Stands n start m d.toVersion) (hfrom : d.fromVersion = 0)
    (hremoves : d.removePeerKeys = [])
    (hupserts : d.upsertPeers = (peersOf m.toTables n me).map (peerFrom b.relayConfig)) :
    Good b n me start m d := by
  refine ⟨hstands, .inl hfrom, ⟨fun p hp => .inl ?_, fun k hk => ?_, fun k _ hvs hk => ?_⟩⟩
  · rw [hupserts] at hp
    rcases List.mem_map.1 hp with ⟨r, hr, rfl⟩
    exact (lookup_peerTable hlive.inv).2 ⟨r, hr, rfl, rfl⟩
  · rw [hremoves] at hk
    cases hk
  · -- Every key that has a peer is written.
    unfold wrongBefore at hk
    rw [if_pos hfrom] at hk
    rcases Option.ne_none_iff_exists'.1 hk with ⟨p, hp⟩
    rcases (lookup_peerTable hlive.inv).1 hp with ⟨r, hr, hrk, rfl⟩
    refine absurd hrk (hvs (peerFrom b.relayConfig r) ?_)
    rw [hupserts]
    exact List.mem_map_of_mem hr

theorem good_silent {relays : Option Wire.RelayConfig} (hF : F ≠ 0)
    (hstands : Stands n start m head) (hfrom : Stands n start m F)
    (hnone : ∀ k, Touched m n me F k → Touched m n me head k) :
    Good b n me start m { fromVersion := F, toVersion := head, relays } := by
  refine ⟨hstands, .inr hfrom, ⟨nofun,
    nofun, fun k _ _ hk => ?_⟩⟩
  unfold wrongBefore at hk
  rw [if_neg hF] at hk
  exact hnone k hk

theorem logged_of_mem_changesSince {k : ChangeKind} (h : k ∈ changesSince m n F head) :
    m.Logged n F k := by
  rcases List.mem_map.1 h with ⟨r, hr, rfl⟩
  rcases List.mem_filter.1 hr with ⟨hmem, hp⟩
  rw [decide_eq_true_eq] at hp
  exact ⟨r, hmem, hp.1, hp.2.1, rfl⟩

theorem logged_window {k : ChangeKind} (h : m.Logged n F k) (head : Nat) :
    k ∈ changesSince m n F head ∨ m.Logged n head k := by
  rcases h with ⟨r, hr, hn, hv, rfl⟩
  by_cases hle : r.version ≤ head
  · refine .inl (List.mem_map_of_mem (List.mem_filter.2 ⟨hr, ?_⟩))
    rw [decide_eq_true_eq]
    exact ⟨hn, hv, hle⟩
  · exact .inr ⟨r, hr, hn, by omega, rfl⟩

/-- What is known, in mesh `m`, of the answer to one of the lookups of a delta whose changes were
read in `m₅` under the label `head`: a peer that was found is right, and a peer that was there has
been found, unless it is touched above the label. -/
def FoundIn (b : Builder) (n me : Id) (head : Nat) (m₅ : Mesh) (id : Id) (found : Option LiveRow)
    (m : Mesh) : Prop :=
  (∀ r, found = some r →
    (peerTable b m.toTables n me).lookup r.key.publicKey = some (peerFrom b.relayConfig r) ∨
      Touched m n me head r.key.publicKey) ∧
  ∀ r ∈ peersOf m₅.toTables n me, r.membership.id = id →
    found = some r ∨ Touched m n me head r.key.publicKey

theorem FoundIn.onward {id : Id} {found : Option LiveRow} (h : FoundIn b n me head m₅ id found m)
    (ho : Onward b n me start m m') (hlo : start ≤ head) (hhi : head ≤ m.version n) :
    FoundIn b n me head m₅ id found m' := by
  refine ⟨fun r hr => ?_, fun r hr hid => ?_⟩
  · rcases h.1 r hr with hright | ht
    · rcases ho.moved head hlo hhi r.key.publicKey with hsame | ht
      · exact .inl (hsame.trans hright)
      · exact .inr ht
    · exact .inr (ho.kept head hlo hhi _ ht)
  · exact (h.2 r hr hid).imp_right (ho.kept head hlo hhi _)

theorem foundIn_peerOf {id : Id} (hlive : Live n me start m₅) (ho : Onward b n me start m₅ m)
    (hlo : start ≤ head) (hhi : head ≤ m₅.version n)
    (hid : id ∈ upsertedIds me (changesSince m₅ n F head)) :
    FoundIn b n me head m₅ id (peerOf m.toTables id) m := by
  rcases mem_upsertedIds.1 hid with ⟨hlog, hne⟩
  rcases hlive.inv.upserts n F id (logged_of_mem_changesSince hlog) with ⟨x, hx, rfl, hxn⟩
  refine ⟨fun r hr => .inl ?_, fun r hr hrid => ?_⟩
  · rcases (peerOf_eq_some ho.live.inv.members).1 hr with ⟨hrow, hrid⟩
    have hmem := (mem_liveRows.1 hrow).1
    have hbelow := hlive.inv.members.memberBelow x hx
    rcases ho.old r.membership hmem (by rw [hrid]; exact hbelow) with ⟨y, hy, hyid, hyn⟩
    rw [hlive.inv.member_eq hy hx (hyid.trans hrid)] at hyn
    refine (lookup_peerTable ho.live.inv).2 ⟨r, mem_peersOf.2 ⟨?_, ?_⟩, rfl, rfl⟩
    · exact mem_netRows.2 ⟨hrow, hyn.symm.trans hxn⟩
    · rw [hrid]
      exact hne
  · rcases ho.stays head hlo hhi r hr with hstill | ht
    · refine .inl ((peerOf_eq_some ho.live.inv.members).2 ⟨?_, hrid⟩)
      exact (mem_netRows.1 (mem_peersOf.1 hstill).1).1
    · exact .inr ht

/-- The rows behind a delta's upserts, and what they say about a window whose changes were read in
`m₅`: a peer that was there and is named is among them, and each of them is right. -/
structure Gathered (b : Builder) (n me : Id) (F head : Nat) (m₅ m : Mesh) (rows : List LiveRow) :
    Prop where
  all : ∀ r ∈ peersOf m₅.toTables n me, .peerUpsert r.membership.id ∈ changesSince m₅ n F head →
    r ∈ rows ∨ Touched m n me head r.key.publicKey
  right : ∀ r ∈ rows,
    (peerTable b m.toTables n me).lookup r.key.publicKey = some (peerFrom b.relayConfig r) ∨
      Touched m n me head r.key.publicKey

theorem gathered_of_found {ids : List Id} {founds : List (Option LiveRow)}
    (hids : ∀ id ∈ upsertedIds me (changesSince m₅ n F head), id ∈ ids)
    (hall : ∀ id ∈ ids, ∃ found ∈ founds, FoundIn b n me head m₅ id found m)
    (hback : ∀ found ∈ founds, ∃ id ∈ ids, FoundIn b n me head m₅ id found m) :
    Gathered b n me F head m₅ m founds.reduceOption where
  all := fun r hr hlog => by
    have hid := hids _ (mem_upsertedIds.2 ⟨hlog, (mem_peersOf.1 hr).2⟩)
    rcases hall _ hid with ⟨found, hmem, hfound⟩
    rcases hfound.2 r hr rfl with rfl | ht
    · exact .inl (List.reduceOption_mem_iff.2 hmem)
    · exact .inr ht
  right := fun r hr => by
    rcases hback _ (List.reduceOption_mem_iff.1 hr) with ⟨id, _, hfound⟩
    exact hfound.1 r rfl

theorem mends_window {rows : List LiveRow} {ks : List Key} {vs : List Wire.Peer}
    (hlive : Live n me start m₅) (ho : Onward b n me start m₅ m) (hfrom : Stands n start m₅ F)
    (hstands : Stands n start m₅ head) (hrows : Gathered b n me F head m₅ m rows)
    (hvs : ∀ p, p ∈ vs ↔ ∃ r ∈ rows, peerFrom b.relayConfig r = p)
    (hks : ∀ k, k ∈ ks ↔ .peerRemove k ∈ changesSince m₅ n F head ∧ ∀ r ∈ rows, r.key.publicKey ≠ k) :
    Mends Wire.Peer.publicKey (peerTable b m.toTables n me) (Touched m n me F)
      (Touched m n me head) ks vs := by
  have hlift : ∀ k, Touched m₅ n me head k → Touched m n me head k :=
    ho.kept head hstands.1 hstands.2.1
  -- A key that is not written was not the key of any gathered row.
  have hunwritten : ∀ k, (∀ p ∈ vs, p.publicKey ≠ k) → ∀ r ∈ rows, r.key.publicKey ≠ k :=
    fun k hno r hr => hno (peerFrom b.relayConfig r) ((hvs _).2 ⟨r, hr, rfl⟩)
  -- A peer there when the changes were read, named since the start, under a key
  -- that is not written, has been touched above the label.
  have hnamed : ∀ r ∈ peersOf m₅.toTables n me, m₅.Logged n F (.peerUpsert r.membership.id) →
      (∀ p ∈ vs, p.publicKey ≠ r.key.publicKey) → Touched m n me head r.key.publicKey := by
    intro r hr hlog hno
    rcases logged_window hlog head with hmem | hlater
    · rcases hrows.all r hr hmem with hin | ht
      · exact absurd rfl (hunwritten _ hno r hin)
      · exact ht
    · exact hlift _ (.inr ⟨r, hr, rfl, hlater⟩)
  refine ⟨fun p hp => ?_, fun k hk hno => ?_, fun k hk hno hwrong => ?_⟩
  · rcases (hvs p).1 hp with ⟨r, hr, rfl⟩
    exact hrows.right r hr
  · -- Removed, and not written. If somebody has the key, they had it when the
    -- changes were read, and a key in use again has been upserted since.
    rcases ho.moved head hstands.1 hstands.2.1 k with hsame | ht
    · cases hlook : (peerTable b m.toTables n me).lookup k with
      | none => exact .inl rfl
      | some p =>
        rw [hsame] at hlook
        rcases (lookup_peerTable hlive.inv).1 hlook with ⟨r, hr, rfl, _⟩
        rcases hfrom.2.2 with ⟨m₁, hex⟩
        have hrem := logged_of_mem_changesSince ((hks _).1 hk).1
        exact .inr (hnamed r hr (hex.readded r (mem_peersOf.1 hr).1 hrem) hno)
    · exact .inr ht
  · -- Not mentioned at all: what touched it since the start is above the label.
    rcases ho.fresh F head hfrom.1 hstands.1 hstands.2.1 k hwrong with hbefore | ht
    · rcases hbefore with hrem | ⟨r, hr, rfl, hlog⟩
      · rcases logged_window hrem head with hmem | hlater
        · exact absurd ((hks k).2 ⟨hmem, hunwritten k hno⟩) hk
        · exact hlift k (.inl hlater)
      · exact hnamed r hr hlog hno
    · exact ht

theorem good_window {row : SessionRow} {rows : List LiveRow} {dns : Wire.DnsConfig}
    {routes : RouteAnswer} {filter : Option Wire.PacketFilter} (hlive : Live n me start m₅)
    (ho : Onward b n me start m₅ m) (hF : F ≠ 0) (hfrom : Stands n start m₅ F)
    (hstands : Stands n start m₅ row.network.stateVersion)
    (hrows : Gathered b n me F row.network.stateVersion m₅ m rows) :
    Good b n me start m (deltaFrom b.relayConfig row F
      (changesSince m₅ n F row.network.stateVersion) dns rows routes filter) := by
  refine ⟨hstands.onward ho, .inr (hfrom.onward ho), ?_⟩
  have hwrong : wrongBefore b n me m (deltaFrom b.relayConfig row F
      (changesSince m₅ n F row.network.stateVersion) dns rows routes filter) =
        Touched m n me F := by
    funext k
    exact if_neg hF
  rw [hwrong]
  change Mends _ _ _ (Touched m n me row.network.stateVersion) _ _
  refine mends_window hlive ho hfrom hstands hrows (fun p => ?_) fun k => ?_
  · change p ∈ (rows.map _).insertionSort _ ↔ _
    rw [List.mem_insertionSort, List.mem_map]
  · change k ∈ (List.filter _ (removedKeys _)).insertionSort _ ↔ _
    rw [List.mem_insertionSort, List.mem_filter, mem_removedKeys]
    simp

end Good

section Build

variable {b : Builder} {walk : Walk} {n me : Id} {start L : Nat} {m t : Mesh} {F : Nat}
  {row : SessionRow}

def rely (b : Builder) (n me : Id) (start : Nat) (_ : Nat) (m m' : Mesh) : Prop :=
  Live n me start m → Onward b n me start m m'

theorem rely_refl (i : Nat) (m : Mesh) : rely b n me start i m m := fun h => .refl h

theorem rely_trans (i : Nat) (m₁ m₂ m₃ : Mesh) (h : rely b n me start i m₁ m₂)
    (h' : rely b n me start i m₂ m₃) : rely b n me start i m₁ m₃ :=
  fun hlive => (h hlive).trans (h' (h hlive).live)

/-- What a build has to guarantee: an answer that is good, and not older than `L`. -/
def Sent (b : Builder) (n me : Id) (start L : Nat) (_ : Nat) (m : Mesh)
    (result : Except Failure Wire.StateDelta) : Prop :=
  ∀ d, result = .ok d → L ≤ d.toVersion ∧ Good b n me start m d

theorem ensures_send {i : Nat} {d : Wire.StateDelta} (hlive : Live n me start t)
    (hd : L ≤ d.toVersion ∧ Good b n me start t d) :
    Ensures (rely b n me start) (Sent b n me start L) i (pure (.ok d)) t := by
  refine ensures_pure fun t' ht d' hd' => ?_
  cases hd'
  exact ⟨hd.1, hd.2.onward (ht hlive)⟩

theorem ensures_aside {β : Type} {p : Statements Mesh β}
    {g : β → Statements Mesh (Except Failure Wire.StateDelta)} {i : Nat}
    (hlive : Live n me start t)
    (hrest : ∀ j u a, Onward b n me start t u →
      Ensures (rely b n me start) (Sent b n me start L) j (g a) u) :
    Ensures (rely b n me start) (Sent b n me start L) i (p >>= g) t :=
  Statements.ensures_any (fun _ u => Onward b n me start t u)
    (fun _ _ _ hu hrely => hu.trans (hrely hu.live)) (fun _ _ hu => hu) (.refl hlive) hrest

theorem ensures_snapshotReads_onward {i : Nat} (hlive : Live n me start t)
    (hL : L ≤ row.network.stateVersion) (hstands : Stands n start t row.network.stateVersion) :
    Ensures (rely b n me start) (Sent b n me start L) i
      (snapshotReads b row (peersOf t.toTables n me)) t := by
  refine ensures_aside hlive fun j₁ u₁ dns ho₁ => ?_
  refine ensures_aside ho₁.live fun j₂ u₂ filter ho₂ => ?_
  match filter with
  | .error e => exact ensures_pure fun _ _ d hd => by cases hd
  | .ok filter =>
    refine ensures_aside ho₂.live fun j₃ u₃ routes ho₃ => ensures_send ho₃.live ⟨hL, ?_⟩
    have hgood := good_snapshot (b := b) hlive (d :=
      { fromVersion := 0
        toVersion := row.network.stateVersion
        upsertPeers := (peersOf t.toTables n me).map (peerFrom b.relayConfig)
        tunnel := some (tunnelConfig b.relayConfig row)
        dns := some dns
        relays := b.relayConfig
        filter
        routeGroups := routes.assigned
        removedRouteGroupIds := routes.withdrawn
        advertised := routes.advertised }) hstands rfl rfl rfl
    exact hgood.onward (ho₁.trans (ho₂.trans ho₃))

theorem ensures_windowReads_onward {i : Nat} (hlive : Live n me start t) (hF : F ≠ 0)
    (hfrom : Stands n start t F) (hL : L ≤ row.network.stateVersion)
    (hstands : Stands n start t row.network.stateVersion) (hme : row.membership.id = me) :
    Ensures (rely b n me start) (Sent b n me start L) i
      (windowReads b walk row F (changesSince t n F row.network.stateVersion)) t := by
  subst hme
  refine ensures_aside hlive fun j₁ u₁ dns ho₁ => ?_
  -- Every peer the window names is looked up, each in a mesh of its own.
  refine Statements.ensures_each (fun _ u => Onward b n row.membership.id start t u)
    (FoundIn b n row.membership.id row.network.stateVersion t) ?_ (fun _ _ hu => hu) _ ?_ ho₁ ?_
  · intro j u u' hu hrely
    refine ⟨hu.trans (hrely hu.live), fun id found hfound => ?_⟩
    exact hfound.onward (hrely hu.live) hstands.1 (Nat.le_trans hstands.2.1 hu.version)
  · intro id hid j u hu
    exact foundIn_peerOf hlive hu hstands.1 hstands.2.1 ((walk.perm _).mem_iff.1 hid)
  intro j₂ u₂ founds ho₂ hall hback
  have hrows := gathered_of_found (fun id hid => (walk.perm _).mem_iff.2 hid) hall hback
  refine ensures_aside ho₂.live fun j₃ u₃ routes ho₃ => ?_
  refine ensures_aside ho₃.live fun j₄ u₄ filter ho₄ => ?_
  match filter with
  | .error e => exact ensures_pure fun _ _ d hd => by cases hd
  | .ok filter =>
    refine ensures_send ho₄.live ⟨hL, ?_⟩
    exact (good_window hlive ho₂ hF hfrom hstands hrows).onward (ho₃.trans ho₄)

theorem ensures_changeReads_onward {i : Nat} (hlive : Live n me start t) (hF : F ≠ 0)
    (hfrom : Stands n start t F) (hL : L ≤ row.network.stateVersion)
    (hstands : Stands n start t row.network.stateVersion) (hme : row.membership.id = me)
    (hn : row.membership.networkId = n) :
    Ensures (rely b n me start) (Sent b n me start L) i (changeReads b walk row F) t := by
  subst hme
  subst hn
  refine ensures_query fun t₁ h₁ => ?_
  have ho₁ := h₁ hlive
  split
  · rename_i hnone
    refine ensures_send ho₁.live ⟨hL, good_silent hF (hstands.onward ho₁) (hfrom.onward ho₁) ?_⟩
    -- With nothing in the window, what is above its start is above its end.
    have hnil := List.length_eq_zero_iff.1 hnone
    rintro k (hlog | ⟨r, hr, hk, hlog⟩)
    · rcases logged_window hlog row.network.stateVersion with hmem | hlater
      · rw [hnil] at hmem
        cases hmem
      · exact .inl hlater
    · rcases logged_window hlog row.network.stateVersion with hmem | hlater
      · rw [hnil] at hmem
        cases hmem
      · exact .inr ⟨r, hr, hk, hlater⟩
  · refine ensures_query fun t₂ h₂ => ?_
    have ho₂ := ho₁.trans (h₂ ho₁.live)
    split
    · exact ensures_snapshotReads_onward ho₂.live hL (hstands.onward ho₂)
    · refine ensures_query fun t₃ h₃ => ?_
      have ho₃ := ho₂.trans (h₃ ho₂.live)
      exact ensures_windowReads_onward ho₃.live hF (hfrom.onward ho₃) hL (hstands.onward ho₃) rfl

theorem ensures_forReads_onward (hlive : Live n me start m) (hF : F = 0 ∨ Stands n start m F) :
    Ensures (rely b n me start) (Sent b n me start (m.version n)) 0 (b.forReads walk me F) m := by
  refine ensures_query fun t₁ h₁ => ?_
  have ho₁ := h₁ hlive
  cases hrow : sessionRow t₁ me with
  | error e => exact ensures_pure fun _ _ d hd => by cases hd
  | ok row =>
    rcases sessionRow_ok hrow with ⟨hmem, hid, hver, _⟩
    have hn := ho₁.live.own row.membership hmem hid
    rw [hn] at hver
    have hL : m.version n ≤ row.network.stateVersion := by
      rw [hver]
      exact ho₁.version
    have hstands : Stands n start t₁ row.network.stateVersion := by
      rw [hver]
      exact stands_version ho₁.live
    refine ensures_query fun t₂ h₂ => ?_
    have ho₂ := h₂ ho₁.live
    have hstands₂ := hstands.onward ho₂
    unfold answerReads
    split
    · refine ensures_query fun t₃ h₃ => ?_
      have ho₃ := h₃ ho₂.live
      rw [hn, hid]
      exact ensures_snapshotReads_onward ho₃.live hL (hstands₂.onward ho₃)
    rename_i hwindow
    have hne : F ≠ 0 := fun h => hwindow (.inl h)
    have hfrom := ((hF.resolve_left hne).onward ho₁).onward ho₂
    split
    · rename_i hhead
      refine ensures_send ho₂.live ⟨hL, good_silent hne hstands₂ hfrom fun k hk => ?_⟩
      rwa [← hhead]
    · exact ensures_changeReads_onward ho₂.live hne hfrom hL hstands₂ hid hn

end Build

end Meshp.Session
