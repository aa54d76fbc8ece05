import Meshp.Store.Retention

/-!
# Who Is in the Mesh

The tables behind a membership hold together. Every membership has a device, one
key and an address; a key belongs to one membership and a public key to one key;
and nothing has an identifier that has not been handed out. `MemberInv` says so.
-/

namespace Meshp.Store

open Base (filter_filter_eq nodup_map_concat)
open List (inj_on_of_nodup_map)

structure MemberInv (t : Tables) : Prop where
  memberIds : (t.memberships.map Membership.id).Nodup
  memberBelow : ∀ x ∈ t.memberships, x.id < t.nextId
  memberDevice : ∀ x ∈ t.memberships, ∃ d ∈ t.devices, d.id = x.deviceId
  memberKey : ∀ x ∈ t.memberships, ∃ k ∈ t.wireguardKeys, k.membershipId = x.id
  memberAddress : ∀ x ∈ t.memberships, x.addressV4 ≠ none ∨ x.addressV6 ≠ none
  deviceIds : (t.devices.map Device.id).Nodup
  deviceBelow : ∀ d ∈ t.devices, d.id < t.nextId
  deviceUnrevoked : ∀ d ∈ t.devices, d.revokedAt = none
  keyMember : ∀ k ∈ t.wireguardKeys, ∃ x ∈ t.memberships, x.id = k.membershipId
  keyMembers : (t.wireguardKeys.map WireGuardKey.membershipId).Nodup
  publicKeys : (t.wireguardKeys.map WireGuardKey.publicKey).Nodup
  keyText : ∀ k ∈ t.wireguardKeys, k.publicKey ≠ ""
  keyCurrent : ∀ k ∈ t.wireguardKeys, k.state = .current

theorem mem_liveRowsOf {keys : List WireGuardKey} {devices : List Device} {x : Membership}
    {r : LiveRow} :
    r ∈ liveRowsOf keys devices x ↔
      r.membership = x ∧ x.state = .active ∧ (r.key ∈ keys ∧ r.key.membershipId = x.id ∧
        r.key.state = .current) ∧ r.device ∈ devices ∧ r.device.id = x.deviceId ∧
        r.device.revokedAt = none := by
  unfold liveRowsOf
  by_cases hact : x.state = .active
  · rw [if_pos hact]
    simp only [List.mem_flatMap, List.mem_filter, List.mem_map, decide_eq_true_eq]
    constructor
    · rintro ⟨k, ⟨hk, hkx⟩, d, ⟨hd, hdx⟩, rfl⟩
      exact ⟨rfl, hact, ⟨hk, hkx⟩, hd, hdx⟩
    · rintro ⟨rfl, _, ⟨hk, hkx⟩, hd, hdx⟩
      exact ⟨r.key, ⟨hk, hkx⟩, r.device, ⟨hd, hdx⟩, rfl⟩
  · rw [if_neg hact]
    constructor
    · intro h
      cases h
    · rintro ⟨_, h, _⟩
      exact absurd h hact

theorem mem_liveRows {t : Tables} {r : LiveRow} :
    r ∈ liveRows t ↔
      r.membership ∈ t.memberships ∧ r.membership.state = .active ∧
        (r.key ∈ t.wireguardKeys ∧ r.key.membershipId = r.membership.id ∧
          r.key.state = .current) ∧
        r.device ∈ t.devices ∧ r.device.id = r.membership.deviceId ∧ r.device.revokedAt = none := by
  unfold liveRows
  rw [List.mem_flatMap]
  constructor
  · rintro ⟨x, hx, hr⟩
    rcases mem_liveRowsOf.1 hr with ⟨rfl, h⟩
    exact ⟨hx, h⟩
  · rintro ⟨hx, h⟩
    exact ⟨r.membership, hx, mem_liveRowsOf.2 ⟨rfl, h⟩⟩

namespace MemberInv

variable {t : Tables}

theorem eq_of_id (h : MemberInv t) {r r' : LiveRow} (hr : r ∈ liveRows t) (hr' : r' ∈ liveRows t)
    (hid : r'.membership.id = r.membership.id) : r' = r := by
  rcases mem_liveRows.1 hr with ⟨hx, _, ⟨hk, hkx, _⟩, hd, hdx, _⟩
  rcases mem_liveRows.1 hr' with ⟨hx', _, ⟨hk', hkx', _⟩, hd', hdx', _⟩
  have hxx : r'.membership = r.membership := inj_on_of_nodup_map h.memberIds hx' hx hid
  have hkk : r'.key = r.key :=
    inj_on_of_nodup_map h.keyMembers hk' hk (by rw [hkx', hkx, hid])
  have hdd : r'.device = r.device :=
    inj_on_of_nodup_map h.deviceIds hd' hd (by rw [hdx', hdx, hxx])
  cases r
  cases r'
  simp only at hxx hkk hdd
  rw [hxx, hkk, hdd]

theorem eq_of_key (h : MemberInv t) {r r' : LiveRow} (hr : r ∈ liveRows t) (hr' : r' ∈ liveRows t)
    (hkey : r'.key.publicKey = r.key.publicKey) : r' = r := by
  rcases mem_liveRows.1 hr with ⟨_, _, ⟨hk, hkx, _⟩, _⟩
  rcases mem_liveRows.1 hr' with ⟨_, _, ⟨hk', hkx', _⟩, _⟩
  have hkk : r'.key = r.key := inj_on_of_nodup_map h.publicKeys hk' hk hkey
  exact h.eq_of_id hr hr' (by rw [← hkx', ← hkx, hkk])

theorem currentKey_eq (h : MemberInv t) {k : WireGuardKey} (hk : k ∈ t.wireguardKeys) :
    currentKey t k.membershipId = some k.publicKey := by
  unfold currentKey
  cases hfind : t.wireguardKeys.find? fun k' =>
      k'.membershipId = k.membershipId ∧ k'.state = .current with
  | none =>
    have hnone := List.find?_eq_none.1 hfind k hk
    simp only [h.keyCurrent k hk, and_self, decide_true, not_true_eq_false] at hnone
  | some k' =>
    obtain ⟨hk', hid, _⟩ := Base.of_find? hfind
    have hkk := inj_on_of_nodup_map h.keyMembers hk' hk hid
    rw [Option.map_some, hkk]

theorem exists_liveRow (h : MemberInv t) {x : Membership} (hx : x ∈ t.memberships)
    (hact : x.state = .active) : ∃ r ∈ liveRows t, r.membership = x := by
  rcases h.memberKey x hx with ⟨k, hk, hkx⟩
  rcases h.memberDevice x hx with ⟨d, hd, hdx⟩
  exact ⟨⟨x, k, d⟩, mem_liveRows.2
    ⟨hx, hact, ⟨hk, hkx, h.keyCurrent k hk⟩, hd, hdx, h.deviceUnrevoked d hd⟩, rfl⟩

end MemberInv

theorem liveRows_of_kept {t t' : Tables} (h : MembersKept t t') : liveRows t' = liveRows t := by
  unfold liveRows
  rw [h.memberships, h.keys, h.devices]

theorem filter_liveRowsOf (keys : List WireGuardKey) (devices : List Device) (x : Membership)
    (p : Membership → Bool) :
    (liveRowsOf keys devices x).filter (fun r => p r.membership) =
      if p x then liveRowsOf keys devices x else [] := by
  split
  · rename_i hp
    rw [List.filter_eq_self]
    intro r hr
    rw [(mem_liveRowsOf.1 hr).1]
    exact hp
  · rename_i hp
    rw [List.filter_eq_nil_iff]
    intro r hr
    rw [(mem_liveRowsOf.1 hr).1]
    exact hp

theorem filter_liveRows (t : Tables) (p : Membership → Bool) :
    (liveRows t).filter (fun r => p r.membership) =
      (t.memberships.filter p).flatMap (liveRowsOf t.wireguardKeys t.devices) := by
  unfold liveRows
  induction t.memberships with
  | nil => rfl
  | cons x xs ih =>
    rw [List.flatMap_cons, List.filter_append, ih, filter_liveRowsOf, List.filter_cons]
    split
    · rw [List.flatMap_cons]
    · rw [List.nil_append]

theorem liveRowsOf_congr {keys keys' : List WireGuardKey} {devices devices' : List Device}
    {x : Membership}
    (hk : (keys'.filter fun k => k.membershipId = x.id ∧ k.state = .current) =
      keys.filter fun k => k.membershipId = x.id ∧ k.state = .current)
    (hd : (devices'.filter fun d => d.id = x.deviceId ∧ d.revokedAt = none) =
      devices.filter fun d => d.id = x.deviceId ∧ d.revokedAt = none) :
    liveRowsOf keys' devices' x = liveRowsOf keys devices x := by
  unfold liveRowsOf
  rw [hk, hd]

section Moves

variable {t t' : Tables}

theorem liveRows_joined {x : Membership} {d : Device} {key : Key} (hinv : MemberInv t)
    (hj : Enroll.Joined t t' x d key) :
    liveRows t' = liveRows t ++ [⟨x, { membershipId := x.id, publicKey := key }, d⟩] := by
  have hold : ∀ y ∈ t.memberships, y.id ≠ x.id := fun y hy =>
    Nat.ne_of_lt (Nat.lt_of_lt_of_le (hinv.memberBelow y hy) hj.fresh.1)
  -- The other memberships match neither the new key nor a new device.
  have hsame : ∀ y ∈ t.memberships,
      liveRowsOf t'.wireguardKeys t'.devices y = liveRowsOf t.wireguardKeys t.devices y := by
    intro y hy
    refine liveRowsOf_congr ?_ ?_
    · rw [hj.keys, List.filter_append, List.filter_singleton]
      simp only [(hold y hy).symm, false_and, decide_false, cond_false, List.append_nil]
    · rcases hj.devices with ⟨heq, _⟩ | ⟨heq, hid, _⟩
      · rw [heq]
      · rcases hinv.memberDevice y hy with ⟨d', hd', hdy⟩
        have hne : d.id ≠ y.deviceId := by
          rw [hid, ← hdy]
          exact Nat.ne_of_gt (hinv.deviceBelow d' hd')
        rw [heq, List.filter_append, List.filter_singleton]
        simp only [hne, false_and, decide_false, cond_false, List.append_nil]
  -- The new one matches only the new key, and only its own device.
  have hkeys : (t'.wireguardKeys.filter fun k => k.membershipId = x.id ∧ k.state = .current) =
      [{ membershipId := x.id, publicKey := key }] := by
    rw [hj.keys, List.filter_append, List.filter_singleton, List.filter_eq_nil_iff.2]
    · simp
    · intro k hk hp
      rcases hinv.keyMember k hk with ⟨y, hy, hyk⟩
      rw [decide_eq_true_eq] at hp
      exact hold y hy (hyk.trans hp.1)
  have hdevices : (t'.devices.filter fun d' => d'.id = x.deviceId ∧ d'.revokedAt = none) = [d] := by
    have hother : ∀ ds : List Device, (ds.map Device.id).Nodup → d ∈ ds →
        (ds.filter fun d' => d'.id = x.deviceId ∧ d'.revokedAt = none) = [d] := by
      intro ds hnodup hmem
      have hperm : (ds.filter fun d' => d'.id = x.deviceId ∧ d'.revokedAt = none).Perm [d] := by
        rw [List.perm_ext_iff_of_nodup ((List.Nodup.of_map _ hnodup).filter _)
          (List.nodup_singleton d)]
        intro d'
        rw [List.mem_filter, decide_eq_true_eq, List.mem_singleton, hj.deviceId]
        constructor
        · rintro ⟨hd', hid, _⟩
          exact inj_on_of_nodup_map hnodup hd' hmem hid
        · rintro rfl
          exact ⟨hmem, rfl, hj.unrevoked⟩
      exact List.perm_singleton.1 hperm
    rcases hj.devices with ⟨heq, hmem⟩ | ⟨heq, hid, _⟩
    · rw [heq]
      exact hother _ hinv.deviceIds hmem
    · rw [heq]
      refine hother _ (nodup_map_concat hinv.deviceIds fun d' hd' => ?_) (List.mem_append_right _ ?_)
      · rw [hid]
        exact Nat.ne_of_lt (hinv.deviceBelow d' hd')
      · exact List.mem_singleton.2 rfl
  have hnew : liveRowsOf t'.wireguardKeys t'.devices x =
      [⟨x, { membershipId := x.id, publicKey := key }, d⟩] := by
    unfold liveRowsOf
    rw [if_pos hj.active, hkeys, hdevices]
    rfl
  unfold liveRows
  rw [hj.memberships, List.flatMap_append, List.flatMap_singleton, hnew,
    List.flatMap_congr hsame]

theorem liveRows_markRevoked (t : Tables) (id : Id) :
    liveRows (markRevoked t id) = (liveRows t).filter (·.membership.id ≠ id) := by
  rw [filter_liveRows t fun x => x.id ≠ id]
  unfold liveRows markRevoked
  induction t.memberships with
  | nil => rfl
  | cons x xs ih =>
    rw [List.map_cons, List.flatMap_cons, ih, List.filter_cons]
    by_cases hx : x.id = id
    · -- Not active any more, so it is in no row.
      have hnone : liveRowsOf t.wireguardKeys t.devices { x with state := .revoked } = [] := by
        unfold liveRowsOf
        rw [if_neg nofun]
      rw [if_pos hx, hnone, List.nil_append, if_neg (by simpa using hx)]
    · simp only [hx, if_false, ne_eq, not_false_eq_true, decide_true, if_true, List.flatMap_cons]

theorem liveRows_deleteDevice {m : Mesh} (hinv : MemberInv m.toTables) (device : Id) :
    liveRows (deleteDevice m device).toTables =
      (liveRows m.toTables).filter (·.membership.deviceId ≠ device) := by
  rw [filter_liveRows m.toTables fun x => x.deviceId ≠ device]
  refine List.flatMap_congr fun x hx => ?_
  rcases List.mem_filter.1 hx with ⟨hmem, hne⟩
  rw [decide_eq_true_eq] at hne
  refine liveRowsOf_congr (filter_filter_eq _ fun k _ hk => ?_) (filter_filter_eq _ fun d _ hd => ?_)
  · rw [decide_eq_true_eq] at hk
    rw [hk.1]
    refine not_contains_gone.2 ?_
    rintro ⟨y, hy, hyd, hyid⟩
    rw [inj_on_of_nodup_map hinv.memberIds hy hmem hyid] at hyd
    exact hne hyd
  · rw [decide_eq_true_eq] at hd ⊢
    rw [hd.1]
    exact hne

end Moves

section Keeps

variable {t t' : Tables}

theorem memberInv_of_kept (h : MemberInv t) (hk : MembersKept t t') : MemberInv t' where
  memberIds := by rw [hk.memberships]; exact h.memberIds
  memberBelow := fun x hx => Nat.lt_of_lt_of_le (h.memberBelow x (hk.memberships ▸ hx)) hk.nextId
  memberDevice := by rw [hk.memberships, hk.devices]; exact h.memberDevice
  memberKey := by rw [hk.memberships, hk.keys]; exact h.memberKey
  memberAddress := by rw [hk.memberships]; exact h.memberAddress
  deviceIds := by rw [hk.devices]; exact h.deviceIds
  deviceBelow := fun d hd => Nat.lt_of_lt_of_le (h.deviceBelow d (hk.devices ▸ hd)) hk.nextId
  deviceUnrevoked := by rw [hk.devices]; exact h.deviceUnrevoked
  keyMember := by rw [hk.memberships, hk.keys]; exact h.keyMember
  keyMembers := by rw [hk.keys]; exact h.keyMembers
  publicKeys := by rw [hk.keys]; exact h.publicKeys
  keyText := by rw [hk.keys]; exact h.keyText
  keyCurrent := by rw [hk.keys]; exact h.keyCurrent

theorem memberInv_joined {x : Membership} {d : Device} {key : Key} (h : MemberInv t)
    (hj : Enroll.Joined t t' x d key) : MemberInv t' := by
  have hlt : t.nextId < t'.nextId := Nat.lt_of_le_of_lt hj.fresh.1 hj.fresh.2
  have hdevices : (∀ d' ∈ t.devices, d' ∈ t'.devices) ∧ d ∈ t'.devices ∧
      ∀ d' ∈ t'.devices, d' ∈ t.devices ∨ d' = d := by
    rcases hj.devices with ⟨heq, hmem⟩ | ⟨heq, _⟩
    · rw [heq]
      exact ⟨fun _ h => h, hmem, fun _ h => .inl h⟩
    · rw [heq]
      refine ⟨fun _ h => List.mem_append_left _ h,
        List.mem_concat_self, fun d' hd' => ?_⟩
      rcases List.mem_append.1 hd' with h | h
      · exact .inl h
      · exact .inr (List.mem_singleton.1 h)
  have hdid : d.id < t'.nextId := by
    rcases hj.devices with ⟨_, hmem⟩ | ⟨_, hid, _⟩
    · exact Nat.lt_trans (h.deviceBelow d hmem) hlt
    · rw [hid]
      exact hlt
  have hnokey : ∀ k ∈ t.wireguardKeys, k.membershipId ≠ x.id := by
    intro k hk
    rcases h.keyMember k hk with ⟨y, hy, hyk⟩
    rw [← hyk]
    exact Nat.ne_of_lt (Nat.lt_of_lt_of_le (h.memberBelow y hy) hj.fresh.1)
  refine
    { memberIds := ?_, memberBelow := ?_, memberDevice := ?_, memberKey := ?_, memberAddress := ?_,
      deviceIds := ?_, deviceBelow := ?_, deviceUnrevoked := ?_, keyMember := ?_, keyMembers := ?_,
      publicKeys := ?_, keyText := ?_, keyCurrent := ?_ }
  · rw [hj.memberships]
    exact nodup_map_concat h.memberIds fun y hy =>
      Nat.ne_of_lt (Nat.lt_of_lt_of_le (h.memberBelow y hy) hj.fresh.1)
  · rw [hj.memberships]
    intro y hy
    rcases Base.mem_concat.1 hy with hy | rfl
    · exact Nat.lt_trans (h.memberBelow y hy) hlt
    · exact hj.fresh.2
  · rw [hj.memberships]
    intro y hy
    rcases Base.mem_concat.1 hy with hy | rfl
    · rcases h.memberDevice y hy with ⟨d', hd', hdy⟩
      exact ⟨d', hdevices.1 d' hd', hdy⟩
    · exact ⟨d, hdevices.2.1, hj.deviceId.symm⟩
  · rw [hj.memberships, hj.keys]
    intro y hy
    rcases Base.mem_concat.1 hy with hy | rfl
    · rcases h.memberKey y hy with ⟨k, hk, hky⟩
      exact ⟨k, List.mem_append_left _ hk, hky⟩
    · exact ⟨_, List.mem_concat_self, rfl⟩
  · rw [hj.memberships]
    intro y hy
    rcases Base.mem_concat.1 hy with hy | rfl
    · exact h.memberAddress y hy
    · exact hj.addressed
  · rcases hj.devices with ⟨heq, _⟩ | ⟨heq, hid, _⟩
    · rw [heq]
      exact h.deviceIds
    · rw [heq]
      refine nodup_map_concat h.deviceIds fun d' hd' => ?_
      rw [hid]
      exact Nat.ne_of_lt (h.deviceBelow d' hd')
  · intro d' hd'
    rcases hdevices.2.2 d' hd' with hd' | rfl
    · exact Nat.lt_trans (h.deviceBelow d' hd') hlt
    · exact hdid
  · intro d' hd'
    rcases hdevices.2.2 d' hd' with hd' | rfl
    · exact h.deviceUnrevoked d' hd'
    · exact hj.unrevoked
  · rw [hj.memberships, hj.keys]
    intro k hk
    rcases Base.mem_concat.1 hk with hk | rfl
    · rcases h.keyMember k hk with ⟨y, hy, hyk⟩
      exact ⟨y, List.mem_append_left _ hy, hyk⟩
    · exact ⟨x, List.mem_concat_self, rfl⟩
  · rw [hj.keys]
    exact nodup_map_concat h.keyMembers hnokey
  · rw [hj.keys]
    exact nodup_map_concat h.publicKeys hj.keyNew
  · rw [hj.keys]
    intro k hk
    rcases Base.mem_concat.1 hk with hk | rfl
    · exact h.keyText k hk
    · exact hj.keyText
  · rw [hj.keys]
    intro k hk
    rcases Base.mem_concat.1 hk with hk | rfl
    · exact h.keyCurrent k hk
    · rfl

theorem mem_markRevoked {id : Id} {x : Membership} (h : x ∈ (markRevoked t id).memberships) :
    ∃ y ∈ t.memberships, x.id = y.id ∧ x.deviceId = y.deviceId ∧ x.networkId = y.networkId ∧
      x.addressV4 = y.addressV4 ∧ x.addressV6 = y.addressV6 := by
  rcases List.mem_map.1 h with ⟨y, hy, rfl⟩
  refine ⟨y, hy, ?_⟩
  split <;> exact ⟨rfl, rfl, rfl, rfl, rfl⟩

theorem map_id_markRevoked (t : Tables) (id : Id) :
    (markRevoked t id).memberships.map Membership.id = t.memberships.map Membership.id := by
  unfold markRevoked
  rw [List.map_map]
  refine List.map_congr_left fun x _ => ?_
  simp only [Function.comp_apply]
  split <;> rfl

theorem memberInv_markRevoked (h : MemberInv t) (id : Id) : MemberInv (markRevoked t id) := by
  refine ⟨?_, ?_, ?_, ?_, ?_, h.deviceIds, h.deviceBelow, h.deviceUnrevoked, ?_, h.keyMembers,
    h.publicKeys, h.keyText, h.keyCurrent⟩
  · rw [map_id_markRevoked]
    exact h.memberIds
  · intro x hx
    rcases mem_markRevoked hx with ⟨y, hy, hid, _⟩
    rw [hid]
    exact h.memberBelow y hy
  · intro x hx
    rcases mem_markRevoked hx with ⟨y, hy, _, hdev, _⟩
    rw [hdev]
    exact h.memberDevice y hy
  · intro x hx
    rcases mem_markRevoked hx with ⟨y, hy, hid, _⟩
    rw [hid]
    exact h.memberKey y hy
  · intro x hx
    rcases mem_markRevoked hx with ⟨y, hy, _, _, _, hv4, hv6⟩
    rw [hv4, hv6]
    exact h.memberAddress y hy
  · intro k hk
    rcases h.keyMember k hk with ⟨y, hy, hyk⟩
    have hmem : k.membershipId ∈ (markRevoked t id).memberships.map Membership.id := by
      rw [map_id_markRevoked, ← hyk]
      exact List.mem_map_of_mem hy
    exact List.mem_map.1 hmem

theorem mem_deleteDevice {m : Mesh} {device : Id} {x : Membership} :
    x ∈ (deleteDevice m device).memberships ↔ x ∈ m.memberships ∧ x.deviceId ≠ device := by
  unfold deleteDevice
  rw [List.mem_filter, decide_eq_true_eq]

theorem exists_mem_deleteDevice {m : Mesh} {device id : Id} (hx : ∃ x ∈ m.memberships, x.id = id)
    (hgone : ¬Gone m.toTables device id) : ∃ x ∈ (deleteDevice m device).memberships, x.id = id := by
  rcases hx with ⟨x, hx, rfl⟩
  exact ⟨x, mem_deleteDevice.2 ⟨hx, fun hd => hgone ⟨x, hx, hd, rfl⟩⟩, rfl⟩

theorem memberInv_deleteDevice {m : Mesh} (h : MemberInv m.toTables) (device : Id) :
    MemberInv (deleteDevice m device).toTables := by
  have hkeys : (deleteDevice m device).wireguardKeys.Sublist m.wireguardKeys := List.filter_sublist
  have hdevs : (deleteDevice m device).devices.Sublist m.devices := List.filter_sublist
  refine
    { memberIds := h.memberIds.sublist (List.filter_sublist.map _)
      memberBelow := fun x hx => h.memberBelow x (mem_deleteDevice.1 hx).1
      memberDevice := ?_, memberKey := ?_
      memberAddress := fun x hx => h.memberAddress x (mem_deleteDevice.1 hx).1
      deviceIds := h.deviceIds.sublist (hdevs.map _)
      deviceBelow := fun d hd => h.deviceBelow d (hdevs.subset hd)
      deviceUnrevoked := fun d hd => h.deviceUnrevoked d (hdevs.subset hd)
      keyMember := ?_
      keyMembers := h.keyMembers.sublist (hkeys.map _)
      publicKeys := h.publicKeys.sublist (hkeys.map _)
      keyText := fun k hk => h.keyText k (hkeys.subset hk)
      keyCurrent := fun k hk => h.keyCurrent k (hkeys.subset hk) }
  · intro x hx
    rcases mem_deleteDevice.1 hx with ⟨hmem, hne⟩
    rcases h.memberDevice x hmem with ⟨d, hd, hdx⟩
    refine ⟨d, List.mem_filter.2 ⟨hd, ?_⟩, hdx⟩
    rw [decide_eq_true_eq, hdx]
    exact hne
  · intro x hx
    rcases mem_deleteDevice.1 hx with ⟨hmem, hne⟩
    rcases h.memberKey x hmem with ⟨k, hk, hkx⟩
    refine ⟨k, List.mem_filter.2 ⟨hk, not_contains_gone.2 ?_⟩, hkx⟩
    rintro ⟨y, hy, hyd, hyk⟩
    rw [inj_on_of_nodup_map h.memberIds hy hmem (hyk.trans hkx)] at hyd
    exact hne hyd
  · intro k hk
    rcases List.mem_filter.1 hk with ⟨hmem, hstay⟩
    exact exists_mem_deleteDevice (h.keyMember k hmem) (not_contains_gone.1 hstay)

end Keeps

end Meshp.Store
