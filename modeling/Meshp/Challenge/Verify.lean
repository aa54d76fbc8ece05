import Meshp.Relay.Token

/-!
# Challenges

A challenge carries its own validity: a nonce, an expiry and a MAC over both and
over what the challenge is bound to, under a key derived for one purpose. Nothing
is stored, and whoever holds the master secret can check one. What is assumed of
the MAC is that it tells apart the inputs one verification compares; no function
with results of thirty-two bytes is injective.
-/

namespace Meshp.Challenge

open Base (bind_eq_ok refuseIf refuseIf_eq_ok)
open List (append_assoc append_inj drop_left' range replicate take_left')
open Relay (Bytes Time field ofBigEndian second toBigEndian unixTime unixToInternal)

def nonceLen : Nat := 16

def headerLen : Nat := nonceLen + 8

/-- `Len`: the header, and the MAC. -/
def size : Nat := headerLen + 32

/-- HKDF of a secret for a purpose, and HMAC of a message under a key, both of SHA-256. -/
structure Primitives where
  hkdf : Bytes → String → Bytes
  hmac : Bytes → Bytes → Bytes
  length_hmac : ∀ key message, (hmac key message).length = 32

/-- A `time.Time`: the seconds since the year 1, which are a signed word, and nanoseconds. -/
structure Instant where
  seconds : Int
  nanoseconds : Nat
  lower : -2 ^ 63 ≤ seconds
  upper : seconds < 2 ^ 63
  short : nanoseconds < 10 ^ 9

def Instant.time (t : Instant) : Time :=
  t.seconds * second + t.nanoseconds

/-- `Add` of a duration that is not negative. The seconds stop at the last a word can hold. -/
def Instant.add (t : Instant) (d : Nat) : Instant where
  seconds := min (t.seconds + ((t.nanoseconds + d) / 10 ^ 9 : Nat)) (2 ^ 63 - 1)
  nanoseconds := (t.nanoseconds + d) % 10 ^ 9
  lower := by have := t.lower; omega
  upper := by omega
  short := Nat.mod_lt _ (by decide)

structure Challenger where
  key : Bytes
  ttl : Nat

inductive SetupFault
  | secret (length : Nat)
  | noPurpose

/-- `DefaultTTL`. -/
def defaultTTL : Nat := 5 * 60 * 10 ^ 9

def new (x : Primitives) (secret : Bytes) (purpose : String) (ttl : Int) :
    Except SetupFault Challenger := do
  refuseIf (secret.length < 16) (.secret secret.length)
  refuseIf (purpose = "") .noPurpose
  pure ⟨x.hkdf secret purpose, if ttl ≤ 0 then defaultTTL else ttl.toNat⟩

def word (n : Nat) : Bytes :=
  (toBigEndian n).drop 4

/-- `writeLengthPrefixed`. -/
def framed (b : Bytes) : Bytes :=
  word b.length ++ b

/-- What `mac` writes. -/
def macInput (header : Bytes) (bindings : List Bytes) : Bytes :=
  framed header ++ word bindings.length ++ bindings.flatMap framed

def mac (x : Primitives) (c : Challenger) (header : Bytes) (bindings : List Bytes) : Bytes :=
  x.hmac c.key (macInput header bindings)

inductive IssueFault
  | noBinding
  | emptyBinding (i : Nat)

/-- `Challenge`. -/
structure Issued where
  bytes : Bytes
  expiresAt : Instant

/-- `Issue`, with the nonce that was drawn. -/
def issue (x : Primitives) (c : Challenger) (now : Instant) (nonce : Vector UInt8 nonceLen)
    (bindings : List Bytes) : Except IssueFault Issued := do
  refuseIf (bindings = []) .noBinding
  match bindings.findIdx? (· = []) with
  | some i => .error (.emptyBinding i)
  | none =>
    let expiresAt := now.add c.ttl
    let header := nonce.toList ++
      toBigEndian (BitVec.ofInt 64 expiresAt.seconds - unixToInternal).toNat
    pure ⟨header ++ mac x c header bindings, expiresAt⟩

inductive Fault
  | length (found : Nat)
  | invalid
  | expired (at' : Time)

def expiryOf (ch : Bytes) : Time :=
  unixTime (ofBigEndian (field ch nonceLen 8))

/-- `Verify`. The MAC is checked before the expiry is read. -/
def verify (x : Primitives) (c : Challenger) (now : Instant) (ch : Bytes) (bindings : List Bytes) :
    Except Fault Unit := do
  refuseIf (ch.length ≠ size) (.length ch.length)
  refuseIf (ch.drop headerLen ≠ mac x c (ch.take headerLen) bindings) .invalid
  refuseIf (expiryOf ch ≤ now.time) (.expired (expiryOf ch))

theorem length_word (n : Nat) : (word n).length = 4 :=
  rfl

theorem ofBigEndian_word {n : Nat} (h : n < 2 ^ 32) : ofBigEndian (word n) = n := by
  simp [ofBigEndian, word, toBigEndian, range, range.loop]
  omega

theorem ofBigEndian_toBigEndian {n : Nat} (h : n < 2 ^ 64) : ofBigEndian (toBigEndian n) = n := by
  simp [ofBigEndian, toBigEndian, range, range.loop]
  omega

/-- The word a second is written as is read as that second. -/
theorem unixTime_seconds (t : Instant) :
    unixTime (BitVec.ofInt 64 t.seconds - unixToInternal).toNat = t.seconds * second := by
  have := t.lower
  have := t.upper
  rw [unixTime, BitVec.ofNat_toNat, BitVec.setWidth_eq, BitVec.sub_add_cancel, BitVec.toInt_ofInt]
  rw [Int.bmod_eq_of_le] <;> omega

theorem framed_append_inj {b b' r r' : Bytes} (hb : b.length < 2 ^ 32) (hb' : b'.length < 2 ^ 32)
    (h : framed b ++ r = framed b' ++ r') : b = b' ∧ r = r' := by
  simp only [framed, append_assoc] at h
  obtain ⟨hword, hrest⟩ := append_inj h rfl
  have hlength : b.length = b'.length := by
    rw [← ofBigEndian_word hb, hword, ofBigEndian_word hb']
  exact append_inj hrest hlength

theorem flatMap_framed_inj {bs bs' : List Bytes} (hb : ∀ b ∈ bs, b.length < 2 ^ 32)
    (hb' : ∀ b ∈ bs', b.length < 2 ^ 32) (h : bs.flatMap framed = bs'.flatMap framed) :
    bs = bs' := by
  -- Every binding takes at least the bytes of its length, so the lists end together.
  induction bs generalizing bs' with
  | nil =>
    cases bs' with
    | nil => rfl
    | cons b' bs' =>
      have := congrArg List.length h
      simp [framed, length_word] at this
      omega
  | cons b bs ih =>
    cases bs' with
    | nil =>
      have := congrArg List.length h
      simp [framed, length_word] at this
    | cons b' bs' =>
      simp only [List.flatMap_cons] at h
      obtain ⟨rfl, hrest⟩ := framed_append_inj (hb b (.head _))
        (hb' b' (.head _)) h
      rw [ih (fun y hy => hb y (.tail _ hy))
        (fun y hy => hb' y (.tail _ hy)) hrest]

theorem macInput_inj {header header' : Bytes} {bs bs' : List Bytes} (hh : header.length = headerLen)
    (hh' : header'.length = headerLen) (hb : ∀ b ∈ bs, b.length < 2 ^ 32)
    (hb' : ∀ b ∈ bs', b.length < 2 ^ 32) (h : macInput header bs = macInput header' bs') :
    header = header' ∧ bs = bs' := by
  have hshort : headerLen < 2 ^ 32 := by decide
  simp only [macInput, append_assoc] at h
  obtain ⟨heq, hrest⟩ := framed_append_inj (hh ▸ hshort) (hh' ▸ hshort) h
  exact ⟨heq, flatMap_framed_inj hb hb' (append_inj hrest rfl).2⟩

variable {x : Primitives} {c c' : Challenger} {now issuedAt : Instant}
  {nonce : Vector UInt8 nonceLen} {b b' : List Bytes} {ch : Issued}

theorem key_of_new {secret : Bytes} {p : String} {ttl : Int} (h : new x secret p ttl = .ok c) :
    c.key = x.hkdf secret p := by
  obtain ⟨_, _, h⟩ := bind_eq_ok.1 h
  obtain ⟨_, _, h⟩ := bind_eq_ok.1 h
  cases h
  rfl

theorem verify_eq_ok {bytes : Bytes} : verify x c now bytes b = .ok () ↔
    bytes.length = size ∧ bytes.drop headerLen = mac x c (bytes.take headerLen) b ∧
      now.time < expiryOf bytes := by
  unfold verify
  constructor
  · intro h
    obtain ⟨_, hlength, h⟩ := bind_eq_ok.1 h
    obtain ⟨_, hmac, h⟩ := bind_eq_ok.1 h
    exact ⟨not_not.1 (refuseIf_eq_ok.1 hlength), not_not.1 (refuseIf_eq_ok.1 hmac),
      Int.not_le.1 (refuseIf_eq_ok.1 h)⟩
  · rintro ⟨hlength, hmac, hnow⟩
    exact bind_eq_ok.2 ⟨(), refuseIf_eq_ok.2 (not_not.2 hlength),
      bind_eq_ok.2 ⟨(), refuseIf_eq_ok.2 (not_not.2 hmac), refuseIf_eq_ok.2 (Int.not_le.2 hnow)⟩⟩

theorem issue_ok (h : issue x c issuedAt nonce b = .ok ch) :
    ch.bytes.length = size ∧
      ch.bytes.drop headerLen = mac x c (ch.bytes.take headerLen) b ∧
      expiryOf ch.bytes = ch.expiresAt.seconds * second := by
  unfold issue at h
  obtain ⟨_, _, h⟩ := bind_eq_ok.1 h
  split at h
  · cases h
  · cases h
    have hheader : ∀ n, (nonce.toList ++ toBigEndian n).length = headerLen := by
      intro n
      simp [toBigEndian, headerLen]
    refine ⟨?_, ?_, ?_⟩
    · rw [List.length_append, hheader, mac, x.length_hmac, size]
    · rw [drop_left' (hheader _), take_left' (hheader _)]
    · have hfield : ∀ n rest, field ((nonce.toList ++ toBigEndian n) ++ rest) nonceLen 8 =
          toBigEndian n := by
        intro n rest
        rw [field, append_assoc, drop_left' nonce.length_toList]
        exact take_left' rfl
      rw [expiryOf, hfield, ofBigEndian_toBigEndian (BitVec.isLt _), unixTime_seconds]

/-- A challenge issued for some bindings and a purpose is accepted for the same bindings and the
same purpose before the second in which it expires, and never otherwise; and it is not accepted with
another nonce or expiry. -/
theorem verify_issued_iff (x : Primitives) (secret : Bytes) (p p' : String) (ttl ttl' : Int)
    (hc : new x secret p ttl = .ok c) (hc' : new x secret p' ttl' = .ok c') (issuedAt now : Instant)
    (nonce : Vector UInt8 nonceLen) (b b' : List Bytes)
    (hissue : issue x c issuedAt nonce b = .ok ch) (hb : ∀ y ∈ b, y.length < 2 ^ 32)
    (hb' : ∀ y ∈ b', y.length < 2 ^ 32) (hhkdf : x.hkdf secret p' = x.hkdf secret p → p' = p)
    (hhmac : ∀ header, header.length = headerLen →
      mac x c' header b' = mac x c (ch.bytes.take headerLen) b →
      c'.key = c.key ∧ macInput header b' = macInput (ch.bytes.take headerLen) b) :
    (verify x c' now ch.bytes b' = .ok () ↔
      b' = b ∧ p' = p ∧ now.time < ch.expiresAt.seconds * second) ∧
    ∀ altered, altered.drop headerLen = ch.bytes.drop headerLen → altered ≠ ch.bytes →
      verify x c' now altered b' ≠ .ok () := by
  have hkey : c.key = x.hkdf secret p := key_of_new hc
  have hkey' : c'.key = x.hkdf secret p' := key_of_new hc'
  obtain ⟨hlength, hmac, hexpiry⟩ := issue_ok hissue
  have hheader : ∀ bytes : Bytes, bytes.length = size → (bytes.take headerLen).length = headerLen :=
    fun bytes h => by rw [List.length_take, h]; rfl
  -- Whatever is accepted with this MAC is the challenge, for its bindings and its purpose.
  have haccept : ∀ bytes, bytes.drop headerLen = ch.bytes.drop headerLen →
      verify x c' now bytes b' = .ok () → bytes = ch.bytes ∧ b' = b ∧ p' = p := by
    intro bytes hdrop hok
    obtain ⟨hlen, hmac', -⟩ := verify_eq_ok.1 hok
    rw [hdrop, hmac] at hmac'
    obtain ⟨hkeys, hinput⟩ := hhmac _ (hheader bytes hlen) hmac'.symm
    obtain ⟨htake, hbs⟩ := macInput_inj (hheader bytes hlen) (hheader _ hlength) hb' hb hinput
    refine ⟨?_, hbs, hhkdf (by rw [← hkey', ← hkey, hkeys])⟩
    rw [← List.take_append_drop headerLen bytes, htake, hdrop, List.take_append_drop]
  refine ⟨⟨fun hok => ?_, ?_⟩, fun altered hdrop hne hok => hne (haccept altered hdrop hok).1⟩
  · obtain ⟨-, hbs, hp⟩ := haccept _ rfl hok
    exact ⟨hbs, hp, hexpiry ▸ (verify_eq_ok.1 hok).2.2⟩
  · rintro ⟨rfl, rfl, hnow⟩
    refine verify_eq_ok.2 ⟨hlength, ?_, hexpiry ▸ hnow⟩
    rw [hmac, mac, mac, hkey, hkey']

def plain : Primitives where
  hkdf secret _ := secret
  hmac _ message := ((message.drop 4).take headerLen ++ replicate 32 0).take 32
  length_hmac _ _ := by simp

theorem verify_issued_iff_plain :
    let start : Instant := ⟨0, 5, by decide, by decide, by decide⟩
    let end' : Instant := ⟨299, 999999999, by decide, by decide, by decide⟩
    ∃ c ch, new plain (replicate 16 7) "enrolment" 0 = .ok c ∧
      issue plain c start (Vector.replicate 16 9) [[1]] = .ok ch ∧
      verify plain c end' ch.bytes [[1]] = .ok () ∧
      verify plain c end' (ch.bytes.set 0 8) [[1]] ≠ .ok () := by
  intro start end'
  have htake : ∀ key header, header.length = headerLen →
      (plain.hmac key (macInput header [[1]])).take headerLen = header := by
    intro key header h
    simp only [plain, macInput, framed, append_assoc, drop_left' (length_word _),
      take_left' h, List.take_take]
    exact take_left' h
  have hissued := verify_issued_iff plain (replicate 16 7) "enrolment" "enrolment" 0 0 rfl rfl
    start end' (Vector.replicate 16 9) [[1]] [[1]] rfl (by decide) (by decide) (fun _ => rfl)
    fun header h hmac => ⟨rfl, congrArg (macInput · [[1]]) ((htake [] header h).symm.trans
      ((congrArg (List.take headerLen) hmac).trans (htake [] _ rfl)))⟩
  exact ⟨_, _, rfl, rfl, hissued.1.2 ⟨rfl, rfl, by decide⟩, hissued.2 _ rfl (by decide)⟩

end Meshp.Challenge
