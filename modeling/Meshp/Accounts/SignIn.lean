import Meshp.Accounts.Tables

/-!
# Signing In

An attempt to sign in is a row of statements, each its own transaction: how long
the address still has to wait, who has the address, and then either one more
failure on record, or a hash written again with today's parameters, the run of
failures cleared and a session opened. The password is checked between two of
them, and takes its time.
-/

namespace Meshp.Accounts

open Store (Id Time)

def second : Nat := 1000000

def signInFreeAttempts : Nat := 5

/-- `signInMaxDelay`: a minute. -/
def signInMaxDelay : Nat := 60 * second

/-- `signInResetAfter`: an hour. -/
def signInResetAfter : Nat := 3600 * second

/-- `signInDelay`: doubling, then flat. -/
def signInDelay (failures : Nat) : Nat :=
  if failures < signInFreeAttempts then 0
  else if 16 < failures - signInFreeAttempts then signInMaxDelay
  else min (2 ^ (failures - signInFreeAttempts) * second) signInMaxDelay

theorem signInDelay_le (failures : Nat) : signInDelay failures ≤ signInMaxDelay := by
  unfold signInDelay
  split
  · exact Nat.zero_le _
  · split
    · exact Nat.le_refl _
    · exact Nat.min_le_right _ _

theorem signInDelay_mono {m n : Nat} (h : m ≤ n) : signInDelay m ≤ signInDelay n := by
  by_cases hm : m < signInFreeAttempts
  · simp only [signInDelay, if_pos hm, Nat.zero_le]
  have hn : ¬n < signInFreeAttempts := fun hn => hm (Nat.lt_of_le_of_lt h hn)
  by_cases hbig : 16 < n - signInFreeAttempts
  · rw [show signInDelay n = signInMaxDelay by simp only [signInDelay, if_neg hn, if_pos hbig]]
    exact signInDelay_le m
  · have hsmall : ¬16 < m - signInFreeAttempts := by omega
    simp only [signInDelay, if_neg hm, if_neg hn, if_neg hbig, if_neg hsmall]
    have hpow : 2 ^ (m - signInFreeAttempts) ≤ 2 ^ (n - signInFreeAttempts) :=
      Nat.pow_le_pow_right (by decide) (Nat.sub_le_sub_right h _)
    exact min_le_min_right _ (Nat.mul_le_mul_right _ hpow)

variable (x : Primitives) (now : Time) (d : Deployment)

/-- `signInKey`: what an address is counted under. -/
def signInKey (email : String) : List UInt8 :=
  x.sha256 email

/-- `GetSignInFailures`. -/
def failuresAt (key : List UInt8) : Option SignInFailures :=
  d.signInFailures.find? (·.emailHash = key)

/-- `signInWait`: how long an address still has to wait. -/
def signInWait (key : List UInt8) : Nat :=
  match failuresAt d key with
  | none => 0
  | some r => r.lastFailedAt + signInDelay r.failures - now

def SignInFailures.again (r : SignInFailures) : SignInFailures :=
  if r.lastFailedAt + signInResetAfter < now then
    { r with failures := 1, firstFailedAt := now, lastFailedAt := now }
  else { r with failures := r.failures + 1, lastFailedAt := now }

def recordSignInFailure (key : List UInt8) : Deployment :=
  { d with
    signInFailures :=
      if ∃ r ∈ d.signInFailures, r.emailHash = key then
        d.signInFailures.map fun r => if r.emailHash = key then r.again now else r
      else d.signInFailures ++
        [{ emailHash := key, failures := 1, firstFailedAt := now, lastFailedAt := now }] }

def clearSignInFailures (key : List UInt8) : Deployment :=
  { d with signInFailures := d.signInFailures.filter (·.emailHash ≠ key) }

/-- `SweepSignInFailures`: runs that have gone quiet. -/
def sweepSignInFailures : Deployment :=
  { d with
    signInFailures := d.signInFailures.filter fun r => ¬r.lastFailedAt + signInResetAfter < now }

structure SignInRequest where
  email : String
  password : String
  /-- Narrows the search when one address is in several organisations. -/
  organization : Option Id := none

structure Draws where
  /-- For a hash that is written again. -/
  salt : List UInt8
  /-- The value the browser will present. -/
  token : String

/-- What an attempt finds at an address. Nobody there, nothing to check against, suspended and
deleted are one answer. -/
inductive Found
  | ambiguous
  | nobody
  | account (u : User) (h : PasswordHash)
  deriving DecidableEq

/-- `FindUsersByEmail`, narrowed to the organisation that was named. -/
def candidates (req : SignInRequest) : List User :=
  d.users.filter fun u => x.lower u.email = x.lower (normalEmail x req.email) ∧
    (req.organization = none ∨ req.organization = some u.organizationId)

def lookup (req : SignInRequest) : Found :=
  match candidates x d req with
  | [] => .nobody
  | [u] =>
    match u.passwordHash with
    | none => .nobody
    | some h => if u.active then .account u h else .nobody
  | _ :: _ :: _ => .ambiguous

inductive Outcome
  | throttled (retryAfter : Nat)
  | ambiguous
  | refused
  | session (user : User) (token : String)
  | failed
  deriving DecidableEq

inductive Stage
  /-- About to ask how long the address has to wait. -/
  | arrived
  /-- About to look the address up. -/
  | admitted
  /-- About to check the password. -/
  | found (f : Found)
  /-- About to put a failure on record. -/
  | wrong
  /-- About to write the hash again, if it was made with other parameters. -/
  | right (u : User) (h : PasswordHash)
  /-- About to clear the failures. -/
  | upgraded (u : User)
  /-- About to open the session. -/
  | cleared (u : User)
  | finished (o : Outcome)
  deriving DecidableEq

/-- `SessionIdle`: twelve hours. -/
def sessionIdle : Nat := 12 * 3600 * second

/-- `SessionMaxAge`: thirty days. -/
def sessionMaxAge : Nat := 30 * 24 * 3600 * second

def rehash (u : User) (h : PasswordHash) (password : String) (salt : List UInt8) : Deployment :=
  if needsRehash h then
    Base.attempt (fun d => setUserPasswordHash d u.id (hash x password salt)) d
  else d

/-- `CreateUserSession`, refused when the token has been drawn before. -/
def openSession (u : User) (token : String) : Option Deployment :=
  if ∃ s ∈ d.userSessions, s.tokenHash = x.sha256 token then none
  else some { d with
    userSessions := d.userSessions ++
      [{ tokenHash := x.sha256 token, userId := u.id, idleExpiresAt := now + sessionIdle
         expiresAt := now + sessionMaxAge }] }

/-- `SignIn`, one statement further. An address with nobody to check against has a password checked
all the same, against a hash of nothing. -/
def advance (req : SignInRequest) (w : Draws) : Stage → Deployment × Stage
  | .arrived =>
    let wait := signInWait now d (signInKey x (normalEmail x req.email))
    (d, if 0 < wait then .finished (.throttled wait) else .admitted)
  | .admitted => (d, .found (lookup x d req))
  | .found .ambiguous => (d, .finished .ambiguous)
  | .found .nobody => (d, .wrong)
  | .found (.account u h) => (d, if verify x h req.password then .right u h else .wrong)
  | .wrong =>
    (recordSignInFailure now d (signInKey x (normalEmail x req.email)), .finished .refused)
  | .right u h => (rehash x d u h req.password w.salt, .upgraded u)
  | .upgraded u => (clearSignInFailures d (signInKey x (normalEmail x req.email)), .cleared u)
  | .cleared u =>
    match openSession x now d u w.token with
    | none => (d, .finished .failed)
    | some d' => (d', .finished (.session u w.token))
  | .finished o => (d, .finished o)

end Meshp.Accounts
