import Meshp.Base.Run
import Meshp.Netip.Addr

/-!
# Address Allocation

One pool's allocator. The control plane rebuilds it from the stored allocations
every time an address is wanted, so what matters there is the pair `restore` and
`allocate`: from the addresses already handed out, the next free one at or after
the cursor, wrapping at the end of the prefix.
-/

namespace Meshp.Ipam

open Base (refuseIf bind_eq_ok)
open Netip (Addr Prefix)

abbrev Time := Nat

inductive Failure
  | exhausted
  | allQuarantined
  | outOfRange (addr : Addr)
  | noAllocatable
  | alreadyAllocated (addr : Addr)
  | notAllocated (addr : Addr)
  | reserved (addr : Addr)
  | quarantined (addr : Addr)
  deriving DecidableEq

/-- `Entry`: one stored allocation. A released one is quarantined. -/
structure Entry where
  addr : Addr
  holder : String := ""
  releasedAt : Option Time := none

def Entry.held (e : Entry) : Option String :=
  match e.releasedAt with
  | none => some e.holder
  | some _ => none

def Entry.freeAt (quarantine : Nat) (e : Entry) : Option Time :=
  match e.releasedAt with
  | none => none
  | some t => if 0 < quarantine then some (t + quarantine) else none

/-- `Config`. A quarantine of zero is the default one, and a negative one is none. -/
structure Config where
  pool : Prefix
  quarantine : Int := 0
  reserved : List Addr := []

structure Allocator where
  pool : Prefix
  quarantine : Nat
  /-- How many addresses the prefix has; nothing when they cannot be counted. -/
  size : Option Nat
  reserved : List Addr
  allocated : List (Addr × String) := []
  quarantined : List (Addr × Time) := []
  cursor : Addr
  deriving DecidableEq

/-- `DefaultQuarantine`: fifteen minutes. -/
def defaultQuarantine : Nat := 15 * 60 * 1000000

/-- `lastAddr`: the highest address of a prefix. -/
def lastAddr (p : Prefix) : Addr :=
  match p.addr with
  | .v4 a => .v4 (a ||| (BitVec.allOnes 32 >>> p.bits))
  | .v6 a => .v6 (a ||| (BitVec.allOnes 128 >>> p.bits))

def countAddrs (hostBits : Nat) : Option Nat :=
  if 63 ≤ hostBits then none else some (2 ^ hostBits)

def structural (p : Prefix) : List Addr :=
  let hostBits := p.addr.bitLen - p.bits
  if p.addr.is4 then if 2 ≤ hostBits then [p.addr, lastAddr p] else []
  else if 1 ≤ hostBits then [p.addr] else []

def new (cfg : Config) : Except Failure Allocator := do
  let p := cfg.pool.masked
  let given := cfg.reserved.map Addr.unmap
  given.forM fun r => refuseIf (p.contains r = false) (.outOfRange r)
  let reserved := (structural p ++ given).dedup
  let size := countAddrs (p.addr.bitLen - p.bits)
  refuseIf (size.any (· ≤ reserved.length) = true) .noAllocatable
  pure
    { pool := p
      quarantine := if cfg.quarantine = 0 then defaultQuarantine else cfg.quarantine.toNat
      size, reserved, cursor := p.addr }

namespace Allocator

/-- `nextLocked`: one address on, wrapping from the end to the start. -/
def next (a : Allocator) (addr : Addr) : Addr :=
  if addr.compare (lastAddr a.pool) = .lt then addr.next.getD a.pool.addr else a.pool.addr

def put {β : Type} (l : List (Addr × β)) (addr : Addr) (b : β) : List (Addr × β) :=
  (addr, b) :: l.filter (·.1 ≠ addr)

def highest (addrs : List Addr) : Option Addr :=
  addrs.foldl (fun h a => match h with
    | none => some a
    | some b => if a.compare b = .gt then some a else some b) none

/-- One stored entry of `Restore`. A quarantine that is switched off withholds nothing. -/
def restoreEntry (a acc : Allocator) (e : Entry) : Except Failure Allocator :=
  let addr := e.addr.unmap
  if !a.pool.contains addr then .error (.outOfRange addr)
  else match e.releasedAt with
    | none => .ok { acc with allocated := put acc.allocated addr e.holder }
    | some t =>
      if 0 < a.quarantine then
        .ok { acc with quarantined := put acc.quarantined addr (t + a.quarantine) }
      else .ok acc

/-- `Restore`: rebuild from stored state, and resume after the highest live address. -/
def restore (a : Allocator) (now : Time) (entries : List Entry) : Except Failure Allocator := do
  let a ← entries.foldlM a.restoreEntry
    { a with allocated := [], quarantined := [], cursor := a.pool.addr }
  pure
    { a with
      cursor := match highest (a.allocated.map Prod.fst) with
        | none => a.pool.addr
        | some h => a.next h
      quarantined := a.quarantined.filter fun e => now < e.2 }

/-- The sweep of `Allocate`: at most `steps` addresses from `addr` on. -/
def sweep (a : Allocator) (now : Time) : Nat → Addr → Bool → Except Failure Addr
  | 0, _, sawQuarantined => .error (if sawQuarantined then .allQuarantined else .exhausted)
  | steps + 1, addr, sawQuarantined =>
    if a.reserved.contains addr || (a.allocated.map Prod.fst).contains addr then
      sweep a now steps (a.next addr) sawQuarantined
    else if a.quarantined.any fun e => e.1 = addr && now < e.2 then
      sweep a now steps (a.next addr) true
    else .ok addr

/-- `Allocate`: the next free address. -/
def allocate (a : Allocator) (now : Time) : Except Failure Addr :=
  a.sweep now (a.size.getD (2 ^ 20)) a.cursor false

/-- `reclaimLocked`: forget the addresses whose quarantine is over. -/
def reclaim (a : Allocator) (now : Time) : Allocator :=
  { a with quarantined := a.quarantined.filter fun e => now < e.2 }

/-- `Allocate`, with the holder the address is recorded against. A refusal leaves nothing behind but
what was reclaimed. -/
def allocateFor (a : Allocator) (now : Time) (holder : String) :
    Except Failure Addr × Allocator :=
  let a := a.reclaim now
  match a.allocate now with
  | .ok addr =>
    (.ok addr, { a with allocated := put a.allocated addr holder, cursor := a.next addr })
  | .error e => (.error e, a)

/-- `AllocateSpecific`. The cursor stays where it is. -/
def allocateSpecific (a : Allocator) (now : Time) (addr : Addr) (holder : String) :
    Except Failure Unit × Allocator :=
  let addr := addr.unmap
  let a := a.reclaim now
  if a.pool.contains addr = false then (.error (.outOfRange addr), a)
  else if addr ∈ a.reserved then (.error (.reserved addr), a)
  else if addr ∈ a.allocated.map Prod.fst then (.error (.alreadyAllocated addr), a)
  else if a.quarantined.any fun e => e.1 = addr && now < e.2 then (.error (.quarantined addr), a)
  else
    (.ok (), { a with
      quarantined := a.quarantined.filter (·.1 ≠ addr)
      allocated := put a.allocated addr holder })

def release (a : Allocator) (now : Time) (addr : Addr) : Except Failure Unit × Allocator :=
  let addr := addr.unmap
  if addr ∈ a.allocated.map Prod.fst then
    (.ok (), { a with
      allocated := a.allocated.filter (·.1 ≠ addr)
      quarantined :=
        if 0 < a.quarantine then put a.quarantined addr (now + a.quarantine) else a.quarantined })
  else (.error (.notAllocated addr), a)

theorem mem_put {β : Type} {l : List (Addr × β)} {x y : Addr} {b c : β} :
    (x, b) ∈ put l y c ↔ (x = y ∧ b = c) ∨ (x ≠ y ∧ (x, b) ∈ l) := by
  simp only [put, List.mem_cons, Prod.mk.injEq, List.mem_filter, decide_not,
    Bool.not_eq_true', decide_eq_false_iff_not, and_comm (a := (x, b) ∈ l)]

theorem nodup_put {β : Type} {l : List (Addr × β)} (h : (l.map Prod.fst).Nodup) (y : Addr)
    (c : β) : ((put l y c).map Prod.fst).Nodup := by
  have hsub : (l.filter (·.1 ≠ y)).Sublist l := List.filter_sublist
  refine List.nodup_cons.2 ⟨?_, h.sublist (hsub.map Prod.fst)⟩
  simp

def putEntry {β : Type} (f : Entry → Option β) (acc : List (Addr × β)) (e : Entry) :
    List (Addr × β) :=
  match f e with
  | none => acc
  | some b => put acc e.addr.unmap b

section PutEntry

variable {β : Type} {f : Entry → Option β} {entries : List Entry} {acc : List (Addr × β)}
  {x : Addr} {b : β}

theorem mem_foldl_putEntry (h : (x, b) ∈ entries.foldl (putEntry f) acc) :
    (x, b) ∈ acc ∨ ∃ e ∈ entries, e.addr.unmap = x ∧ f e = some b := by
  induction entries generalizing acc with
  | nil => exact .inl h
  | cons e entries ih =>
    rcases ih h with hacc | ⟨e', he', hrest⟩
    · cases hf : f e with
      | none =>
        rw [putEntry, hf] at hacc
        exact .inl hacc
      | some c =>
        rw [putEntry, hf] at hacc
        rcases mem_put.1 hacc with ⟨rfl, rfl⟩ | ⟨_, hacc⟩
        · exact .inr ⟨e, .head _, rfl, hf⟩
        · exact .inl hacc
    · exact .inr ⟨e', .tail _ he', hrest⟩

theorem mem_foldl_putEntry_of_mem (h : (x, b) ∈ acc) (hx : ∀ e ∈ entries, e.addr.unmap ≠ x) :
    (x, b) ∈ entries.foldl (putEntry f) acc := by
  induction entries generalizing acc with
  | nil => exact h
  | cons e entries ih =>
    refine ih ?_ fun e' he' => hx e' (.tail _ he')
    unfold putEntry
    split
    · exact h
    · exact mem_put.2 (.inr ⟨(hx e (.head _)).symm, h⟩)

theorem mem_foldl_putEntry_of_entry {e : Entry} (he : e ∈ entries) (hf : f e = some b)
    (honce : (entries.map fun e => e.addr.unmap).Nodup) :
    (e.addr.unmap, b) ∈ entries.foldl (putEntry f) acc := by
  induction entries generalizing acc with
  | nil => cases he
  | cons e' entries ih =>
    rw [List.map_cons, List.nodup_cons] at honce
    rcases List.mem_cons.1 he with rfl | he
    · have hput : (e.addr.unmap, b) ∈ putEntry f acc e := by
        rw [putEntry, hf]
        exact mem_put.2 (.inl ⟨rfl, rfl⟩)
      rw [List.foldl_cons]
      refine mem_foldl_putEntry_of_mem hput fun e' he' heq => ?_
      exact honce.1 (heq ▸ List.mem_map_of_mem (f := fun e => e.addr.unmap) he')
    · exact ih he honce.2

theorem nodup_foldl_putEntry (h : (acc.map Prod.fst).Nodup) :
    ((entries.foldl (putEntry f) acc).map Prod.fst).Nodup := by
  induction entries generalizing acc with
  | nil => exact h
  | cons e entries ih =>
    refine ih ?_
    unfold putEntry
    split
    · exact h
    · exact nodup_put h _ _

end PutEntry

def live (entries : List Entry) : List (Addr × String) :=
  entries.foldl (putEntry Entry.held) []

def withheld (quarantine : Nat) (entries : List Entry) : List (Addr × Time) :=
  entries.foldl (putEntry (Entry.freeAt quarantine)) []

theorem mem_live {entries : List Entry} {x : Addr} {h : String} (hmem : (x, h) ∈ live entries) :
    ∃ e ∈ entries, e.addr.unmap = x ∧ e.held = some h :=
  (mem_foldl_putEntry hmem).resolve_left List.not_mem_nil

def resume (a : Allocator) (allocated : List (Addr × String)) : Addr :=
  match highest (allocated.map Prod.fst) with
  | none => a.pool.addr
  | some h => a.next h

theorem restore_eq {a a' : Allocator} {now : Time} {entries : List Entry} :
    a.restore now entries = .ok a' ↔
      (∀ e ∈ entries, a.pool.contains e.addr.unmap = true) ∧
        a' = ({ a with
          allocated := live entries
          quarantined := withheld a.quarantine entries
          cursor := a.resume (live entries) } : Allocator).reclaim now := by
  have hentry : ∀ (acc r : Allocator) (e : Entry), a.restoreEntry acc e = .ok r ↔
      a.pool.contains e.addr.unmap = true ∧
        r = { acc with
          allocated := putEntry Entry.held acc.allocated e
          quarantined := putEntry (Entry.freeAt a.quarantine) acc.quarantined e } := by
    intro acc r e
    simp only [restoreEntry, putEntry, Entry.held, Entry.freeAt]
    cases hin : a.pool.contains e.addr.unmap with
    | false => simp
    | true =>
      have hok : ∀ x y : Allocator, Except.ok (ε := Failure) x = .ok y ↔ y = x :=
        fun x y => ⟨fun h => (Except.ok.inj h).symm, fun h => congrArg _ h.symm⟩
      cases e.releasedAt with
      | none => simp [hok]
      | some t => by_cases hq : 0 < a.quarantine <;> simp [hok, hq]
  have hfold : ∀ (es : List Entry) (acc r : Allocator), es.foldlM a.restoreEntry acc = .ok r ↔
      (∀ e ∈ es, a.pool.contains e.addr.unmap = true) ∧
        r = { acc with
          allocated := es.foldl (putEntry Entry.held) acc.allocated
          quarantined := es.foldl (putEntry (Entry.freeAt a.quarantine)) acc.quarantined } := by
    intro es
    induction es with
    | nil =>
      intro acc r
      rw [List.foldlM_nil]
      constructor
      · rintro ⟨⟩
        exact ⟨fun _ he => (List.not_mem_nil he).elim, rfl⟩
      · rintro ⟨_, rfl⟩
        rfl
    | cons e es ih =>
      intro acc r
      simp only [List.foldlM_cons, bind_eq_ok, hentry, ih, List.forall_mem_cons,
        List.foldl_cons, and_assoc]
      constructor
      · rintro ⟨_, hin, rfl, hes, hr⟩
        exact ⟨hin, hes, hr⟩
      · rintro ⟨hin, hes, hr⟩
        exact ⟨_, hin, rfl, hes, hr⟩
  simp only [restore, bind_eq_ok, hfold]
  constructor
  · rintro ⟨r, ⟨hin, rfl⟩, h⟩
    cases h
    exact ⟨hin, rfl⟩
  · rintro ⟨hin, rfl⟩
    exact ⟨_, ⟨hin, rfl⟩, rfl⟩

end Allocator

end Meshp.Ipam
