import Meshp.Base.Interleave
import Meshp.Session.Reachability

/-!
# Reports That Arrive Together

Many devices use one advertiser, and when it breaks they all say so at once. Each
report is a transaction that reads the stored snapshot, folds itself in, and
writes the whole snapshot back. Nothing is locked by the read, so two reports that
read the same snapshot each add themselves to it and the later write wins. The
first row such a transaction locks is the health row of the advertiser, so from
its upsert to its commit the others wait.
-/

namespace Meshp

namespace Health

theorem observe_fail_consecutiveFail {p : Policy} (hp : 0 < p.offlineAfter) (now : Time)
    (m : Snapshot) :
    (observe p now m { clientObserved := .fail }).1.consecutiveFail = m.consecutiveFail + 1 := by
  have hmoved := observe_moved hp now m (r := { clientObserved := .fail }) (by decide)
  rw [verdict_client_fail, desired_fail, heard_state] at hmoved
  generalize observe p now m { clientObserved := .fail } = out at hmoved
  have hcount : (heard m now .fail).consecutiveFail = m.consecutiveFail + 1 := rfl
  cases hmoved with
  | same reason h => exact hcount
  | held reason t himp ht hcool => exact hcount
  | committed reason h hcool =>
    -- Only losing contact clears the counters, and a report is contact.
    have hoffline :
        (if p.failThreshold ≤ (heard m now .fail).consecutiveFail then .unhealthy
          else m.state) ≠ Store.HealthState.offline := by
      intro hoff
      split at hoff
      · cases hoff
      · rename_i hthreshold
        rw [if_neg hthreshold, heard_state] at h
        exact h rfl
    exact (if_neg hoffline).trans hcount

end Health

namespace Session

open Base (run Along attempt Transaction Interleaved Move Fresh)
open Store (Id Refusal)

structure Reported where
  now : Health.Time
  req : ObserveRequest

def Reported.about (r : Reported) (a : Id) : ObserveRequest :=
  { r.req with advertiserId := a }

/-- `ObserveAdvertiser` under `READ COMMITTED`: `GetAdvertiserHealth` is a plain select, and
everything from `UpsertAdvertiserHealth` on goes by what it gave. -/
def observing (a : Id) (r : Reported) : Transaction Ledger Health.Snapshot Refusal where
  read w := w.held a
  write held w := observeFrom r.now held w (r.about a)

def oneByOne (a : Id) (w : Ledger) (rs : List Reported) : Ledger :=
  run (fun w r => attempt (observeAdvertiser r.now · (r.about a)) w) w rs

theorem serial_observing {ι : Type*} (a : Id) (reports : ι → Reported) (w : Ledger)
    (is : List ι) :
    Base.serial (fun i => observing a (reports i)) w is = oneByOne a w (is.map reports) := by
  unfold Base.serial oneByOne run
  rw [List.foldl_map]
  rfl

theorem bumpIf_tables {changed : Bool} {now : Store.Time} {m m' : Store.Mesh} {n : Id}
    (h : bumpIf changed now m n = .ok m') : m'.toTables = m.toTables := by
  unfold bumpIf at h
  split at h
  · rw [(Store.bumpVersion_ok [.routes] rfl h).1, Store.Mesh.toTables_recordAll]
  · cases h
    rfl

theorem held_observeFrom {now : Health.Time} {held : Health.Snapshot} {w w' : Ledger}
    {req : ObserveRequest} (h : observeFrom now held w req = .ok w') :
    w'.held req.advertiserId = conclude now held req.observed := by
  rcases observeFrom_ok h with ⟨_, hmesh, hcounters⟩
  have htables := bumpIf_tables hmesh
  simp only [Ledger.held, htables, hcounters, Store.putHealth, List.find?_cons, decide_true,
    Function.update_self]

theorem failure_adds_one {now : Health.Time} {w w' : Ledger} (req : ObserveRequest)
    (hfail : req.observed = .fail) (h : observeAdvertiser now w req = .ok w') :
    (w'.held req.advertiserId).consecutiveFail =
      (w.held req.advertiserId).consecutiveFail + 1 := by
  rw [held_observeFrom h, conclude, hfail]
  exact Health.observe_fail_consecutiveFail (Health.withDefaults_offlineAfter _) now _

/-- Where each report still finds, when it writes, the snapshot it read, the reports leave what they
leave one after another, in the order they finished: the health row, the versions and what each bump
logged, and who uses what. Each failing report that is taken is one more in the run of failures. -/
theorem reports_serial {ι : Type*} [DecidableEq ι] (a : Id) (reports : ι → Reported) (w : Ledger)
    (moves : List (Move ι))
    (h : Along (Interleaved.step fun i => observing a (reports i))
      (Fresh fun i => observing a (reports i)) { store := w } moves) :
    let done := run (Interleaved.step fun i => observing a (reports i)) { store := w } moves
    done.finished.Nodup ∧ (∀ i, i ∈ done.finished ↔ done.phase i = .finished) ∧
    done.store = oneByOne a w (done.finished.map reports) ∧
    ∀ is i js, done.finished = is ++ i :: js → (reports i).req.observed = .fail →
      ∀ w', observeAdvertiser (reports i).now (oneByOne a w (is.map reports))
          ((reports i).about a) = .ok w' →
        (w'.held a).consecutiveFail =
          ((oneByOne a w (is.map reports)).held a).consecutiveFail + 1 := by
  intro done
  have hrecorded := Base.recorded_run (fun i => observing a (reports i)) w moves
  have hserial := Base.store_eq_serial (fun i => observing a (reports i)) w moves h
  rw [serial_observing] at hserial
  refine ⟨hrecorded.1, hrecorded.2, hserial, ?_⟩
  intro is i js _ hfail w' hw'
  exact failure_adds_one ((reports i).about a) hfail hw'

/-- Three devices that cannot reach the gateway of `lab`. -/
def outage (i : Fin 3) : Reported :=
  ⟨5000 + i, { networkId := 2, advertiserId := 10, observed := .fail, membershipId := none }⟩

/-- The gateway of `lab` after a schedule of the three reports. -/
def afterOutage (moves : List (Move (Fin 3))) : Interleaved Ledger (Fin 3) Health.Snapshot :=
  run (Interleaved.step fun i => observing 10 (outage i))
    { store := run (Ledger.step Store.trusting) {} lab } moves

theorem reports_serial_outage :
    (afterOutage [.read 0, .write 0, .read 2, .write 2, .read 1, .write 1]).store =
        oneByOne 10 (run (Ledger.step Store.trusting) {} lab) ([0, 2, 1].map outage) ∧
      ((afterOutage [.read 0, .write 0, .read 2, .write 2, .read 1, .write 1]).store.held 10).state
        = .unhealthy := by
  refine ⟨?_, by decide +kernel⟩
  exact (reports_serial 10 outage (run (Ledger.step Store.trusting) {} lab)
    [.read 0, .write 0, .read 2, .write 2, .read 1, .write 1] (by decide +kernel)).2.2.1

/-- Three devices that find the gateway unreachable at the same moment are counted as one, and
nobody is told; one after another, in any order, they make it unhealthy and move the version. -/
theorem outage_counted_once :
    let together := (afterOutage [.read 0, .read 1, .read 2, .write 0, .write 1, .write 2]).store
    (together.held 10).consecutiveFail = 1 ∧ (together.held 10).state = .healthy ∧
    ∀ i j k : Fin 3, [i, j, k].Nodup →
      let alone := oneByOne 10 (run (Ledger.step Store.trusting) {} lab) ([i, j, k].map outage)
      (alone.held 10).consecutiveFail = 3 ∧ (alone.held 10).state = .unhealthy ∧
        alone.held 10 ≠ together.held 10 ∧
        alone.mesh.version 2 = together.mesh.version 2 + 1 := by
  decide +kernel

end Session

end Meshp
