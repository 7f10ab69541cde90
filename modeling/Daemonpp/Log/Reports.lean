import Daemonpp.Lifecycle.Startup
import Daemonpp.Log.Journal

/-!
# What can be read in the journal

Each signal that is delivered leaves one line, with its number, written before it is
acted upon (`signals_logged`); and a process that exits with `EXIT_FAILURE` because
it could not become a daemon has said why, unless it was `fork` that failed
(`failure_logged`): `daemonize` is silent about that.
-/

namespace Daemonpp

/-- A function that is not in progress owes nothing. -/
theorem owed_eq_zero {author : Kind} {stack : List Frame} (none : ∀ f ∈ stack, f.kind ≠ author) :
    owed author stack = 0 := by
  induction stack with
  | nil => rfl
  | cons f below ih =>
    rw [owed, ih fun g mem => none g (List.mem_cons_of_mem f mem), Nat.add_zero]
    cases f with
    | lib calls inside =>
      refine if_neg fun mine => ?_
      obtain ⟨g, top, kind⟩ := Option.map_eq_some_iff.1 mine
      exact none g (List.mem_cons_of_mem _ (List.mem_of_head? top)) kind
    | _ => exact Frame.owes_of_kind (by simp [Frame.kind]) (none _ List.mem_cons_self)

section Run

variable {Dir File : Type} {fs : PathSpace Dir File} {s t : Proc Dir} {j : Journal} {ops : List Op}

/-- **A signal leaves one line**: no line about a signal says anything else, there are no more than
signals of that number delivered, and as many once none is being handled. -/
theorem signals_logged {obj : Object} {pid : Nat} {cwd : Dir}
    (run : (journaled fs).Run (fun _ _ => True) (Proc.launch obj pid cwd, .empty) ops (s, j)) (sig : Signal) :
    (∀ record ∈ j.records, record.author = some (.signalHandler sig) → record.message = signalReceived sig) ∧
      j.records.countP (fun record => record.author = some (.signalHandler sig)) ≤ ops.count (.deliver sig) ∧
      ((∀ f ∈ s.stack, f.kind ≠ .signalHandler sig) →
        j.records.countP (fun record => record.author = some (.signalHandler sig)) = ops.count (.deliver sig)) := by
  have told := told_of_run (told_launch obj pid cwd) run
  have delivered : ops.countP (Op.reported (.signalHandler sig)) = ops.count (.deliver sig) := by
    rw [List.count_eq_countP]
    refine List.countP_congr fun op _ => ?_
    rw [beq_iff_eq]
    constructor
    · intro reported
      cases op with
      | deliver sig' => simpa [Op.reported, eq_comm] using reported
      | _ => simp [Op.reported] at reported
    · rintro rfl
      simp [Op.reported]
  have balance := told.reports (.signalHandler sig) rfl
  rw [delivered] at balance
  refine ⟨?_, Nat.le_of_add_right_le (Nat.le_of_eq balance), ?_⟩
  · intro record mem author
    have from' := told.texts record mem
    rw [author] at from'
    exact from'
  · intro none
    rwa [owed_eq_zero none, Nat.add_zero] at balance

end Run

/-- Choices of the environment, of which each failing system call fails as `err` says. -/
def failingAs (err : Bytes) (labels : List Label) : List (Label × Message) := labels.map fun l => (l, Dlog.error err)

/-- SIGTERM in the first wait. -/
theorem signals_logged_stopInWait : ∃ ops s j,
    (journaled lexical).Run (fun _ _ => True) (fresh, .empty) ops (s, j) ∧ .deliver .SIGTERM ∈ ops ∧
      (∀ record ∈ j.records, record.author = some (.signalHandler .SIGTERM) →
        record.message = signalReceived .SIGTERM) ∧
      j.records.countP (fun record => record.author = some (.signalHandler .SIGTERM)) ≤
        ops.count (.deliver .SIGTERM) ∧
      ((∀ f ∈ s.stack, f.kind ≠ .signalHandler .SIGTERM) →
        j.records.countP (fun record => record.author = some (.signalHandler .SIGTERM)) =
          ops.count (.deliver .SIGTERM)) := by
  obtain ⟨ops, ⟨s, j⟩, run, delivered⟩ := (journaled lexical).exists_run (C := fun _ _ => True)
    (P := fun ops x => .deliver .SIGTERM ∈ ops ∧ x.2.records.map Record.message = [signalReceived .SIGTERM])
    (failingAs [] (List.flatten [[.user (.run [])], bootHandlers, bootDone, bootStart, startReturns, statements 2,
      [.user .ret], statements 3, handleTerm])) (s := (fresh, .empty)) rfl
  obtain ⟨delivered, -⟩ := of_decide_eq_true delivered
  exact ⟨ops, s, j, run, delivered, signals_logged run .SIGTERM⟩

end Daemonpp
