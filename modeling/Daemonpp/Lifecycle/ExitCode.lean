import Daemonpp.Process.Effect
import Daemonpp.Process.Launch

/-!
# The exit status

Every `stop(code)` stores its code in `m_exit_code`, whether or not it is the one
that ends the run, and `~daemon` passes what it finds there to `std::exit`. So the
status is the code of the last `stop` to have stored one (`exit_last_code`), and a
SIGTERM that arrives while `on_stop` runs replaces the code of the `stop` that
ended the run (`failure_masked`). The invariant `Coded` follows the stores through
the run and keeps each `stop` behind its own.
-/

namespace Daemonpp

/-- The code a `stop` stores. -/
def Op.stores : Op → Option Int
  | .exitCode code => some code
  | _ => none

/-- The codes stored in `m_exit_code`, oldest first. -/
def storedCodes (ops : List Op) : List Int := ops.filterMap Op.stores

/-- The flag, and the code of the `stop` that lowered it last. -/
def Op.ending (flag : Bool × Option Int) : Op → Bool × Option Int
  | .setRunning => (true, flag.2)
  | .clearRunning code => (false, if flag.1 then some code else flag.2)
  | _ => flag

/-- The code of the `stop` that ended the run: it changed `m_is_running` from true to false. -/
def endingCode (ops : List Op) : Option Int := (ops.foldl Op.ending (false, none)).2

section Run

variable {Dir File : Type} {fs : PathSpace Dir File} {s t : Proc Dir} {l : Label} {op : Op} {ops : List Op}

/-- What a run tells about `m_exit_code`, which was `initial` at its start. -/
structure Coded (initial : Option Int) (ops : List Op) (s : Proc Dir) : Prop where
  last : s.world.obj.exitCode = (storedCodes ops).getLast?.or initial
  /-- A `stop` lowers the flag behind storing its code. -/
  frames : ∀ handler code, .stop handler code .flag ∈ s.stack → .exitCode code ∈ ops
  threads : ∀ code, (code, .flag) ∈ s.threads → .exitCode code ∈ ops
  cleared : ∀ code, .clearRunning code ∈ ops → .exitCode code ∈ ops

/-- The flag is lowered by a `stop` that was about to. -/
theorem clear_from {code : Int} (step : s.step fs l = some (.clearRunning code, t)) :
    (∃ handler, .stop handler code .flag ∈ s.stack) ∨ (code, .flag) ∈ s.threads := by
  obtain ⟨-, -, cases⟩ := step_cases step
  cases cases with
  | signal _ performs => cases performs
  | thread performs =>
    generalize t.threads = threads at performs
    cases performs with
    | flag at' => exact .inr (List.mem_of_getElem? at')
  | move top moves =>
    rw [top]
    cases moves with
    | @stop handler _ _ _ _ _ h =>
      cases h with
      | flag => exact .inl ⟨handler, List.mem_cons_self⟩
    | run _ h | daemonize _ h | signalHandler _ h | fromFile _ h | lib _ h | owner _ h | user h => cases h

theorem Coded.step {initial : Option Int} (h : Coded initial ops s) (step : s.step fs l = some (op, t)) :
    Coded initial (ops ++ [op]) t where
  last := by
    obtain ⟨-, world, -⟩ := step_cases step
    rw [world, Op.apply_exitCode, h.last, storedCodes, storedCodes, List.filterMap_append]
    unfold Op.exitCodeAfter
    split
    · simp [Op.stores]
    · rename_i other
      have none : op.stores = none := by
        unfold Op.stores
        split
        · exact absurd rfl (other _)
        · rfl
      simp [none]
  frames := by
    intro handler code mem
    cases stop_origin step mem with
    | before mem => exact List.mem_append_left _ (h.frames handler code mem)
    | stored performs => exact List.mem_append_right _ (List.mem_singleton.2 performs.symm)
  threads := by
    intro code mem
    cases thread_origin step mem with
    | before mem => exact List.mem_append_left _ (h.threads code mem)
    | stored performs => exact List.mem_append_right _ (List.mem_singleton.2 performs.symm)
  cleared := by
    intro code cleared
    refine List.mem_append_left _ ?_
    rcases List.mem_append.1 cleared with before | now
    · exact h.cleared code before
    · obtain rfl := List.mem_singleton.1 now
      rcases clear_from step with ⟨handler, mem⟩ | mem
      · exact h.frames handler code mem
      · exact h.threads code mem

theorem coded_launch (obj : Object) (pid : Nat) (cwd : Dir) : Coded obj.exitCode [] (Proc.launch obj pid cwd) where
  last := rfl
  frames _ _ mem := by simp [Proc.launch] at mem
  threads := nofun
  cleared := nofun

/-- **The exit status is the code of the last `stop`** to have stored one when `~daemon`
reads it, in every run in which some `stop` has lowered the flag. -/
theorem exit_last_code {obj : Object} {pid : Nat} {cwd : Dir} {before after : List Op} {value : Option Int} {code : Int}
    (run : (process fs).Run (fun _ _ => True) (Proc.launch obj pid cwd) (before ++ .exitDtor value :: after) t)
    (stopped : .clearRunning code ∈ before) :
    ∃ last, (storedCodes before).getLast? = some last ∧ value = some last := by
  obtain ⟨u, v, first, ⟨l, -, step⟩, -⟩ := run.cut
  have coded : Coded obj.exitCode before u :=
    first.invariant (coded_launch obj pid cwd) fun _ coded ⟨_, _, step⟩ => coded.step step
  have read : value = u.world.obj.exitCode := by
    have ⟨_, rest, move, _, .owner _ reads, _⟩ := performs_of_step step rfl
    cases reads with
    | exit => rfl
  have nonempty : storedCodes before ≠ [] :=
    List.ne_nil_of_mem (List.mem_filterMap.2 ⟨_, coded.cleared code stopped, rfl⟩)
  refine ⟨(storedCodes before).getLast nonempty, List.getLast?_eq_some_getLast nonempty, ?_⟩
  rw [read, coded.last, List.getLast?_eq_some_getLast nonempty, Option.some_or]

end Run

/-- A call of `run` whose first `on_update` calls `stop(EXIT_FAILURE)`, up to its `on_stop`. -/
def failingUpdate : List Label :=
  List.flatten [[.user (.run [])], bootHandlers, bootDone, bootStart, startReturns, statements 2,
    [.user (.stop EXIT_FAILURE)], statements 3, [.user .ret], statements 5]

/-- The return of `on_stop` and of `run`, and the destruction of the object. -/
def leaveAndDestroy : List Label :=
  List.flatten [[.user .ret], statements 1, [.user .destroy], statements 2, libCalls 1, statements 1]

theorem exit_last_code_failingUpdate : ∃ before after t value,
    (process lexical).Run (fun _ _ => True) fresh (before ++ .exitDtor value :: after) t ∧
      .clearRunning EXIT_FAILURE ∈ before ∧
      ∃ last, (storedCodes before).getLast? = some last ∧ value = some last := by
  obtain ⟨ops, t, run, ends⟩ := (process lexical).exists_run (C := fun _ _ => True)
    (P := fun ops _ => ops.getLast? = some (.exitDtor (some EXIT_FAILURE)) ∧
      .clearRunning EXIT_FAILURE ∈ ops.dropLast) (failingUpdate ++ leaveAndDestroy) (s := fresh) rfl
  obtain ⟨last, stopped⟩ := of_decide_eq_true ends
  rw [← List.dropLast_append_getLast? _ last] at run
  exact ⟨_, [], t, _, run, stopped, exit_last_code run stopped⟩

/-- **A masked failure**: the run is ended by `stop(EXIT_FAILURE)`, SIGTERM arrives while
`on_stop` runs, and the process exits with `EXIT_SUCCESS`. -/
theorem failure_masked : ∃ ops t, (process lexical).Run (fun _ _ => True) fresh ops t ∧
    endingCode ops = some EXIT_FAILURE ∧ .exitDtor (some EXIT_SUCCESS) ∈ ops := by
  obtain ⟨ops, t, run, masked⟩ := (process lexical).exists_run (C := fun _ _ => True)
    (P := fun ops _ => endingCode ops = some EXIT_FAILURE ∧ .exitDtor (some EXIT_SUCCESS) ∈ ops)
    (failingUpdate ++ handleTerm ++ leaveAndDestroy) (s := fresh) rfl
  exact ⟨ops, t, run, of_decide_eq_true masked⟩

end Daemonpp
