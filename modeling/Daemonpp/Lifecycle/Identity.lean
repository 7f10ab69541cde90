import Daemonpp.Process.Daemonize
import Daemonpp.Process.Effect
import Daemonpp.Process.Launch

/-!
# The identity of the daemon

`get_pid`, `get_sid` and `~daemon` read members that no constructor (`m_pid`,
`m_sid`) or only one of the two (`m_exit_code`) initialises; and `m_pid` holds what
`fork` returned, which is 0 in the process that goes on. So a read is one of a
stored value only behind the statement that stores it, and behind `daemonize`
`get_pid` never is the id of the process (`identity_valid_iff`, `identity_invalid`).
The invariant `Forked` follows the result of `fork` through the run.
-/

namespace Daemonpp

/-- An object as a constructor leaves it. -/
def Object.Built (obj : Object) : Prop :=
  (∃ name cwd duration, obj = .construct name cwd duration) ∨ obj = .unknown

/-- The kernel gives a child a positive id. -/
def Op.kernelId : Op → Bool
  | .fork 0 pid => 0 < pid
  | _ => true

def Op.storesPid : Op → Bool
  | .fork _ _ => true
  | _ => false

def Op.storesSid : Op → Bool
  | .setsid _ => true
  | _ => false

def Op.storesExitCode : Op → Bool
  | .exitCode _ => true
  | _ => false

/-- Every read of `m_pid`, `m_sid` and `m_exit_code` returns a value that has been stored. -/
structure ReadsStored (ops : List Op) : Prop where
  pid : ∀ value, .getPid value ∈ ops → value ≠ none
  sid : ∀ value, .getSid value ∈ ops → value ≠ none
  exitCode : ∀ value, .exitDtor value ∈ ops → value ≠ none

/-- Every read is behind a statement that stores the member, or finds what the constructor
of `obj` left there. -/
structure ReadsBehindStores (obj : Object) (ops : List Op) : Prop where
  pid : ∀ before value after, ops = before ++ .getPid value :: after → before.any Op.storesPid = true
  sid : ∀ before value after, ops = before ++ .getSid value :: after → before.any Op.storesSid = true
  exitCode : ∀ before value after, ops = before ++ .exitDtor value :: after →
    obj.exitCode ≠ none ∨ before.any Op.storesExitCode = true

/-- `daemonize` has returned in the process, and it is not on its way out of another one. -/
def Daemonized {Dir : Type} (ops : List Op) (t : Proc Dir) : Prop :=
  (.setRunning ∈ ops ∨ ∃ argv, .run argv .running ∈ t.stack) ∧ ∀ f ∈ t.stack, f.leaving = false

/-- The identity of the daemon is valid: reads return stored values, and behind `daemonize`
`get_pid` is the id of the process and of its session. -/
structure IdentityValid {Dir : Type} (ops : List Op) (t : Proc Dir) : Prop where
  reads : ReadsStored ops
  own : Daemonized ops t → t.world.obj.pid = some (t.world.pid : Int) ∧ t.world.obj.sid = t.world.obj.pid

section Run

variable {Dir File : Type} {fs : PathSpace Dir File} {s t : Proc Dir} {l : Label} {op : Op} {ops : List Op}
variable {obj : Object} {pid : Nat} {cwd : Dir}

/-! ## Stored values -/

/-- A member holds a value once a constructor or an operation has stored one. -/
theorem stored_iff (field : Object → Option Int) {after : Option Int → Op → Option Int} {stores : Op → Bool}
    (apply : ∀ (w : World Dir) op, field (op.apply fs w).obj = after (field w.obj) op)
    (store : ∀ old op, after old op ≠ none ↔ old ≠ none ∨ stores op = true) {C : Proc Dir → Label → Prop}
    (run : (process fs).Run C s ops t) :
    field t.world.obj ≠ none ↔ field s.world.obj ≠ none ∨ ops.any stores = true := by
  refine run.invariant (I := fun ops t => field t.world.obj ≠ none ↔
    field s.world.obj ≠ none ∨ ops.any stores = true) (by simp) ?_
  rintro ops u op v - ih ⟨l, -, step⟩
  obtain ⟨-, world, -⟩ := step_cases step
  rw [world, apply, store, ih, List.any_append]
  simp [or_assoc]

theorem pid_stored {C : Proc Dir → Label → Prop} (run : (process fs).Run C s ops t) :
    t.world.obj.pid ≠ none ↔ s.world.obj.pid ≠ none ∨ ops.any Op.storesPid = true :=
  stored_iff Object.pid (fun w op => op.apply_pid fs w)
    (fun old op => by cases op <;> simp [Op.pidAfter, Op.storesPid]) run

theorem sid_stored {C : Proc Dir → Label → Prop} (run : (process fs).Run C s ops t) :
    t.world.obj.sid ≠ none ↔ s.world.obj.sid ≠ none ∨ ops.any Op.storesSid = true :=
  stored_iff Object.sid (fun w op => op.apply_sid fs w)
    (fun old op => by cases op <;> simp [Op.sidAfter, Op.storesSid]) run

theorem exitCode_stored {C : Proc Dir → Label → Prop} (run : (process fs).Run C s ops t) :
    t.world.obj.exitCode ≠ none ↔ s.world.obj.exitCode ≠ none ∨ ops.any Op.storesExitCode = true :=
  stored_iff Object.exitCode (fun w op => op.apply_exitCode fs w)
    (fun old op => by cases op <;> simp [Op.exitCodeAfter, Op.storesExitCode]) run

/-! ## Reads -/

/-- A read returns what the member holds. -/
theorem read_of_step (step : s.step fs l = some (op, t)) :
    (∀ value, op = .getPid value → value = s.world.obj.pid) ∧
      (∀ value, op = .getSid value → value = s.world.obj.sid) ∧
        ∀ value, op = .exitDtor value → value = s.world.obj.exitCode := by
  refine ⟨?_, ?_, ?_⟩
  · rintro value rfl
    have ⟨f, rest, move, _, .user _ reads, _⟩ := performs_of_step step rfl
    cases reads with
    | getPid => rfl
  · rintro value rfl
    have ⟨f, rest, move, _, .user _ reads, _⟩ := performs_of_step step rfl
    cases reads with
    | getSid => rfl
  · rintro value rfl
    have ⟨_, rest, move, _, .owner _ reads, _⟩ := performs_of_step step rfl
    cases reads with
    | exit => rfl

/-- **A read returns a stored value exactly when a store is ahead of it.** -/
theorem readsStored_iff (built : obj.Built)
    (run : (process fs).Run (fun _ _ => True) (Proc.launch obj pid cwd) ops t) :
    ReadsStored ops ↔ ReadsBehindStores obj ops := by
  have unset : obj.pid = none ∧ obj.sid = none := by
    obtain ⟨name, cwd, duration, rfl⟩ | rfl := built <;> exact ⟨rfl, rfl⟩
  have pid_read : ∀ {before value after}, ops = before ++ .getPid value :: after →
      (value ≠ none ↔ before.any Op.storesPid = true) := by
    rintro before value after rfl
    obtain ⟨u, v, first, ⟨l, -, step⟩, -⟩ := run.cut
    rw [(read_of_step step).1 value rfl, pid_stored first]
    simp [Proc.launch, unset.1]
  have sid_read : ∀ {before value after}, ops = before ++ .getSid value :: after →
      (value ≠ none ↔ before.any Op.storesSid = true) := by
    rintro before value after rfl
    obtain ⟨u, v, first, ⟨l, -, step⟩, -⟩ := run.cut
    rw [(read_of_step step).2.1 value rfl, sid_stored first]
    simp [Proc.launch, unset.2]
  have code_read : ∀ {before value after}, ops = before ++ .exitDtor value :: after →
      (value ≠ none ↔ obj.exitCode ≠ none ∨ before.any Op.storesExitCode = true) := by
    rintro before value after rfl
    obtain ⟨u, v, first, ⟨l, -, step⟩, -⟩ := run.cut
    rw [(read_of_step step).2.2 value rfl, exitCode_stored first]
    rfl
  constructor
  · intro stored
    constructor
    · exact fun before value after same => (pid_read same).1 (stored.pid value (by simp [same]))
    · exact fun before value after same => (sid_read same).1 (stored.sid value (by simp [same]))
    · exact fun before value after same => (code_read same).1 (stored.exitCode value (by simp [same]))
  · intro behind
    constructor
    · intro value mem
      obtain ⟨before, after, same⟩ := List.append_of_mem mem
      exact (pid_read same).2 (behind.pid before value after same)
    · intro value mem
      obtain ⟨before, after, same⟩ := List.append_of_mem mem
      exact (sid_read same).2 (behind.sid before value after same)
    · intro value mem
      obtain ⟨before, after, same⟩ := List.append_of_mem mem
      exact (code_read same).2 (behind.exitCode before value after same)

/-! ## The result of `fork` -/

/-- What `m_pid` tells: nothing but the result of a `fork`, which is 0 in a process that is
not on its way out, and whose own id is positive. -/
structure Forked (ops : List Op) (s : Proc Dir) : Prop where
  stacked : WellStacked s.stack
  within : ∀ f ∈ s.stack, f.Within True (fun pc => pc = .fork ∨ s.world.obj.pid ≠ none) (s.world.obj.pid ≠ none)
  running : .setRunning ∈ ops → s.world.obj.pid ≠ none
  result : ∀ value, s.world.obj.pid = some value → value = 0 ∧ 0 < s.world.pid ∨ ∃ f ∈ s.stack, f.leaving = true

theorem forked_launch (built : obj.Built) : Forked [] (Proc.launch obj pid cwd) where
  stacked := stacked_launch obj pid cwd
  within f mem := by
    obtain rfl := List.mem_singleton.1 mem
    trivial
  running := nofun
  result value stored := by
    obtain ⟨name, cwd, duration, rfl⟩ | rfl := built <;> cases stored

theorem Forked.step (h : Forked ops s) (positive : op.kernelId = true) (step : s.step fs l = some (op, t)) :
    Forked (ops ++ [op]) t := by
  obtain ⟨-, world, -⟩ := step_cases step
  have pid' : t.world.obj.pid = op.pidAfter s.world.obj.pid := by rw [world, Op.apply_pid]
  have kept : s.world.obj.pid ≠ none → t.world.obj.pid ≠ none := by
    intro stored
    rw [pid']
    unfold Op.pidAfter
    split
    · nofun
    · exact stored
  constructor
  · exact h.stacked.step step
  · refine within_step h.stacked step h.within id (fun pc => .imp id kept) kept
      (fun _ => .inl rfl) (fun _ => trivial) ?_
    intro pc move moves inside
    cases moves with
    | parent | noFork | child => exact .inr (by rw [pid']; nofun)
    | exit => trivial
    | closeLast => exact kept (inside.resolve_left nofun)
    | _ => exact .inr (kept (inside.resolve_left nofun))
  · intro mem
    rcases List.mem_append.1 mem with before | now
    · exact kept (h.running before)
    · obtain rfl := List.mem_singleton.1 now
      have ⟨_, rest, move, top, .run _ sets, _⟩ := performs_of_step step rfl
      have known := h.within _ (top ▸ List.mem_cons_self)
      cases sets with
      | running => exact kept (known.2 rfl)
  · intro value stored
    rw [pid'] at stored
    by_cases forks : op.storesPid = true
    · -- the parent leaves, and so does a process that could not fork
      cases op with
      | fork result child =>
        cases stored
        have ⟨_, rest, move, top, .daemonize _ forks, after⟩ := performs_of_step step rfl
        cases forks with
        | parent | noFork => exact .inr ⟨_, by rw [after]; exact List.mem_cons_self, rfl⟩
        | child =>
          refine .inl ⟨rfl, ?_⟩
          rw [world, Op.apply_ownPid]
          exact of_decide_eq_true positive
      | _ => cases forks
    · have same : op.pidAfter s.world.obj.pid = s.world.obj.pid ∧ op.ownPid s.world.pid = s.world.pid := by
        cases op with
        | fork => exact absurd rfl forks
        | _ => exact ⟨rfl, rfl⟩
      rw [same.1] at stored
      have own : t.world.pid = s.world.pid := by rw [world, Op.apply_ownPid, same.2]
      rw [own]
      exact (h.result value stored).imp id (leaving_step step)

theorem forked_of_run (built : obj.Built) (ids : ∀ op ∈ ops, op.kernelId = true)
    (run : (process fs).Run (fun _ _ => True) (Proc.launch obj pid cwd) ops t) : Forked ops t := by
  refine run.invariant (I := fun ops t => (∀ op ∈ ops, op.kernelId = true) → Forked ops t)
    (fun _ => forked_launch built) ?_ ids
  rintro ops u op v - ih ⟨l, -, step⟩ ids
  exact (ih fun op mem => ids op (List.mem_append_left _ mem)).step (ids op (by simp)) step

/-- Behind `daemonize`, `m_pid` is 0, and the id of the process is not. -/
theorem pid_of_daemonized (forked : Forked ops t) (daemonized : Daemonized ops t) :
    t.world.obj.pid = some 0 ∧ 0 < t.world.pid := by
  have stored : t.world.obj.pid ≠ none := by
    rcases daemonized.1 with set | ⟨argv, mem⟩
    · exact forked.running set
    · exact (forked.within _ mem).2 rfl
  obtain ⟨value, same⟩ := Option.ne_none_iff_exists'.1 stored
  rcases forked.result value same with ⟨rfl, positive⟩ | ⟨f, mem, leaves⟩
  · exact ⟨same, positive⟩
  · rw [daemonized.2 f mem] at leaves
    cases leaves

/-- **When the identity is valid**: the reads are behind the stores, and `daemonize` has not
returned. -/
theorem identity_valid_iff (built : obj.Built) (ids : ∀ op ∈ ops, op.kernelId = true)
    (run : (process fs).Run (fun _ _ => True) (Proc.launch obj pid cwd) ops t) :
    IdentityValid ops t ↔ ReadsBehindStores obj ops ∧ ¬ Daemonized ops t := by
  constructor
  · intro valid
    refine ⟨(readsStored_iff built run).1 valid.reads, fun daemonized => ?_⟩
    obtain ⟨zero, positive⟩ := pid_of_daemonized (forked_of_run built ids run) daemonized
    have own := (valid.own daemonized).1
    rw [zero] at own
    have same : (0 : Int) = t.world.pid := Option.some.inj own
    omega
  · rintro ⟨behind, not⟩
    exact ⟨(readsStored_iff built run).2 behind, fun daemonized => absurd daemonized not⟩

end Run

/-- `on_reload` asks for the id, behind a SIGHUP that arrives before `m_is_running` is set. -/
def askInReload : List Label :=
  List.flatten [[.user (.run [])], bootHandlers, handleHup, [.user .getPid, .user .getSid]]

theorem identity_valid_iff_askInReload : ∃ ops t,
    (process lexical).Run (fun _ _ => True) fresh ops t ∧ .getPid (some 0) ∈ ops ∧ .getSid (some 2) ∈ ops ∧
      (IdentityValid ops t ↔ ReadsBehindStores (.construct (bytes "service")) ops ∧ ¬ Daemonized ops t) := by
  obtain ⟨ops, t, run, asked⟩ := (process lexical).exists_run (C := fun _ _ => True)
    (P := fun ops _ => .getPid (some 0) ∈ ops ∧ .getSid (some 2) ∈ ops ∧ ∀ op ∈ ops, op.kernelId = true)
    askInReload (s := fresh) rfl
  obtain ⟨pid, sid, ids⟩ := of_decide_eq_true asked
  exact ⟨ops, t, run, pid, sid, identity_valid_iff (.inl ⟨_, _, _, rfl⟩) ids run⟩

/-- The object is destroyed by its owner, who has not called `run`. -/
def destroyUnused : List Label := List.flatten [[.user .getPid, .user .destroy], statements 2, libCalls 1, statements 1]

/-- `run` up to `on_start`, which asks for the id. -/
def askInStart : List Label := List.flatten [[.user (.run [])], bootHandlers, bootDone, bootStart, [.user .getPid]]

/-- **Two ways to read what is not there**: an object of the default constructor that is
destroyed without a `stop` exits with an indeterminate status, and `get_pid` in `on_start`
is not the id of the process. -/
theorem identity_invalid :
    (∃ ops t, (process lexical).Run (fun _ _ => True) (Proc.launch .unknown 1 (bytes "/")) ops t ∧
      .getPid none ∈ ops ∧ .exitDtor none ∈ ops ∧ ¬ ReadsStored ops) ∧
    ∃ ops t, (process lexical).Run (fun _ _ => True) fresh ops t ∧ (∀ op ∈ ops, op.kernelId = true) ∧
      Daemonized ops t ∧ .getPid (some 0) ∈ ops ∧ t.world.pid = 2 ∧ ¬ IdentityValid ops t := by
  constructor
  · obtain ⟨ops, t, run, reads⟩ := (process lexical).exists_run (C := fun _ _ => True)
      (P := fun ops _ => .getPid none ∈ ops ∧ .exitDtor none ∈ ops)
      destroyUnused (s := Proc.launch .unknown 1 (bytes "/")) rfl
    obtain ⟨pid, code⟩ := of_decide_eq_true reads
    exact ⟨ops, t, run, pid, code, fun stored => stored.pid none pid rfl⟩
  · obtain ⟨ops, t, run, all⟩ := (process lexical).exists_run (C := fun _ _ => True)
      (P := fun ops t => (∀ op ∈ ops, op.kernelId = true) ∧ .setRunning ∈ ops ∧
        (∀ f ∈ t.stack, f.leaving = false) ∧ .getPid (some 0) ∈ ops ∧ t.world.pid = 2 ∧ t.world.obj.pid = some 0)
      askInStart (s := fresh) rfl
    obtain ⟨ids, set, stays, asked, own, pid⟩ := of_decide_eq_true all
    refine ⟨ops, t, run, ids, ⟨.inl set, stays⟩, asked, own, fun valid => ?_⟩
    have same := (valid.own ⟨.inl set, stays⟩).1
    rw [pid, own] at same
    cases same

end Daemonpp
