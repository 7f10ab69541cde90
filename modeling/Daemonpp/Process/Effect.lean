import Daemonpp.Process.World

/-!
# What an operation leaves alone

`Op.apply_eq` says for each part of the shared data what an operation makes of it;
only the descriptors are left to `Daemonpp.Process.Descriptors`. The invariants of
the process follow the data through a run with the projections of that equation
and never unfold `Op.apply`.
-/

namespace Daemonpp

/-! ## The parts -/

/-- `m_pid` behind an operation. -/
def Op.pidAfter (old : Option Int) : Op → Option Int
  | .fork result _ => some result
  | _ => old

/-- `m_sid` behind an operation. -/
def Op.sidAfter (old : Option Int) : Op → Option Int
  | .setsid result => some result
  | _ => old

/-- `m_config_file` behind an operation. -/
def Op.configFileAfter (old : Bytes) : Op → Bytes
  | .configFile path => path
  | _ => old

/-- `m_name` behind an operation. -/
def Op.nameAfter (old : Bytes) : Op → Bytes
  | .setName name => name
  | _ => old

/-- `m_cwd` behind an operation. -/
def Op.pathAfter (old : Bytes) : Op → Bytes
  | .setCwd path true => path
  | _ => old

/-- `m_update_duration` behind an operation. -/
def Op.durationAfter (old : Int) : Op → Int
  | .setUpdateDuration duration => duration
  | _ => old

/-- `m_is_running` behind an operation. -/
def Op.isRunning (up : Bool) : Op → Bool
  | .setRunning => true
  | .clearRunning _ => false
  | _ => up

/-- `m_exit_code` behind an operation. -/
def Op.exitCodeAfter (old : Option Int) : Op → Option Int
  | .exitCode code => some code
  | _ => old

/-- The id of the process behind an operation: that of the child, in the child. -/
def Op.ownPid (old : Nat) : Op → Nat
  | .fork result pid => if result = 0 then pid else old
  | _ => old

/-- The working directory behind an operation. -/
def Op.cwdAfter {Dir File : Type} (fs : PathSpace Dir File) (cwd : Dir) : Op → Dir
  | .chdir path true | .setCwd path true => fs.enter cwd path
  | _ => cwd

/-- The handlers installed behind an operation. -/
def Op.handledAfter (handled : List Signal) : Op → List Signal
  | .install sig => if sig = .SIGKILL then handled else sig :: handled
  | _ => handled

/-- The locks held behind an operation. -/
def Op.heldAfter (held : List Lock) : Op → List Lock
  | .acquire call => call.lock :: held
  | .finish call _ => held.erase call.lock
  | _ => held

/-- Whether `m_mutex` is taken behind an operation. -/
def Op.mutexAfter (taken : Bool) : Op → Bool
  | .lockMutex | .wake => true
  | .unlockMutex | .wait => false
  | _ => taken

/-- The threads blocked on `m_update_cv` behind an operation. -/
def Op.waitersAfter (waiters : List Bool) : Op → List Bool
  | .notifyAll _ => waiters.map fun _ => true
  | .wait => false :: waiters
  | .wake => waiters.tail
  | _ => waiters

/-- Whether the object is of the derived class behind an operation. -/
def Op.derivedAfter (derived : Bool) : Op → Bool
  | .destroyed => false
  | _ => derived

/-- Whether the process has ended behind an operation. -/
def Op.statusAfter (status : Status) : Op → Status
  | .pureVirtual | .outOfRange | .terminate => .finished
  | _ => status

/-! ## The operation -/

variable {Dir File : Type} (fs : PathSpace Dir File) (w : World Dir) (op : Op)

theorem World.disconnectLog_eq :
    w.disconnectLog = { w with fds := w.disconnectLog.fds, logFd := w.disconnectLog.logFd } := by
  unfold World.disconnectLog
  split <;> rfl

theorem World.sendLog_eq (answer : Answer) :
    w.sendLog answer = { w with fds := (w.sendLog answer).fds, logFd := (w.sendLog answer).logFd } := by
  cases answer with
  | ok =>
    simp only [World.sendLog]
    split
    · rfl
    · rw [World.disconnectLog_eq]
      rfl
  | reconnected =>
    rw [World.sendLog, World.disconnectLog_eq]
    rfl
  | failed => exact w.disconnectLog_eq

/-- **What an operation does**, part by part, but for the descriptors. -/
theorem Op.apply_eq : op.apply fs w =
    { obj :=
        { pid := op.pidAfter w.obj.pid, sid := op.sidAfter w.obj.sid,
          configFile := op.configFileAfter w.obj.configFile, name := op.nameAfter w.obj.name,
          cwd := op.pathAfter w.obj.cwd, updateDuration := op.durationAfter w.obj.updateDuration,
          isRunning := op.isRunning w.obj.isRunning, exitCode := op.exitCodeAfter w.obj.exitCode },
      pid := op.ownPid w.pid, cwd := op.cwdAfter fs w.cwd, handled := op.handledAfter w.handled,
      held := op.heldAfter w.held, mutex := op.mutexAfter w.mutex, waiters := op.waitersAfter w.waiters,
      fds := (op.apply fs w).fds, logFd := (op.apply fs w).logFd,
      derived := op.derivedAfter w.derived, status := op.statusAfter w.status } := by
  cases op with
  | chdir path ok | setCwd path ok => cases ok <;> rfl
  | install sig => cases sig <;> rfl
  | openConfig path fd | closeConfig fd => cases fd <;> rfl
  | finish call answer =>
    cases call with
    | heap | openlog => rfl
    | syslog =>
      rw [Op.apply, World.sendLog_eq]
      rfl
    | closelog =>
      rw [Op.apply, World.disconnectLog_eq]
      rfl
  | _ => rfl

theorem Op.apply_pid : (op.apply fs w).obj.pid = op.pidAfter w.obj.pid := by rw [op.apply_eq]

theorem Op.apply_sid : (op.apply fs w).obj.sid = op.sidAfter w.obj.sid := by rw [op.apply_eq]

theorem Op.apply_configFile : (op.apply fs w).obj.configFile = op.configFileAfter w.obj.configFile := by
  rw [op.apply_eq]

theorem Op.apply_name : (op.apply fs w).obj.name = op.nameAfter w.obj.name := by rw [op.apply_eq]

theorem Op.apply_path : (op.apply fs w).obj.cwd = op.pathAfter w.obj.cwd := by rw [op.apply_eq]

theorem Op.apply_isRunning : (op.apply fs w).obj.isRunning = op.isRunning w.obj.isRunning := by rw [op.apply_eq]

theorem Op.apply_exitCode : (op.apply fs w).obj.exitCode = op.exitCodeAfter w.obj.exitCode := by rw [op.apply_eq]

theorem Op.apply_ownPid : (op.apply fs w).pid = op.ownPid w.pid := by rw [op.apply_eq]

theorem Op.apply_cwd : (op.apply fs w).cwd = op.cwdAfter fs w.cwd := by rw [op.apply_eq]

theorem Op.apply_handled : (op.apply fs w).handled = op.handledAfter w.handled := by rw [op.apply_eq]

theorem Op.apply_held : (op.apply fs w).held = op.heldAfter w.held := by rw [op.apply_eq]

theorem Op.apply_mutex : (op.apply fs w).mutex = op.mutexAfter w.mutex := by rw [op.apply_eq]

theorem Op.apply_waiters : (op.apply fs w).waiters = op.waitersAfter w.waiters := by rw [op.apply_eq]

theorem Op.apply_derived : (op.apply fs w).derived = op.derivedAfter w.derived := by rw [op.apply_eq]

theorem Op.apply_status : (op.apply fs w).status = op.statusAfter w.status := by rw [op.apply_eq]

end Daemonpp
