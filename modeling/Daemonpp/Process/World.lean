import Daemonpp.Config.Dconfig

/-!
# The daemon object and the process around it

`Object` holds the data members of `daemon`; `World` adds what the kernel and the
C library keep for the process: its id and working directory, the installed
handlers, the locks inside `syslog` and the heap, the descriptor table, and
whether the object is still of the derived class. `Op` lists the atomic
operations a thread of the process performs on them and `Op.apply` says what each
one does; control flow is in `Daemonpp.Process.Step`. Name resolution is the
kernel's: `PathSpace` is any resolution in which an absolute path does not depend
on the working directory.
-/

namespace Daemonpp

inductive Signal where
  | SIGHUP
  | SIGKILL
  | SIGTERM
  deriving DecidableEq, Repr

def EXIT_SUCCESS : Int := 0

def EXIT_FAILURE : Int := 1

/-- The virtual member functions a user overrides. -/
inductive Callback where
  | onStart
  | onUpdate
  | onStop
  | onReload
  deriving DecidableEq, Repr

/-- The C library calls that run under a process-wide lock. -/
inductive LibCall where
  | heap
  | syslog
  | openlog
  | closelog
  deriving DecidableEq, Repr

/-- The two locks, neither of them recursive. -/
inductive Lock where
  | heap
  | syslog
  deriving DecidableEq, Repr

def LibCall.lock : LibCall → Lock
  | .heap => .heap
  | .syslog | .openlog | .closelog => .syslog

/-- A path that starts with `/`. -/
def Absolute (path : Bytes) : Prop := path.head? = some 47

instance (path : Bytes) : Decidable (Absolute path) := inferInstanceAs (Decidable (_ = _))

/-- How the kernel resolves names: the directory `chdir(path)` enters from a
directory, and the file that opening `path` in a directory finds. -/
structure PathSpace (Dir File : Type) where
  enter : Dir → Bytes → Dir
  file : Dir → Bytes → File
  enter_absolute : ∀ d d' path, Absolute path → enter d path = enter d' path
  file_absolute : ∀ d d' path, Absolute path → file d path = file d' path

/-- The data members of `daemon`. `none` is an indeterminate value: `m_pid` and
`m_sid` before `daemonize` stores them, `m_exit_code` where no constructor or
`stop` did. Durations are in nanoseconds. -/
structure Object where
  pid : Option Int := none
  sid : Option Int := none
  configFile : Bytes := []
  name : Bytes
  cwd : Bytes
  updateDuration : Int
  isRunning : Bool := false
  exitCode : Option Int
  deriving DecidableEq, Repr

/-- `daemon(name, cwd, update_duration)`. -/
def Object.construct (name : Bytes) (cwd : Bytes := bytes "/") (updateDuration : Int := 10000000000) : Object :=
  { name, cwd, updateDuration, exitCode := some EXIT_SUCCESS }

/-- `daemon()`, which leaves `m_exit_code` as it is. -/
def Object.unknown : Object :=
  { name := bytes "<unknown_daemon>", cwd := bytes "/", updateDuration := 10000000000, exitCode := none }

/-- Whether the process runs. A `finished` process has exited, was aborted by a
pure virtual call, or has undefined behaviour behind it. -/
inductive Status where
  | alive
  | finished
  deriving DecidableEq, Repr

/-- What the threads of the process share. -/
structure World (Dir : Type) where
  obj : Object
  pid : Nat
  cwd : Dir
  /-- The signals whose action is `signal_handler`. -/
  handled : List Signal := []
  /-- The locks of the C library that are taken. -/
  held : List Lock := []
  /-- Whether `m_mutex` is taken. -/
  mutex : Bool := false
  /-- The threads blocked on `m_update_cv`, the innermost first; `true` once notified. -/
  waiters : List Bool := []
  /-- The open descriptors. -/
  fds : List Nat := [0, 1, 2]
  /-- The number `syslog` keeps of its socket, also when other code has closed it. -/
  logFd : Option Nat := none
  /-- The dynamic type is the derived class. -/
  derived : Bool := true
  status : Status := .alive

/-- The lowest descriptor that is not open. -/
def lowestFree (fds : List Nat) : Nat := ((List.range (fds.length + 1)).find? (· ∉ fds)).getD 0

/-- How a library call comes out. -/
inductive Answer where
  | ok
  /-- `syslog` cannot send on the socket it has, connects once more, and sends there. -/
  | reconnected
  | failed
  deriving DecidableEq, Repr

/-- The atomic operations. -/
inductive Op where
  /-- A step that touches none of the shared data. -/
  | tau
  /-- `m_is_running = true` in `run`. -/
  | setRunning
  /-- `m_is_running.store(false)` in `stop(code)`. -/
  | clearRunning (code : Int)
  /-- `m_exit_code = code` in `stop(code)`. -/
  | exitCode (code : Int)
  /-- `m_update_cv.notify_all()`, with which `stop` ends; `handler` when
  `signal_handler` had called it. -/
  | notifyAll (handler : Bool)
  | lockMutex
  | unlockMutex
  /-- Release `m_mutex` and block on `m_update_cv`. -/
  | wait
  /-- Unblock and take `m_mutex` again. -/
  | wake
  | configFile (path : Bytes)
  /-- `m_pid = fork()`, in the process with id `pid` that goes on with `result`. -/
  | fork (result : Int) (pid : Nat)
  | setsid (result : Int)
  /-- `std::signal(sig, signal_handler)`. -/
  | install (sig : Signal)
  /-- `chdir(m_cwd)` in `daemonize`. -/
  | chdir (path : Bytes) (ok : Bool)
  /-- `set_cwd(path)`, whose `chdir` succeeds or fails. -/
  | setCwd (path : Bytes) (ok : Bool)
  | setName (name : Bytes)
  | setUpdateDuration (duration : Int)
  | getPid (value : Option Int)
  | getSid (value : Option Int)
  /-- Take the lock of a library call. -/
  | acquire (call : LibCall)
  /-- Perform a library call and release its lock. -/
  | finish (call : LibCall) (answer : Answer)
  /-- `from_file` opens `path`; no descriptor when that fails. -/
  | openConfig (path : Bytes) (fd : Option Nat)
  | closeConfig (fd : Option Nat)
  | openFd (fd : Nat)
  | closeFd (fd : Nat)
  /-- The kernel interrupts the main thread with a signal. -/
  | deliver (sig : Signal)
  /-- A callback is entered. -/
  | began (cb : Callback)
  | returned (cb : Callback)
  /-- The destruction of the derived object begins. -/
  | destroy
  /-- The derived class's destructor is done: the object is a `daemon` only. -/
  | destroyed
  /-- `on_reload` is called on an object that is a `daemon` only. -/
  | pureVirtual
  /-- An index of `from_file` is out of range. -/
  | outOfRange
  /-- `std::exit(code)` in `daemonize`. -/
  | exit (code : Int)
  /-- `std::exit(m_exit_code)` in `~daemon`. -/
  | exitDtor (code : Option Int)
  | terminate
  deriving DecidableEq, Repr

namespace World

variable {Dir File : Type}

/-- `close(fd)`. -/
def close (w : World Dir) (fd : Nat) : World Dir := { w with fds := w.fds.erase fd }

/-- `syslog` and `closelog` close the socket they have the number of. -/
def disconnectLog (w : World Dir) : World Dir :=
  match w.logFd with
  | some fd => { w.close fd with logFd := none }
  | none => w

/-- `syslog` connects a new socket. -/
def connectLog (w : World Dir) : World Dir :=
  { w with fds := lowestFree w.fds :: w.fds, logFd := some (lowestFree w.fds) }

/-- `syslog` has the number of an open descriptor. -/
def connected (w : World Dir) : Bool := w.logFd.any (· ∈ w.fds)

/-- `syslog` sends a message. It connects for the first one, and again where it cannot send, in particular
when its descriptor has been closed; when that fails, too, it is left without a socket. -/
def sendLog (w : World Dir) : Answer → World Dir
  | .ok => if w.connected then w else w.disconnectLog.connectLog
  | .reconnected => w.disconnectLog.connectLog
  | .failed => w.disconnectLog

end World

/-- What an operation does to the shared data. -/
def Op.apply {Dir File : Type} (fs : PathSpace Dir File) (w : World Dir) : Op → World Dir
  | .setRunning => { w with obj := { w.obj with isRunning := true } }
  | .clearRunning _ => { w with obj := { w.obj with isRunning := false } }
  | .exitCode code => { w with obj := { w.obj with exitCode := some code } }
  | .notifyAll _ => { w with waiters := w.waiters.map fun _ => true }
  | .lockMutex => { w with mutex := true }
  | .unlockMutex => { w with mutex := false }
  | .wait => { w with mutex := false, waiters := false :: w.waiters }
  | .wake => { w with mutex := true, waiters := w.waiters.tail }
  | .configFile path => { w with obj := { w.obj with configFile := path } }
  | .fork result pid =>
    { w with obj := { w.obj with pid := some result }, pid := if result = 0 then pid else w.pid }
  | .setsid result => { w with obj := { w.obj with sid := some result } }
  | .install sig =>
    -- the action of SIGKILL cannot be changed: `std::signal` fails
    if sig = .SIGKILL then w else { w with handled := sig :: w.handled }
  | .chdir path ok => if ok then { w with cwd := fs.enter w.cwd path } else w
  | .setCwd path ok =>
    if ok then { w with cwd := fs.enter w.cwd path, obj := { w.obj with cwd := path } } else w
  | .setName name => { w with obj := { w.obj with name } }
  | .setUpdateDuration duration => { w with obj := { w.obj with updateDuration := duration } }
  | .acquire call => { w with held := call.lock :: w.held }
  | .finish call answer =>
    let w := { w with held := w.held.erase call.lock }
    match call with
    | .heap | .openlog => w
    | .syslog => w.sendLog answer
    | .closelog => w.disconnectLog
  | .openConfig _ fd => match fd with
    | some fd => { w with fds := fd :: w.fds }
    | none => w
  | .closeConfig fd => match fd with
    | some fd => w.close fd
    | none => w
  | .openFd fd => { w with fds := fd :: w.fds }
  | .closeFd fd => w.close fd
  | .destroyed => { w with derived := false }
  | .pureVirtual | .outOfRange | .terminate => { w with status := .finished }
  | .tau | .getPid _ | .getSid _ | .deliver _ | .began _ | .returned _ | .destroy | .exit _ | .exitDtor _ => w

end Daemonpp
