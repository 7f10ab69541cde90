import Daemonpp.Process.World
import Daemonpp.Lib.Path

/-!
# The process as a state machine

The main thread is a stack of frames, the innermost first; each frame is a
function of the source at one of its statements. A step executes one statement
of the innermost frame (`Label.main`), lets the user's code on top act
(`Label.user`), delivers a signal, which puts `signal_handler` on the stack at
whatever point the main thread is, or lets another thread get on with its call
of `stop`. `Reply` is what the kernel answers where a statement is a system
call. Each function of the source has its `…Next`: the operation of the
statement and where control goes.
-/

namespace Daemonpp

/-! ## Program points -/

/-- `stop`. -/
inductive StopPc where
  | exitCode
  | flag
  | notify
  deriving DecidableEq, Repr

/-- `from_file`. -/
inductive FromFilePc where
  | enter (filename : Bytes)
  | parse (filename : Bytes) (ifs : IStream) (fd : Option Nat)
  | close (cfg : Dconfig) (fd : Option Nat)
  deriving DecidableEq

/-- `run`. `daemonizing`, `configuring` and `called` wait for a callee. -/
inductive RunPc where
  | guard
  | scan
  | daemonize
  | daemonizing
  | running
  | config
  | configuring
  | start (cfg : Dconfig)
  | called (cb : Callback)
  | started
  | loop
  | update
  | lock
  | pred
  | block
  | blocked
  | timedOut
  | unlock
  | stop
  | ret
  deriving DecidableEq

/-- `daemonize`. -/
inductive DaemonizePc where
  | fork
  | init
  | setsid
  | sighup
  | sigterm
  | sigkill
  | chdir
  | close (fd : Nat)
  | exit (code : Int)
  deriving DecidableEq, Repr

/-- `signal_handler`. `stopping`, `configuring` and `reloading` wait for a callee. -/
inductive HandlerPc where
  | log
  | switch
  | stopping
  | configuring
  | reload (cfg : Dconfig)
  | reloading
  | cleanup
  | done
  deriving DecidableEq

/-- The code that owns the object: the scope it lives in, then its destructors. -/
inductive OwnerPc where
  | live
  | derivedDtor
  | dtor
  | exit
  deriving DecidableEq, Repr

/-- A function in progress on the main thread. -/
inductive Frame where
  | owner (pc : OwnerPc)
  | run (argv : List Bytes) (pc : RunPc)
  | daemonize (pc : DaemonizePc)
  | stop (handler : Bool) (code : Int) (pc : StopPc)
  | signalHandler (sig : Signal) (pc : HandlerPc)
  | fromFile (pc : FromFilePc)
  | callback (cb : Callback) (arg : Option Dconfig)
  /-- Library calls still to make; `inside` when the first one holds its lock. What `dlog` calls
  on the way to them has no frame of its own. -/
  | lib (calls : List LibCall) (inside : Bool)
  /-- `std::exit` has been called. -/
  | exiting
  deriving DecidableEq

/-- What the kernel answers to a statement. -/
inductive Reply where
  | done
  | fork (result : Int) (pid : Nat)
  | ok (success : Bool)
  | reconnected
  | file (ifs : IStream)
  | notified
  | spurious
  | timeout
  deriving DecidableEq, Repr

/-- What user code may do: in a callback, or where the object is owned. -/
inductive Act where
  | ret
  | stop (code : Int)
  | run (argv : List Bytes)
  | setCwd (path : Bytes) (ok : Bool)
  | setName (name : Bytes)
  | setUpdateDuration (duration : Int)
  | getPid
  | getSid
  | lib (calls : List LibCall)
  | openFile
  | closeFile (fd : Nat)
  | destroy
  deriving DecidableEq, Repr

inductive Label where
  | main (r : Reply)
  | user (a : Act)
  | signal (sig : Signal)
  /-- Another thread calls `stop(code)`. -/
  | enter (code : Int)
  /-- The `i`-th call of `stop` in progress on another thread takes its next step. -/
  | thread (i : Nat)
  deriving DecidableEq, Repr

/-- Where control goes. -/
inductive Move where
  /-- The innermost function goes on at another statement. -/
  | goto (f : Frame)
  /-- It goes on at `f` after a call that starts at `g`. -/
  | call (f g : Frame)
  /-- It returns to its caller, which may read the value. -/
  | ret (value : Option Dconfig)
  /-- It ends and uncovers what it had interrupted, or a caller that is not waiting. -/
  | leave
  deriving DecidableEq

/-- A caller goes on behind a call that returned `value`. -/
def Frame.resume (value : Option Dconfig) : Frame → Frame
  | .run argv .daemonizing => .run argv .running
  | .run argv .configuring => .run argv (.start (value.getD {}))
  | .run argv (.called .onStart) => .run argv .started
  | .run argv (.called .onUpdate) => .run argv .lock
  | .run argv (.called .onStop) => .run argv .ret
  | .signalHandler sig .stopping => .signalHandler sig .done
  | .signalHandler sig .configuring => .signalHandler sig (.reload (value.getD {}))
  | .signalHandler sig .reloading => .signalHandler sig .cleanup
  | f => f

/-- The stack above `rest` after a move. -/
def Move.apply (rest : List Frame) : Move → List Frame
  | .goto f => f :: rest
  | .call f g => g :: f :: rest
  | .ret value => match rest with
    | [] => []
    | f :: rest => f.resume value :: rest
  | .leave => rest

/-! ## The functions of the source -/

/-- A `dlog` call on a message that is built for it: `std::string` operations,
`syslog`, and the end of the temporary. -/
def logCalls : List LibCall := [.heap, .syslog, .heap]

/-- The argument loop of `run`: `none` without `--config`, `some none` when it is
the last argument. -/
def scanConfig : List Bytes → Option (Option Bytes)
  | [] => none
  | arg :: argv => if arg = bytes "--config" then some argv.head? else scanConfig argv

section Next

variable {Dir : Type} (w : World Dir)

/-- `daemon::run`. -/
def runNext (argv : List Bytes) : RunPc → Reply → Option (Op × Move)
  | .guard, .done =>
    some (.tau, if w.obj.isRunning then .call (.run argv .ret) (.lib logCalls false) else .goto (.run argv .scan))
  | .scan, .done => match scanConfig argv with
    | some (some path) => some (.configFile path, .call (.run argv .daemonize) (.lib [.heap] false))
    | some none => some (.tau, .call (.run argv .daemonize) (.lib logCalls false))
    | none => some (.tau, .goto (.run argv .daemonize))
  | .daemonize, .done => some (.tau, .call (.run argv .daemonizing) (.daemonize .fork))
  | .running, .done => some (.setRunning, .goto (.run argv .config))
  | .config, .done => some (.tau, .call (.run argv .configuring) (.fromFile (.enter w.obj.configFile)))
  | .start cfg, .done => some (.began .onStart, .call (.run argv (.called .onStart)) (.callback .onStart (some cfg)))
  -- the end of the temporary that `on_start` was called with
  | .started, .done => some (.tau, .call (.run argv .loop) (.lib [.heap] false))
  | .loop, .done => some (.tau, .goto (.run argv (if w.obj.isRunning then .update else .stop)))
  | .update, .done => some (.began .onUpdate, .call (.run argv (.called .onUpdate)) (.callback .onUpdate none))
  | .lock, .done => if w.mutex then none else some (.lockMutex, .goto (.run argv .pred))
  | .pred, .done => some (.tau, .goto (.run argv (if w.obj.isRunning then .block else .unlock)))
  | .block, .done => some (.wait, .goto (.run argv .blocked))
  -- a thread that is woken up takes the mutex before it goes on
  | .blocked, .notified =>
    if w.mutex || w.waiters.head? != some true then none else some (.wake, .goto (.run argv .pred))
  | .blocked, .spurious => if w.mutex then none else some (.wake, .goto (.run argv .pred))
  | .blocked, .timeout => if w.mutex then none else some (.wake, .goto (.run argv .timedOut))
  -- `wait_for` tests the predicate once more and returns whatever it says
  | .timedOut, .done => some (.tau, .goto (.run argv .unlock))
  | .unlock, .done => some (.unlockMutex, .goto (.run argv .loop))
  | .stop, .done => some (.began .onStop, .call (.run argv (.called .onStop)) (.callback .onStop none))
  | .ret, .done => some (.tau, .leave)
  | _, _ => none

/-- `daemon::daemonize`. A parent process leaves through `std::exit(EXIT_SUCCESS)`. -/
def daemonizeNext : DaemonizePc → Reply → Option (Op × Move)
  | .fork, .fork result pid =>
    some (.fork result pid, .goto (.daemonize
      (if 0 < result then .exit EXIT_SUCCESS else if result < 0 then .exit EXIT_FAILURE else .init)))
  | .init, .done => some (.tau, .call (.daemonize .setsid) (.lib [.heap, .openlog] false))
  | .setsid, .ok success => some (.setsid (if success then w.pid else -1),
      if success then .goto (.daemonize .sighup)
      else .call (.daemonize (.exit EXIT_FAILURE)) (.lib logCalls false))
  | .sighup, .done => some (.install .SIGHUP, .goto (.daemonize .sigterm))
  | .sigterm, .done => some (.install .SIGTERM, .goto (.daemonize .sigkill))
  | .sigkill, .done => some (.install .SIGKILL, .goto (.daemonize .chdir))
  | .chdir, .ok success => some (.chdir w.obj.cwd success,
      if success then .goto (.daemonize (.close 0))
      else .call (.daemonize (.exit EXIT_FAILURE)) (.lib logCalls false))
  -- STDIN_FILENO, STDOUT_FILENO, STDERR_FILENO
  | .close fd, .done => some (.closeFd fd, if fd < 2 then .goto (.daemonize (.close (fd + 1))) else .ret none)
  | .exit code, .done => some (.exit code, .goto .exiting)
  | _, _ => none

/-- `daemon::stop`. -/
def stopNext (handler : Bool) (code : Int) : StopPc → Op × Move
  | .exitCode => (.exitCode code, .goto (.stop handler code .flag))
  | .flag => (.clearRunning code, .goto (.stop handler code .notify))
  | .notify => (.notifyAll handler, .ret none)

/-- `daemon::signal_handler`. The call through `instance` reaches the derived
class while the object is one. -/
def signalHandlerNext (sig : Signal) : HandlerPc → Reply → Option (Op × Move)
  | .log, .done => some (.tau, .call (.signalHandler sig .switch) (.lib logCalls false))
  | .switch, .done => match sig with
    | .SIGTERM | .SIGKILL =>
      some (.tau, .call (.signalHandler sig .stopping) (.stop true EXIT_SUCCESS .exitCode))
    | .SIGHUP =>
      some (.tau, .call (.signalHandler sig .configuring) (.fromFile (.enter w.obj.configFile)))
  | .reload cfg, .done =>
    if w.derived then
      some (.began .onReload, .call (.signalHandler sig .reloading) (.callback .onReload (some cfg)))
    else some (.pureVirtual, .goto .exiting)
  | .cleanup, .done => some (.tau, .call (.signalHandler sig .done) (.lib [.heap] false))
  | .done, .done => some (.tau, .leave)
  | _, _ => none

/-- `dconfig::from_file`, around the parser. -/
def fromFileNext : FromFilePc → Reply → Option (Op × Move)
  | .enter filename, r =>
    if filename.isEmpty then
      if r = .done then some (.tau, .ret (some {})) else none
    else match r with
      | .file ifs =>
        let fd := if ifs.failbit then none else some (lowestFree w.fds)
        some (.openConfig filename fd, .call (.fromFile (.parse filename ifs fd)) (.lib [.heap] false))
      | _ => none
  | .parse filename ifs fd, .done => match Daemonpp.fromFile filename ifs with
    | .ok cfg => some (.tau, .goto (.fromFile (.close cfg fd)))
    | .error _ => some (.outOfRange, .goto .exiting)
  | .close cfg fd, .done => some (.closeConfig fd, .ret (some cfg))
  | _, _ => none

/-- Library calls, one after the other, each under its lock. -/
def libNext : List LibCall → Bool → Reply → Option (Op × Move)
  | [], _, .done => some (.tau, .leave)
  | call :: calls, false, .done =>
    if call.lock ∈ w.held then none else some (.acquire call, .goto (.lib (call :: calls) true))
  | call :: calls, true, .ok success =>
    some (.finish call (if success then .ok else .failed), .goto (.lib calls false))
  | .syslog :: calls, true, .reconnected => some (.finish .syslog .reconnected, .goto (.lib calls false))
  | _, _, _ => none

/-- The end of the object: the derived destructor, then `~daemon`. -/
def ownerNext : OwnerPc → Reply → Option (Op × Move)
  | .live, _ => none
  | .derivedDtor, .done => some (.destroyed, .goto (.owner .dtor))
  | .dtor, .done => some (.tau, .call (.owner .exit) (.lib [.closelog] false))
  | .exit, .done => some (.exitDtor w.obj.exitCode, .goto .exiting)
  | _, _ => none

/-- One statement of a function. -/
def Frame.next : Frame → Reply → Option (Op × Move)
  | .owner pc, r => ownerNext w pc r
  | .run argv pc, r => runNext w argv pc r
  | .daemonize pc, r => daemonizeNext w pc r
  | .stop handler code pc, r => if r = .done then some (stopNext handler code pc) else none
  | .signalHandler sig pc, r => signalHandlerNext w sig pc r
  | .fromFile pc, r => fromFileNext w pc r
  | .callback _ _, _ => none
  | .lib calls inside, r => libNext w calls inside r
  | .exiting, r => if r = .done then some (.terminate, .goto .exiting) else none

/-- User code runs in a callback, and where the object is owned. -/
def Frame.isUser : Frame → Bool
  | .callback _ _ | .owner .live => true
  | _ => false

/-- What the user code of the frame `f` does. -/
def Frame.act (f : Frame) : Act → Option (Op × Move)
  | .ret => match f with
    | .callback cb _ => some (.returned cb, .ret none)
    | _ => none
  | .destroy => match f with
    | .owner .live => some (.destroy, .goto (.owner .derivedDtor))
    | _ => none
  | a => if !f.isUser then none else match a with
    | .stop code => some (.tau, .call f (.stop false code .exitCode))
    | .run argv => some (.tau, .call f (.run argv .guard))
    | .setCwd path ok => some (.setCwd path ok, .call f (.lib (if ok then [.heap] else logCalls) false))
    | .setName name => some (.setName name, .call f (.lib [.heap] false))
    | .setUpdateDuration duration => some (.setUpdateDuration duration, .goto f)
    | .getPid => some (.getPid w.obj.pid, .goto f)
    | .getSid => some (.getSid w.obj.sid, .goto f)
    | .lib calls => some (.tau, .call f (.lib calls false))
    | .openFile => some (.openFd (lowestFree w.fds), .goto f)
    | .closeFile fd => some (.closeFd fd, .goto f)
    | .ret | .destroy => none

end Next

/-! ## The process -/

/-- A process: its main thread, the shared data, and the calls of `stop` in
progress on its other threads. -/
structure Proc (Dir : Type) where
  stack : List Frame
  world : World Dir
  threads : List (Int × StopPc) := []

def Frame.handles (sig : Signal) : Frame → Bool
  | .signalHandler sig' _ => sig == sig'
  | _ => false

/-- A signal reaches its handler unless that handler is running: it is blocked
meanwhile. The default action of a signal, where no handler is installed, ends the
process from outside and is no step of it. -/
def Proc.deliverable {Dir : Type} (s : Proc Dir) (sig : Signal) : Bool :=
  sig ∈ s.world.handled && !s.stack.any (Frame.handles sig)

/-- The statement `stop` is at on another thread, and the thread's next one. -/
def threadNext (code : Int) (pc : StopPc) : Op × Option StopPc :=
  match stopNext false code pc with
  | (op, .goto (.stop _ _ pc)) => (op, some pc)
  | (op, _) => (op, none)

/-- A child process has only the thread that forked. -/
def Op.survivors (threads : List (Int × StopPc)) : Op → List (Int × StopPc)
  | .fork result _ => if result = 0 then [] else threads
  | _ => threads

section Step

variable {Dir File : Type} (fs : PathSpace Dir File)

/-- The operation of a step and the stack and threads after it. -/
def Proc.control (s : Proc Dir) : Label → Option (Op × List Frame × List (Int × StopPc))
  | .main r => match s.stack with
    | [] => none
    | f :: rest => (f.next s.world r).map fun (op, move) => (op, move.apply rest, op.survivors s.threads)
  | .user a => match s.stack with
    | [] => none
    | f :: rest => (f.act s.world a).map fun (op, move) => (op, move.apply rest, s.threads)
  | .signal sig =>
    if s.deliverable sig then some (.deliver sig, .signalHandler sig .log :: s.stack, s.threads) else none
  | .enter code => some (.tau, s.stack, s.threads ++ [(code, .exitCode)])
  | .thread i => match s.threads[i]? with
    | none => none
    | some (code, pc) =>
      let (op, next) := threadNext code pc
      some (op, s.stack, match next with
        | some pc => s.threads.set i (code, pc)
        | none => s.threads.eraseIdx i)

/-- One step of the process. -/
def Proc.step (s : Proc Dir) (l : Label) : Option (Op × Proc Dir) :=
  if s.world.status = .alive then
    (s.control l).map fun (op, stack, threads) => (op, ⟨stack, op.apply fs s.world, threads⟩)
  else none

/-- The process as a system. -/
def process : Lib.System (Proc Dir) Label Op := ⟨Proc.step fs⟩

end Step

end Daemonpp
