import Daemonpp.Process.Step

/-!
# What a step can do

The inversion of `Proc.step`. A step moves the innermost frame, delivers a
signal, or belongs to another thread (`step_cases`). A move of the innermost
frame is a statement of the function it belongs to, one constructor each
(`RunMove`, `DaemonizeMove`, and so on, joined in `Moves`), and carries the guard
under which the source executes it. Every invariant is proved from these.
-/

namespace Daemonpp

/-! ## The statements, function by function -/

section Functions

variable {Dir : Type}

/-- The statements of `run`. -/
inductive RunMove (w : World Dir) (argv : List Bytes) : RunPc → Op → Move → Prop where
  | refuse (up : w.obj.isRunning = true) :
      RunMove w argv .guard .tau (.call (.run argv .ret) (.lib logCalls false))
  | guard (down : w.obj.isRunning = false) : RunMove w argv .guard .tau (.goto (.run argv .scan))
  | found {path : Bytes} (scan : scanConfig argv = some (some path)) :
      RunMove w argv .scan (.configFile path) (.call (.run argv .daemonize) (.lib [.heap] false))
  | missing (scan : scanConfig argv = some none) :
      RunMove w argv .scan .tau (.call (.run argv .daemonize) (.lib logCalls false))
  | absent (scan : scanConfig argv = none) : RunMove w argv .scan .tau (.goto (.run argv .daemonize))
  | daemonize : RunMove w argv .daemonize .tau (.call (.run argv .daemonizing) (.daemonize .fork))
  | running : RunMove w argv .running .setRunning (.goto (.run argv .config))
  | config :
      RunMove w argv .config .tau (.call (.run argv .configuring) (.fromFile (.enter w.obj.configFile)))
  | start (cfg : Dconfig) : RunMove w argv (.start cfg) (.began .onStart)
      (.call (.run argv (.called .onStart)) (.callback .onStart (some cfg)))
  | started : RunMove w argv .started .tau (.call (.run argv .loop) (.lib [.heap] false))
  | again (up : w.obj.isRunning = true) : RunMove w argv .loop .tau (.goto (.run argv .update))
  | finish (down : w.obj.isRunning = false) : RunMove w argv .loop .tau (.goto (.run argv .stop))
  | update : RunMove w argv .update (.began .onUpdate)
      (.call (.run argv (.called .onUpdate)) (.callback .onUpdate none))
  | lock (free : w.mutex = false) : RunMove w argv .lock .lockMutex (.goto (.run argv .pred))
  | sleep (up : w.obj.isRunning = true) : RunMove w argv .pred .tau (.goto (.run argv .block))
  | awake (down : w.obj.isRunning = false) : RunMove w argv .pred .tau (.goto (.run argv .unlock))
  | block : RunMove w argv .block .wait (.goto (.run argv .blocked))
  | wake (free : w.mutex = false) : RunMove w argv .blocked .wake (.goto (.run argv .pred))
  | timeout (free : w.mutex = false) : RunMove w argv .blocked .wake (.goto (.run argv .timedOut))
  | timedOut : RunMove w argv .timedOut .tau (.goto (.run argv .unlock))
  | unlock : RunMove w argv .unlock .unlockMutex (.goto (.run argv .loop))
  | stop : RunMove w argv .stop (.began .onStop)
      (.call (.run argv (.called .onStop)) (.callback .onStop none))
  | ret : RunMove w argv .ret .tau .leave

/-- The statements of `daemonize`. -/
inductive DaemonizeMove (w : World Dir) : DaemonizePc → Op → Move → Prop where
  | parent (result : Int) (pid : Nat) (positive : 0 < result) :
      DaemonizeMove w .fork (.fork result pid) (.goto (.daemonize (.exit EXIT_SUCCESS)))
  | noFork (result : Int) (pid : Nat) (negative : result < 0) :
      DaemonizeMove w .fork (.fork result pid) (.goto (.daemonize (.exit EXIT_FAILURE)))
  | child (pid : Nat) : DaemonizeMove w .fork (.fork 0 pid) (.goto (.daemonize .init))
  | init : DaemonizeMove w .init .tau (.call (.daemonize .setsid) (.lib [.heap, .openlog] false))
  | setsid : DaemonizeMove w .setsid (.setsid w.pid) (.goto (.daemonize .sighup))
  | noSetsid : DaemonizeMove w .setsid (.setsid (-1))
      (.call (.daemonize (.exit EXIT_FAILURE)) (.lib logCalls false))
  | sighup : DaemonizeMove w .sighup (.install .SIGHUP) (.goto (.daemonize .sigterm))
  | sigterm : DaemonizeMove w .sigterm (.install .SIGTERM) (.goto (.daemonize .sigkill))
  | sigkill : DaemonizeMove w .sigkill (.install .SIGKILL) (.goto (.daemonize .chdir))
  | chdir : DaemonizeMove w .chdir (.chdir w.obj.cwd true) (.goto (.daemonize (.close 0)))
  | noChdir : DaemonizeMove w .chdir (.chdir w.obj.cwd false)
      (.call (.daemonize (.exit EXIT_FAILURE)) (.lib logCalls false))
  | close (fd : Nat) (more : fd < 2) :
      DaemonizeMove w (.close fd) (.closeFd fd) (.goto (.daemonize (.close (fd + 1))))
  | closeLast (fd : Nat) (last : ¬ fd < 2) : DaemonizeMove w (.close fd) (.closeFd fd) (.ret none)
  | exit (code : Int) : DaemonizeMove w (.exit code) (.exit code) (.goto .exiting)

/-- The statements of `stop`. -/
inductive StopMove (handler : Bool) (code : Int) : StopPc → Op → Move → Prop where
  | exitCode : StopMove handler code .exitCode (.exitCode code) (.goto (.stop handler code .flag))
  | flag : StopMove handler code .flag (.clearRunning code) (.goto (.stop handler code .notify))
  | notify : StopMove handler code .notify (.notifyAll handler) (.ret none)

/-- The statements of `signal_handler`. -/
inductive HandlerMove (w : World Dir) (sig : Signal) : HandlerPc → Op → Move → Prop where
  | log : HandlerMove w sig .log .tau (.call (.signalHandler sig .switch) (.lib logCalls false))
  | stop (other : sig ≠ .SIGHUP) : HandlerMove w sig .switch .tau
      (.call (.signalHandler sig .stopping) (.stop true EXIT_SUCCESS .exitCode))
  | config (sighup : sig = .SIGHUP) : HandlerMove w sig .switch .tau
      (.call (.signalHandler sig .configuring) (.fromFile (.enter w.obj.configFile)))
  | reload (cfg : Dconfig) (derived : w.derived = true) : HandlerMove w sig (.reload cfg) (.began .onReload)
      (.call (.signalHandler sig .reloading) (.callback .onReload (some cfg)))
  | pure (cfg : Dconfig) (base : w.derived = false) :
      HandlerMove w sig (.reload cfg) .pureVirtual (.goto .exiting)
  | cleanup : HandlerMove w sig .cleanup .tau (.call (.signalHandler sig .done) (.lib [.heap] false))
  | done : HandlerMove w sig .done .tau .leave

/-- The statements of `from_file`. -/
inductive FromFileMove (w : World Dir) : FromFilePc → Op → Move → Prop where
  | empty (filename : Bytes) (unnamed : filename = []) :
      FromFileMove w (.enter filename) .tau (.ret (some {}))
  | open (filename : Bytes) (ifs : IStream) (fd : Option Nat) (named : filename ≠ [])
      (opens : fd = if ifs.failbit then none else some (lowestFree w.fds)) :
      FromFileMove w (.enter filename) (.openConfig filename fd)
        (.call (.fromFile (.parse filename ifs fd)) (.lib [.heap] false))
  | parse (filename : Bytes) (ifs : IStream) (fd : Option Nat) (cfg : Dconfig) :
      FromFileMove w (.parse filename ifs fd) .tau (.goto (.fromFile (.close cfg fd)))
  | outOfRange (filename : Bytes) (ifs : IStream) (fd : Option Nat) :
      FromFileMove w (.parse filename ifs fd) .outOfRange (.goto .exiting)
  | close (cfg : Dconfig) (fd : Option Nat) :
      FromFileMove w (.close cfg fd) (.closeConfig fd) (.ret (some cfg))

/-- The steps of library calls. -/
inductive LibMove (w : World Dir) : List LibCall → Bool → Op → Move → Prop where
  | nil (inside : Bool) : LibMove w [] inside .tau .leave
  | acquire (call : LibCall) (calls : List LibCall) (free : call.lock ∉ w.held) :
      LibMove w (call :: calls) false (.acquire call) (.goto (.lib (call :: calls) true))
  | finish (call : LibCall) (calls : List LibCall) (answer : Answer) :
      LibMove w (call :: calls) true (.finish call answer) (.goto (.lib calls false))

/-- The end of the object. -/
inductive OwnerMove (w : World Dir) : OwnerPc → Op → Move → Prop where
  | derivedDtor : OwnerMove w .derivedDtor .destroyed (.goto (.owner .dtor))
  | dtor : OwnerMove w .dtor .tau (.call (.owner .exit) (.lib [.closelog] false))
  | exit : OwnerMove w .exit (.exitDtor w.obj.exitCode) (.goto .exiting)

/-- What user code in the frame `f` does. -/
inductive ActMove (w : World Dir) (f : Frame) : Act → Op → Move → Prop where
  | ret (cb : Callback) (arg : Option Dconfig) (callback : f = .callback cb arg) :
      ActMove w f .ret (.returned cb) (.ret none)
  | destroy (live : f = .owner .live) : ActMove w f .destroy .destroy (.goto (.owner .derivedDtor))
  | stop (code : Int) : ActMove w f (.stop code) .tau (.call f (.stop false code .exitCode))
  | run (argv : List Bytes) : ActMove w f (.run argv) .tau (.call f (.run argv .guard))
  | setCwd (path : Bytes) : ActMove w f (.setCwd path true) (.setCwd path true) (.call f (.lib [.heap] false))
  | noSetCwd (path : Bytes) :
      ActMove w f (.setCwd path false) (.setCwd path false) (.call f (.lib logCalls false))
  | setName (name : Bytes) : ActMove w f (.setName name) (.setName name) (.call f (.lib [.heap] false))
  | setUpdateDuration (duration : Int) :
      ActMove w f (.setUpdateDuration duration) (.setUpdateDuration duration) (.goto f)
  | getPid : ActMove w f .getPid (.getPid w.obj.pid) (.goto f)
  | getSid : ActMove w f .getSid (.getSid w.obj.sid) (.goto f)
  | lib (calls : List LibCall) : ActMove w f (.lib calls) .tau (.call f (.lib calls false))
  | openFile : ActMove w f .openFile (.openFd (lowestFree w.fds)) (.goto f)
  | closeFile (fd : Nat) : ActMove w f (.closeFile fd) (.closeFd fd) (.goto f)

variable {w : World Dir} {r : Reply} {op : Op} {move : Move}

/-- Only the wait of `run` is a system call. -/
theorem done_of_runNext {argv : List Bytes} {pc : RunPc} (h : runNext w argv pc r = some (op, move))
    (other : pc ≠ .blocked) : r = .done := by
  cases pc <;> cases r <;> first | rfl | cases h | exact absurd rfl other

theorem runNext_cases {argv : List Bytes} {pc : RunPc} (h : runNext w argv pc r = some (op, move)) :
    RunMove w argv pc op move := by
  by_cases wait : pc = .blocked
  · subst wait
    cases r with
    | notified =>
      simp only [runNext] at h
      split at h <;> cases h
      rename_i idle
      exact .wake (by simp only [Bool.or_eq_true, not_or, Bool.not_eq_true] at idle; exact idle.1)
    | spurious =>
      simp only [runNext] at h
      split at h <;> cases h
      exact .wake (Bool.not_eq_true _ ▸ ‹_›)
    | timeout =>
      simp only [runNext] at h
      split at h <;> cases h
      exact .timeout (Bool.not_eq_true _ ▸ ‹_›)
    | _ => cases h
  · obtain rfl := done_of_runNext h wait
    cases pc with
    | guard =>
      cases h
      split
      · exact .refuse ‹_›
      · exact .guard (Bool.not_eq_true _ ▸ ‹_›)
    | scan =>
      simp only [runNext] at h
      split at h <;> cases h
      · exact .found ‹_›
      · exact .missing ‹_›
      · exact .absent ‹_›
    | loop =>
      cases h
      split
      · exact .again ‹_›
      · exact .finish (Bool.not_eq_true _ ▸ ‹_›)
    | lock =>
      simp only [runNext] at h
      split at h <;> cases h
      exact .lock (Bool.not_eq_true _ ▸ ‹_›)
    | pred =>
      cases h
      split
      · exact .sleep ‹_›
      · exact .awake (Bool.not_eq_true _ ▸ ‹_›)
    | blocked => exact absurd rfl wait
    | daemonizing | configuring | called => cases h
    | _ =>
      cases h
      constructor

theorem daemonizeNext_cases {pc : DaemonizePc} (h : daemonizeNext w pc r = some (op, move)) :
    DaemonizeMove w pc op move := by
  cases pc with
  | fork =>
    cases r with
    | fork result pid =>
      cases h
      split
      · exact .parent result pid ‹_›
      · split
        · exact .noFork result pid ‹_›
        · obtain rfl : result = 0 := by omega
          exact .child pid
    | _ => cases h
  | setsid | chdir =>
    cases r with
    | ok success =>
      cases h
      cases success <;> constructor
    | _ => cases h
  | close fd =>
    cases r with
    | done =>
      cases h
      split
      · exact .close fd ‹_›
      · exact .closeLast fd ‹_›
    | _ => cases h
  | init | sighup | sigterm | sigkill | exit =>
    cases r with
    | done =>
      cases h
      constructor
    | _ => cases h

theorem stopNext_cases (handler : Bool) (code : Int) (pc : StopPc) :
    StopMove handler code pc (stopNext handler code pc).1 (stopNext handler code pc).2 := by
  cases pc <;> constructor

theorem signalHandlerNext_cases {sig : Signal} {pc : HandlerPc}
    (h : signalHandlerNext w sig pc r = some (op, move)) : HandlerMove w sig pc op move := by
  cases pc with
  | stopping | configuring | reloading => cases h
  | switch =>
    cases r with
    | done =>
      cases sig with
      | SIGHUP =>
        cases h
        exact .config rfl
      | SIGKILL | SIGTERM =>
        cases h
        exact .stop nofun
    | _ => cases h
  | reload cfg =>
    cases r with
    | done =>
      simp only [signalHandlerNext] at h
      split at h <;> cases h
      · exact .reload cfg ‹_›
      · exact .pure cfg (Bool.not_eq_true _ ▸ ‹_›)
    | _ => cases h
  | log | cleanup | done =>
    cases r with
    | done =>
      cases h
      constructor
    | _ => cases h

theorem fromFileNext_cases {pc : FromFilePc} (h : fromFileNext w pc r = some (op, move)) :
    FromFileMove w pc op move := by
  cases pc with
  | enter filename =>
    simp only [fromFileNext] at h
    split at h
    · rename_i unnamed
      split at h <;> cases h
      exact .empty filename (List.isEmpty_iff.1 unnamed)
    · rename_i named
      split at h <;> cases h
      exact .open filename _ _ (fun unnamed => named (List.isEmpty_iff.2 unnamed)) rfl
  | parse filename ifs fd =>
    cases r with
    | done =>
      simp only [fromFileNext] at h
      split at h <;> cases h <;> constructor
    | _ => cases h
  | close cfg fd =>
    cases r with
    | done =>
      cases h
      constructor
    | _ => cases h

theorem libNext_cases {calls : List LibCall} {inside : Bool} (h : libNext w calls inside r = some (op, move)) :
    LibMove w calls inside op move := by
  cases calls with
  | nil =>
    cases r with
    | done =>
      cases h
      exact .nil inside
    | _ => cases h
  | cons call calls =>
    cases inside with
    | false =>
      cases r with
      | done =>
        simp only [libNext] at h
        split at h <;> cases h
        exact .acquire call calls ‹_›
      | _ => cases call <;> cases h
    | true =>
      cases r with
      | ok success =>
        cases h
        exact .finish call calls _
      | reconnected =>
        cases call with
        | syslog =>
          cases h
          exact .finish .syslog calls .reconnected
        | _ => cases h
      | _ => cases call <;> cases h

theorem ownerNext_cases {pc : OwnerPc} (h : ownerNext w pc r = some (op, move)) : OwnerMove w pc op move := by
  cases pc with
  | live => cases h
  | derivedDtor | dtor | exit =>
    cases r with
    | done =>
      cases h
      constructor
    | _ => cases h

theorem Frame.act_cases {f : Frame} {a : Act} (h : f.act w a = some (op, move)) :
    ActMove w f a op move ∧ f.isUser = true := by
  cases a with
  | ret =>
    cases f with
    | callback cb arg =>
      cases h
      exact ⟨.ret cb arg rfl, rfl⟩
    | _ => cases h
  | destroy =>
    cases f with
    | owner pc =>
      cases pc with
      | live =>
        cases h
        exact ⟨.destroy rfl, rfl⟩
      | _ => cases h
    | _ => cases h
  | setCwd path ok =>
    unfold Frame.act at h
    dsimp only at h
    split at h
    · cases h
    rename_i user
    refine ⟨?_, by simpa using user⟩
    cases h
    cases ok <;> constructor
  | _ =>
    unfold Frame.act at h
    dsimp only at h
    split at h
    · cases h
    rename_i user
    refine ⟨?_, by simpa using user⟩
    cases h
    constructor

end Functions

/-! ## A step -/

section Inversion

variable {Dir File : Type}

/-- The innermost frame `f` makes a move under the label `l`. -/
inductive Moves (w : World Dir) : Frame → Label → Op → Move → Prop where
  | run {argv : List Bytes} {pc : RunPc} {op : Op} {move : Move} (r : Reply)
      (h : RunMove w argv pc op move) : Moves w (.run argv pc) (.main r) op move
  | daemonize {pc : DaemonizePc} {op : Op} {move : Move} (r : Reply)
      (h : DaemonizeMove w pc op move) : Moves w (.daemonize pc) (.main r) op move
  | stop {handler : Bool} {code : Int} {pc : StopPc} {op : Op} {move : Move} (r : Reply)
      (h : StopMove handler code pc op move) : Moves w (.stop handler code pc) (.main r) op move
  | signalHandler {sig : Signal} {pc : HandlerPc} {op : Op} {move : Move} (r : Reply)
      (h : HandlerMove w sig pc op move) : Moves w (.signalHandler sig pc) (.main r) op move
  | fromFile {pc : FromFilePc} {op : Op} {move : Move} (r : Reply)
      (h : FromFileMove w pc op move) : Moves w (.fromFile pc) (.main r) op move
  | lib {calls : List LibCall} {inside : Bool} {op : Op} {move : Move} (r : Reply)
      (h : LibMove w calls inside op move) : Moves w (.lib calls inside) (.main r) op move
  | owner {pc : OwnerPc} {op : Op} {move : Move} (r : Reply)
      (h : OwnerMove w pc op move) : Moves w (.owner pc) (.main r) op move
  | exiting (r : Reply) : Moves w .exiting (.main r) .terminate (.goto .exiting)
  | user {f : Frame} {a : Act} {op : Op} {move : Move} (h : ActMove w f a op move)
      (user : f.isUser = true) : Moves w f (.user a) op move

theorem moves_of_next {w : World Dir} {f : Frame} {r : Reply} {op : Op} {move : Move}
    (h : f.next w r = some (op, move)) : Moves w f (.main r) op move := by
  cases f with
  | owner pc => exact .owner _ (ownerNext_cases h)
  | run argv pc => exact .run _ (runNext_cases h)
  | daemonize pc => exact .daemonize _ (daemonizeNext_cases h)
  | stop handler code pc =>
    cases r with
    | done =>
      have cases := stopNext_cases handler code pc
      simp only [Frame.next, if_true, Option.some.injEq] at h
      rw [h] at cases
      exact .stop _ cases
    | _ => cases h
  | signalHandler sig pc => exact .signalHandler _ (signalHandlerNext_cases h)
  | fromFile pc => exact .fromFile _ (fromFileNext_cases h)
  | callback cb arg => cases h
  | lib calls inside => exact .lib _ (libNext_cases h)
  | exiting =>
    cases r with
    | done =>
      cases h
      exact .exiting _
    | _ => cases h

/-- **The callers that wait for a callee**, one by one. A return leaves any other frame as it is. -/
@[elab_as_elim]
theorem Frame.resume_cases {motive : Frame → Prop} (f : Frame)
    (daemonized : ∀ argv, motive (.run argv .daemonizing)) (configured : ∀ argv, motive (.run argv .configuring))
    (onStart : ∀ argv, motive (.run argv (.called .onStart)))
    (onUpdate : ∀ argv, motive (.run argv (.called .onUpdate)))
    (onStop : ∀ argv, motive (.run argv (.called .onStop))) (stopped : ∀ sig, motive (.signalHandler sig .stopping))
    (loaded : ∀ sig, motive (.signalHandler sig .configuring))
    (reloaded : ∀ sig, motive (.signalHandler sig .reloading))
    (stays : ∀ f : Frame, (∀ value, f.resume value = f) → motive f) : motive f := by
  cases f with
  | run argv pc =>
    cases pc with
    | daemonizing => exact daemonized argv
    | configuring => exact configured argv
    | called cb =>
      cases cb with
      | onStart => exact onStart argv
      | onUpdate => exact onUpdate argv
      | onStop => exact onStop argv
      | onReload => exact stays _ fun _ => rfl
    | _ => exact stays _ fun _ => rfl
  | signalHandler sig pc =>
    cases pc with
    | stopping => exact stopped sig
    | configuring => exact loaded sig
    | reloading => exact reloaded sig
    | _ => exact stays _ fun _ => rfl
  | _ => exact stays _ fun _ => rfl

/-- What another thread's step does to the calls of `stop` in progress: it enters one, or
the `i`-th executes a statement. -/
inductive ThreadMove (threads : List (Int × StopPc)) : Op → List (Int × StopPc) → Prop where
  | enter (code : Int) : ThreadMove threads .tau (threads ++ [(code, .exitCode)])
  | exitCode {i : Nat} {code : Int} (at' : threads[i]? = some (code, .exitCode)) :
      ThreadMove threads (.exitCode code) (threads.set i (code, .flag))
  | flag {i : Nat} {code : Int} (at' : threads[i]? = some (code, .flag)) :
      ThreadMove threads (.clearRunning code) (threads.set i (code, .notify))
  | notify {i : Nat} {code : Int} (at' : threads[i]? = some (code, .notify)) :
      ThreadMove threads (.notifyAll false) (threads.eraseIdx i)

/-- The three kinds of step, with the stack and the threads they leave. -/
inductive StepCase (s : Proc Dir) (l : Label) (op : Op) (stack : List Frame) (threads : List (Int × StopPc)) :
    Prop where
  | move {f : Frame} {rest : List Frame} {move : Move} (top : s.stack = f :: rest)
      (moves : Moves s.world f l op move) (after : stack = move.apply rest)
      (survive : threads = op.survivors s.threads)
  | signal {sig : Signal} (label : l = .signal sig) (performs : op = .deliver sig)
      (ready : s.deliverable sig = true) (after : stack = .signalHandler sig .log :: s.stack)
      (same : threads = s.threads)
  | thread (performs : ThreadMove s.threads op threads) (after : stack = s.stack)
      (label : (∃ code, l = .enter code) ∨ ∃ i, l = .thread i)

/-- **Inversion of a step**. -/
theorem step_cases {fs : PathSpace Dir File} {s t : Proc Dir} {l : Label} {op : Op}
    (h : s.step fs l = some (op, t)) :
    s.world.status = .alive ∧ t.world = op.apply fs s.world ∧ StepCase s l op t.stack t.threads := by
  unfold Proc.step at h
  split at h
  · rename_i alive
    obtain ⟨⟨op', stack, threads⟩, control, same⟩ := Option.map_eq_some_iff.1 h
    cases same
    refine ⟨alive, rfl, ?_⟩
    cases l with
    | main r =>
      cases top : s.stack with
      | nil => simp [Proc.control, top] at control
      | cons f rest =>
        simp only [Proc.control, top] at control
        obtain ⟨⟨_, move⟩, next, same⟩ := Option.map_eq_some_iff.1 control
        cases same
        exact .move top (moves_of_next next) rfl rfl
    | user a =>
      cases top : s.stack with
      | nil => simp [Proc.control, top] at control
      | cons f rest =>
        simp only [Proc.control, top] at control
        obtain ⟨⟨_, move⟩, act, same⟩ := Option.map_eq_some_iff.1 control
        cases same
        obtain ⟨acts, user⟩ := Frame.act_cases act
        exact .move top (.user acts user) rfl (by cases acts <;> rfl)
    | signal sig =>
      simp only [Proc.control] at control
      split at control
      · rename_i ready
        cases control
        exact .signal rfl rfl ready rfl rfl
      · cases control
    | enter code =>
      cases control
      exact .thread (.enter code) rfl (.inl ⟨code, rfl⟩)
    | thread i =>
      simp only [Proc.control] at control
      split at control
      · cases control
      · rename_i code pc at'
        cases control
        cases pc with
        | exitCode => exact .thread (.exitCode at') rfl (.inr ⟨i, rfl⟩)
        | flag => exact .thread (.flag at') rfl (.inr ⟨i, rfl⟩)
        | notify => exact .thread (.notify at') rfl (.inr ⟨i, rfl⟩)
  · cases h

/-- An operation that only a move of the main thread performs. -/
def Op.ofMain : Op → Bool
  | .tau | .exitCode _ | .clearRunning _ | .notifyAll false | .deliver _ => false
  | _ => true

theorem moves_of_step {fs : PathSpace Dir File} {s t : Proc Dir} {l : Label} {op : Op}
    (h : s.step fs l = some (op, t)) (main : op.ofMain = true) :
    ∃ f rest move, s.stack = f :: rest ∧ Moves s.world f l op move ∧ t.stack = move.apply rest := by
  obtain ⟨-, -, cases⟩ := step_cases h
  cases cases with
  | move top moves after => exact ⟨_, _, _, top, moves, after⟩
  | signal _ performs =>
    subst performs
    cases main
  | thread performs =>
    generalize t.threads = threads at performs
    cases performs <;> cases main

/-- Whose statements perform operations that nobody else performs. -/
inductive Performer where
  | run
  | daemonize
  | signalHandler
  | fromFile
  | owner
  | user
  deriving DecidableEq, Repr

def Op.performer? : Op → Option Performer
  | .setRunning | .configFile _ | .lockMutex | .unlockMutex | .wait | .wake => some .run
  | .began cb => some (if cb = .onReload then .signalHandler else .run)
  | .fork _ _ | .setsid _ | .install _ | .chdir _ _ | .exit _ => some .daemonize
  | .pureVirtual => some .signalHandler
  | .openConfig _ _ | .closeConfig _ | .outOfRange => some .fromFile
  | .destroyed | .exitDtor _ => some .owner
  | .setCwd _ _ | .setName _ | .setUpdateDuration _ | .getPid _ | .getSid _ | .openFd _ | .returned _ | .destroy =>
    some .user
  | _ => none

/-- A frame performs an operation of its own, on a label of its kind. -/
inductive Performs (w : World Dir) (l : Label) : Performer → Frame → Op → Move → Prop where
  | run {r : Reply} {argv : List Bytes} {pc : RunPc} {op : Op} {move : Move} (main : l = .main r)
      (h : RunMove w argv pc op move) : Performs w l .run (.run argv pc) op move
  | daemonize {r : Reply} {pc : DaemonizePc} {op : Op} {move : Move} (main : l = .main r)
      (h : DaemonizeMove w pc op move) : Performs w l .daemonize (.daemonize pc) op move
  | signalHandler {r : Reply} {sig : Signal} {pc : HandlerPc} {op : Op} {move : Move} (main : l = .main r)
      (h : HandlerMove w sig pc op move) : Performs w l .signalHandler (.signalHandler sig pc) op move
  | fromFile {r : Reply} {pc : FromFilePc} {op : Op} {move : Move} (main : l = .main r)
      (h : FromFileMove w pc op move) : Performs w l .fromFile (.fromFile pc) op move
  | owner {r : Reply} {pc : OwnerPc} {op : Op} {move : Move} (main : l = .main r)
      (h : OwnerMove w pc op move) : Performs w l .owner (.owner pc) op move
  | user {f : Frame} {a : Act} {op : Op} {move : Move} (user : l = .user a)
      (h : ActMove w f a op move) : Performs w l .user f op move

/-- **Who performs an operation**: the statement of the innermost frame behind it. -/
theorem performs_of_step {fs : PathSpace Dir File} {s t : Proc Dir} {l : Label} {op : Op} {p : Performer}
    (h : s.step fs l = some (op, t)) (who : op.performer? = some p) :
    ∃ f rest move, s.stack = f :: rest ∧ Performs s.world l p f op move ∧ t.stack = move.apply rest := by
  have main : op.ofMain = true := by
    cases op <;> first | rfl | cases who
  obtain ⟨f, rest, move, top, moves, after⟩ := moves_of_step h main
  have only : ∀ q, op.performer? = some q ∨ op.performer? = none → q = p := by
    rintro q (same | same)
    · exact Option.some.inj (same.symm.trans who)
    · cases same.symm.trans who
  refine ⟨f, rest, move, top, ?_, after⟩
  cases moves with
  | run _ h =>
    obtain rfl := only .run (by cases h <;> simp [Op.performer?])
    exact .run rfl h
  | daemonize _ h =>
    obtain rfl := only .daemonize (by cases h <;> simp [Op.performer?])
    exact .daemonize rfl h
  | signalHandler _ h =>
    obtain rfl := only .signalHandler (by cases h <;> simp [Op.performer?])
    exact .signalHandler rfl h
  | fromFile _ h =>
    obtain rfl := only .fromFile (by cases h <;> simp [Op.performer?])
    exact .fromFile rfl h
  | owner _ h =>
    obtain rfl := only .owner (by cases h <;> simp [Op.performer?])
    exact .owner rfl h
  | user h =>
    obtain rfl := only .user (by cases h <;> simp [Op.performer?])
    exact .user rfl h
  | exiting => cases who
  | stop _ h | lib _ h =>
    cases h
    all_goals cases who

/-- Where a call of `stop` in progress on another thread comes from. -/
inductive ThreadOrigin (threads : List (Int × StopPc)) (op : Op) (code : Int) : StopPc → Prop where
  | before {pc : StopPc} (mem : (code, pc) ∈ threads) : ThreadOrigin threads op code pc
  | called : ThreadOrigin threads op code .exitCode
  | stored (performs : op = .exitCode code) : ThreadOrigin threads op code .flag
  | lowered (performs : op = .clearRunning code) : ThreadOrigin threads op code .notify

theorem thread_origin {fs : PathSpace Dir File} {s t : Proc Dir} {l : Label} {op : Op}
    (h : s.step fs l = some (op, t)) {code : Int} {pc : StopPc} (mem : (code, pc) ∈ t.threads) :
    ThreadOrigin s.threads op code pc := by
  obtain ⟨-, -, cases⟩ := step_cases h
  cases cases with
  | move _ _ _ survive =>
    rw [survive] at mem
    unfold Op.survivors at mem
    split at mem
    · split at mem
      · cases mem
      · exact .before mem
    · exact .before mem
  | signal _ _ _ _ same => exact .before (same ▸ mem)
  | thread performs =>
    generalize t.threads = threads at performs mem
    cases performs with
    | enter =>
      rcases List.mem_append.1 mem with mem | now
      · exact .before mem
      · cases List.mem_singleton.1 now
        exact .called
    | exitCode =>
      rcases List.mem_or_eq_of_mem_set mem with mem | now
      · exact .before mem
      · cases now
        exact .stored rfl
    | flag =>
      rcases List.mem_or_eq_of_mem_set mem with mem | now
      · exact .before mem
      · cases now
        exact .lowered rfl
    | notify => exact .before (List.mem_of_mem_eraseIdx mem)

/-- Forwards: what the innermost function does next, the process does. -/
theorem step_of_next (fs : PathSpace Dir File) {s : Proc Dir} {f : Frame} {rest : List Frame} {r : Reply} {op : Op}
    {move : Move} (alive : s.world.status = .alive) (top : s.stack = f :: rest)
    (next : f.next s.world r = some (op, move)) :
    s.step fs (.main r) = some (op, ⟨move.apply rest, op.apply fs s.world, op.survivors s.threads⟩) := by
  unfold Proc.step Proc.control
  rw [if_pos alive, top]
  simp only [next, Option.map_some]

end Inversion

end Daemonpp
