import Daemonpp.Process.Stack

/-!
# The launched process

A process starts where its object has been constructed, with no handler
installed, no lock taken and no other thread: `Proc.launch`. For runs on concrete
inputs, `lexical` resolves names as they are spelled, and the label lists are the
parts such a run is put together from.
-/

namespace Daemonpp

variable {Dir File : Type} {fs : PathSpace Dir File}

/-- The process behind the construction of `obj`, with the id `pid`, in `cwd`. -/
def Proc.launch (obj : Object) (pid : Nat) (cwd : Dir) : Proc Dir := ⟨[.owner .live], { obj, pid, cwd }, []⟩

theorem stacked_launch (obj : Object) (pid : Nat) (cwd : Dir) : WellStacked (Proc.launch obj pid cwd).stack :=
  ⟨⟨⟨trivial, rfl⟩, trivial⟩, _, _, rfl, rfl⟩

/-- A resolution by spelling: a relative path is appended to the directory. -/
def lexical : PathSpace Bytes Bytes where
  enter dir path := if Absolute path then path else dir ++ bytes "/" ++ path
  file dir path := if Absolute path then path else dir ++ bytes "/" ++ path
  enter_absolute d d' path absolute := by simp [absolute]
  file_absolute d d' path absolute := by simp [absolute]

/-- A fresh object in the root directory. -/
def fresh : Proc Bytes := Proc.launch (.construct (bytes "service")) 1 (bytes "/")

/-- The next `n` statements of the main thread. -/
def statements (n : Nat) : List Label := List.replicate n (.main .done)

/-- `n` library calls, one after the other. -/
def libCalls (n : Nat) : List Label := (List.replicate n [.main .done, .main (.ok true)]).flatten ++ statements 1

/-- `daemonize`, up to where it has installed the handlers. -/
def forkAndInstall : List Label :=
  List.flatten [[.main (.fork 0 2), .main .done], libCalls 2, [.main (.ok true)], statements 3]

/-- `run` without arguments, up to where `daemonize` has installed the handlers. -/
def bootHandlers : List Label := statements 3 ++ forkAndInstall

/-- From there to the return of `daemonize`. -/
def bootDone : List Label := .main (.ok true) :: statements 3

/-- `m_is_running = true`, `from_file` without a file, and the call of `on_start`. -/
def bootStart : List Label := statements 4

/-- The return of `on_start`, up to the first test of the flag. -/
def startReturns : List Label := List.flatten [[.user .ret], statements 1, libCalls 1]

/-- SIGTERM and its `signal_handler`. -/
def handleTerm : List Label := List.flatten [[.signal .SIGTERM], statements 1, libCalls 3, statements 5]

/-- SIGHUP and its `signal_handler` up to the call of `on_reload`. -/
def handleHup : List Label := List.flatten [[.signal .SIGHUP], statements 1, libCalls 3, statements 3]

end Daemonpp
