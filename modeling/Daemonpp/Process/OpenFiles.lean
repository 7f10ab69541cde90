import Daemonpp.Lib.Budget
import Daemonpp.Process.Descriptors

/-!
# Who owns the open descriptors

`from_file` opens a descriptor and closes it, whatever signals interrupt it in
between, and `syslog` keeps one socket. `library` lists what the two own in a
state, `userFds` what user code has opened and nobody has closed. As long as user
code and `daemonize` leave the library's descriptors alone, the open ones are
these and no others (`descriptors_accounted`): a reload leaves none behind.
-/

namespace Daemonpp

/-- The descriptor of a stream that `from_file` has open. -/
def Frame.fd? : Frame → Option Nat
  | .fromFile (.parse _ _ fd) | .fromFile (.close _ fd) => fd
  | _ => none

/-- The descriptors that the calls of `from_file` in progress have open. -/
def reading (stack : List Frame) : List Nat := stack.filterMap Frame.fd?

/-- The descriptors that `syslog` and `from_file` own. -/
def library {Dir : Type} (s : Proc Dir) : List Nat := s.world.logFd.toList ++ reading s.stack

/-- `from_file` opens or closes its stream. -/
def Op.ofStream : Op → Bool
  | .openConfig _ _ | .closeConfig _ => true
  | _ => false

/-- The descriptors of user code behind an operation: `daemonize` closes some, too. -/
def Op.userFdsAfter (fds : List Nat) : Op → List Nat
  | .openFd fd => fd :: fds
  | .closeFd fd => fds.erase fd
  | _ => fds

/-- The standard descriptors, and those that user code has opened, less what has been closed. -/
def userFds (ops : List Op) : List Nat := ops.foldl Op.userFdsAfter [0, 1, 2]

/-- The next step closes no descriptor of the library, unless it is the library's own step. -/
def sparesLibrary {Dir : Type} (s : Proc Dir) (l : Label) : Bool :=
  match s.control l with
  | some (.closeFd fd, _) => fd ∉ library s
  | _ => true

theorem reading_cons (f : Frame) (rest : List Frame) : reading (f :: rest) = f.fd?.toList ++ reading rest := by
  unfold reading
  cases fd : f.fd? with
  | none => rw [List.filterMap_cons_none fd]; rfl
  | some fd' => rw [List.filterMap_cons_some fd]; rfl

theorem Frame.fd?_resume (f : Frame) (value : Option Dconfig) : (f.resume value).fd? = f.fd? := by
  unfold resume
  split <;> rfl

theorem Frame.fd?_of_kind {f : Frame} (other : f.kind ≠ .fromFile) : f.fd? = none := by
  cases f with
  | fromFile => exact absurd rfl other
  | _ => rfl

theorem reading_ret (value : Option Dconfig) (rest : List Frame) :
    reading (Move.apply rest (.ret value)) = reading rest := by
  cases rest with
  | nil => rfl
  | cons g below => rw [Move.apply, reading_cons, reading_cons, g.fd?_resume]

section Run

variable {Dir File : Type} {fs : PathSpace Dir File} {s t : Proc Dir} {l : Label} {op : Op} {ops : List Op}

/-- A descriptor that `from_file` opens or closes in a statement. -/
inductive ReadStep (stack stack' : List Frame) : Op → Prop where
  | opens (path : Bytes) (fd : Option Nat) (adds : reading stack' = fd.toList ++ reading stack) :
      ReadStep stack stack' (.openConfig path fd)
  | closes (fd : Option Nat) (drops : reading stack = fd.toList ++ reading stack') :
      ReadStep stack stack' (.closeConfig fd)
  | other {op : Op} (same : reading stack' = reading stack) (apart : op.ofStream = false) : ReadStep stack stack' op

theorem readStep (stacked : WellStacked s.stack) (alive : t.world.status = .alive)
    (step : s.step fs l = some (op, t)) : ReadStep s.stack t.stack op := by
  obtain ⟨-, world, cases⟩ := step_cases step
  cases cases with
  | thread performs after =>
    rw [after]
    generalize t.threads = threads at performs
    cases performs <;> exact .other rfl rfl
  | signal _ performs _ after =>
    rw [performs, after]
    exact .other rfl rfl
  | @move f rest move top moves after =>
    rw [top, after]
    by_cases reads : f.kind = .fromFile
    · cases moves with
      | fromFile _ h =>
        cases h with
        | empty => exact .other (reading_ret _ rest) rfl
        | «open» path ifs fd => exact .opens path fd (by simp [Move.apply, reading_cons, Frame.fd?])
        | parse => exact .other rfl rfl
        | outOfRange =>
          rw [world] at alive
          cases alive
        | close cfg fd => exact .closes fd (by rw [reading_ret, reading_cons]; rfl)
      | user _ user =>
        cases f with
        | callback | owner => cases reads
        | _ => cases user
      | _ => cases reads
    · have apart : op.ofStream = false := by
        cases moves with
        | fromFile => exact absurd rfl reads
        | exiting => rfl
        | run _ h | daemonize _ h | stop _ h | signalHandler _ h | lib _ h | owner _ h | user h => cases h <;> rfl
      refine .other ?_ apart
      have kinds := moves.ofKind (stacked.top top).1
      rw [reading_cons, Frame.fd?_of_kind reads]
      cases move with
      | goto f' =>
        have idle : f'.fd? = none := by
          rcases kinds with same | rfl
          · exact Frame.fd?_of_kind (same ▸ reads)
          · rfl
        rw [Move.apply, reading_cons, idle]
      | call f' g =>
        have idle : f'.fd? = none := Frame.fd?_of_kind (kinds.1 ▸ reads)
        have idle' : g.fd? = none := by
          cases moves with
          | fromFile => exact absurd rfl reads
          | run _ h | daemonize _ h | stop _ h | signalHandler _ h | lib _ h | owner _ h | user h => cases h <;> rfl
        rw [Move.apply, reading_cons, reading_cons, idle, idle']
        rfl
      | ret value => exact reading_ret value rest
      | leave => rfl

/-- The descriptors that are open are the library's and those of user code. -/
structure Accounted (ops : List Op) (s : Proc Dir) : Prop where
  stacked : WellStacked s.stack
  files : s.world.status = .alive → s.world.fds.Perm (library s ++ userFds ops)

theorem accounted_launch (obj : Object) (pid : Nat) (cwd : Dir) : Accounted [] (Proc.launch obj pid cwd) where
  stacked := stacked_launch obj pid cwd
  files _ := .refl _

theorem userFds_concat (ops : List Op) (op : Op) : userFds (ops ++ [op]) = op.userFdsAfter (userFds ops) := by
  unfold userFds
  rw [List.foldl_append]
  rfl

/-- What an operation does to the descriptors, whose it may be. -/
inductive FileCase (w w' : World Dir) : Op → Prop where
  | openConfig (path : Bytes) (fd : Option Nat) (fds : w'.fds = fd.toList ++ w.fds) (log : w'.logFd = w.logFd) :
      FileCase w w' (.openConfig path fd)
  | closeConfig (fd : Option Nat) (fds : w'.fds = fd.toList.foldl List.erase w.fds) (log : w'.logFd = w.logFd) :
      FileCase w w' (.closeConfig fd)
  | openFd (fd : Nat) (fds : w'.fds = fd :: w.fds) (log : w'.logFd = w.logFd) : FileCase w w' (.openFd fd)
  | closeFd (fd : Nat) (fds : w'.fds = w.fds.erase fd) (log : w'.logFd = w.logFd) : FileCase w w' (.closeFd fd)
  /-- The socket of `syslog` gives way to another one, or to none. -/
  | relog (call : LibCall) (answer : Answer) (fd : Option Nat)
      (fds : w'.fds = fd.toList ++ w.logFd.toList.foldl List.erase w.fds) (log : w'.logFd = fd) :
      FileCase w w' (.finish call answer)
  | other {op : Op} (fds : w'.fds = w.fds) (log : w'.logFd = w.logFd) (apart : op.ofStream = false)
      (user : ∀ fds, op.userFdsAfter fds = fds) : FileCase w w' op

theorem fileCase (fs : PathSpace Dir File) (w : World Dir) (op : Op) : FileCase w (op.apply fs w) op := by
  cases op with
  | openConfig path fd => cases fd <;> exact .openConfig path _ rfl rfl
  | closeConfig fd => cases fd <;> exact .closeConfig _ rfl rfl
  | openFd fd => exact .openFd fd rfl rfl
  | closeFd fd => exact .closeFd fd rfl rfl
  | finish call answer =>
    cases call with
    | syslog =>
      rcases Op.apply_syslog fs w answer with ⟨-, fds, log⟩ | ⟨-, ⟨fds, log⟩ | ⟨fds, log⟩⟩
      · exact .relog _ _ _ (by rw [fds, w.disconnectLog_fds]; rfl) log
      · exact .other fds log rfl fun _ => rfl
      · exact .relog _ _ none (by rw [fds, w.disconnectLog_fds]; rfl) log
    | closelog => exact .relog _ _ none (World.disconnectLog_fds _) (World.disconnectLog_logFd _)
    | heap | openlog => exact .other rfl rfl rfl fun _ => rfl
  | install sig => cases sig <;> exact .other rfl rfl rfl fun _ => rfl
  | chdir path ok | setCwd path ok => cases ok <;> exact .other rfl rfl rfl fun _ => rfl
  | _ => exact .other rfl rfl rfl fun _ => rfl

theorem sparesLibrary_iff {fd : Nat} (step : s.step fs l = some (.closeFd fd, t)) :
    sparesLibrary s l = true ↔ fd ∉ library s := by
  unfold Proc.step at step
  split at step
  · obtain ⟨⟨op, stack, threads⟩, control, same⟩ := Option.map_eq_some_iff.1 step
    cases same
    simp [sparesLibrary, control]
  · cases step

theorem Accounted.step (acc : Accounted ops s) (step : s.step fs l = some (op, t)) (spares : sparesLibrary s l) :
    Accounted (ops ++ [op]) t := by
  obtain ⟨before, world, -⟩ := step_cases step
  have files := acc.files before
  refine ⟨acc.stacked.step step, fun alive => ?_⟩
  have reads := readStep acc.stacked alive step
  have effect := fileCase fs s.world op
  rw [← world] at effect
  rw [userFds_concat]
  unfold library at files ⊢
  cases effect with
  | openConfig path fd fds log =>
    cases reads with
    | opens _ _ adds =>
      rw [fds, log, adds]
      cases fd with
      | none => exact files
      | some fd =>
        have front : (s.world.logFd.toList ++ (fd :: reading s.stack)).Perm
            (fd :: (s.world.logFd.toList ++ reading s.stack)) := List.perm_middle
        exact (files.cons fd).trans (front.symm.append_right (userFds ops))
    | other _ apart => cases apart
  | closeConfig fd fds log =>
    cases reads with
    | closes _ drops =>
      rw [fds, log]
      rw [drops] at files
      cases fd with
      | none => exact files
      | some fd =>
        have front : s.world.fds.Perm (fd :: (s.world.logFd.toList ++ reading t.stack ++ userFds ops)) :=
          files.trans (List.perm_middle.append_right (userFds ops))
        have dropped := front.erase fd
        rwa [List.erase_cons_head] at dropped
    | other _ apart => cases apart
  | openFd fd fds log =>
    cases reads with
    | other same =>
      rw [fds, log, same]
      exact (files.cons fd).trans List.perm_middle.symm
  | closeFd fd fds log =>
    cases reads with
    | other same =>
      rw [fds, log, same]
      have apart : fd ∉ s.world.logFd.toList ++ reading s.stack := (sparesLibrary_iff step).1 spares
      have dropped := files.erase fd
      rwa [List.erase_append_right _ apart] at dropped
  | relog call answer fd fds log =>
    cases reads with
    | other same =>
      rw [fds, log, same, List.append_assoc]
      refine List.Perm.append_left _ ?_
      change (s.world.logFd.toList.foldl List.erase s.world.fds).Perm (reading s.stack ++ userFds ops)
      cases held : s.world.logFd with
      | none =>
        rw [held] at files
        exact files
      | some fd' =>
        rw [held] at files
        have dropped := files.erase fd'
        rwa [Option.toList_some, List.cons_append, List.cons_append, List.nil_append, List.erase_cons_head] at dropped
  | other fds log apart user =>
    cases reads with
    | other same =>
      rw [fds, log, same, user]
      exact files
    | opens | closes => cases apart

/-- **Every open descriptor has an owner.** As long as no other code closes a descriptor of the library,
the open ones are those of the calls of `from_file` in progress, the socket of `syslog`, and those that
user code has opened and nobody has closed. -/
theorem descriptors_accounted {obj : Object} {pid : Nat} {cwd : Dir}
    (run : (process fs).Run (fun s l => sparesLibrary s l) (Proc.launch obj pid cwd) ops s)
    (alive : s.world.status = .alive) :
    s.world.fds.Perm (s.world.logFd.toList ++ reading s.stack ++ userFds ops) :=
  (run.invariant (I := Accounted) (accounted_launch obj pid cwd)
    fun _ acc ⟨_, spares, step⟩ => acc.step step spares).files alive

end Run

/-- `on_start` has opened a file and logged a message; in the first wait SIGHUP arrives, and `from_file`
has the configuration file open. -/
theorem descriptors_accounted_reload : ∃ ops s,
    (process lexical).Run (fun s l => sparesLibrary s l) fresh ops s ∧
      s.world.fds = [2, 1, 0] ∧ s.world.logFd = some 1 ∧ reading s.stack = [2] ∧ userFds ops = [0] ∧
      s.world.fds.Perm (s.world.logFd.toList ++ reading s.stack ++ userFds ops) := by
  obtain ⟨ops, s, run, there⟩ := (process lexical).exists_run (C := fun s l => sparesLibrary s l)
    (P := fun ops s => s.world.status = .alive && s.world.fds = [2, 1, 0] && s.world.logFd = some 1 &&
      reading s.stack = [2] && userFds ops = [0])
    (List.flatten [[.user (.run [bytes "--config", bytes "/c"])], statements 2, libCalls 1, statements 1,
      forkAndInstall, bootDone, statements 2, [.main (.file (.ofContent []))], libCalls 1, statements 3,
      [.user .openFile, .user (.lib logCalls)], libCalls 3, startReturns, statements 2, [.user .ret],
      statements 3, [.signal .SIGHUP], statements 1, libCalls 3, statements 1,
      [.main (.file (.ofContent []))], libCalls 1]) (s := fresh) rfl
  simp only [Bool.and_eq_true, decide_eq_true_eq] at there
  exact ⟨ops, s, run, there.1.1.1.2, there.1.1.2, there.1.2, there.2, descriptors_accounted run there.1.1.1.1⟩

end Daemonpp
