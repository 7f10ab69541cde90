import Daemonpp.Process.Effect
import Daemonpp.Process.Launch

/-!
# The configuration file that is read

`run` keeps the argument behind `--config` as it is spelled, and `from_file` opens
it for `on_start` and for every reload: behind `daemonize`, which changes the
working directory, and behind whatever `set_cwd` did since. So a relative path
denotes another file than on the command line (`other_file_opened`). The path
itself never changes (`Knows`): every call of `from_file` opens it, and opens the
file that the command line named where the path is absolute or the working
directory is still the one the process was launched in (`config_file_opened`).
-/

namespace Daemonpp

open Lib (Layered)

/-- The argument behind the first `--config`. -/
theorem scanConfig_first {before after : List Bytes} {path : Bytes} (first : bytes "--config" ∉ before) :
    scanConfig (before ++ bytes "--config" :: path :: after) = some (some path) := by
  induction before with
  | nil => rw [List.nil_append, scanConfig, if_pos rfl, List.head?_cons]
  | cons arg before ih =>
    rw [List.mem_cons, not_or] at first
    rw [List.cons_append, scanConfig, if_neg (Ne.symm first.1)]
    exact ih first.2

/-- `run` is called with the arguments of the program only. -/
def runsWith (argv : List Bytes) : Label → Bool
  | .user (.run argv') => argv' == argv
  | _ => true

/-- Behind the argument loop of `run`. -/
def RunPc.scanned : RunPc → Bool
  | .guard | .scan | .ret => false
  | _ => true

/-- What a frame may rely on: the arguments of `run`, the path in `m_config_file` once
they are scanned (`ready`), and the path `from_file` was called with. -/
def Frame.Knows (argv : List Bytes) (path : Bytes) (ready : Prop) : Frame → Prop
  | .run argv' pc => argv' = argv ∧ (pc.scanned = true → ready)
  | .daemonize _ | .signalHandler _ _ => ready
  | .fromFile (.enter filename) => filename = path
  | _ => True

theorem Frame.Knows.mono {argv : List Bytes} {path : Bytes} {ready ready' : Prop} {f : Frame}
    (h : f.Knows argv path ready) (imp : ready → ready') : f.Knows argv path ready' := by
  unfold Knows at *
  split
  · exact ⟨h.1, fun scanned => imp (h.2 scanned)⟩
  · exact imp h
  · exact imp h
  · exact h
  · trivial

theorem Frame.Knows.resume {argv : List Bytes} {path : Bytes} {ready : Prop} {f : Frame} (value : Option Dconfig)
    (h : f.Knows argv path ready) : (f.resume value).Knows argv path ready := by
  cases f using Frame.resume_cases with
  | stays f stays =>
    rw [stays value]
    exact h
  | stopped | loaded | reloaded => exact h
  | _ => exact ⟨h.1, fun _ => h.2 rfl⟩

section Run

variable {Dir File : Type} {fs : PathSpace Dir File} {s t : Proc Dir} {l : Label} {op : Op}
variable {argv : List Bytes} {path : Bytes}

/-- Once the arguments are scanned, `m_config_file` is the path of the command line. -/
structure Configured (argv : List Bytes) (path : Bytes) (s : Proc Dir) : Prop where
  frames : Layered (fun f _ => f.Knows argv path (s.world.obj.configFile = path)) s.stack
  handled : s.world.handled ≠ [] → s.world.obj.configFile = path

/-- The top frame's statement stores the path of the command line, if any. -/
theorem stores_path (found : scanConfig argv = some (some path)) (h : Configured argv path s)
    (step : s.step fs l = some (op, t)) : ∀ path', op = .configFile path' → path' = path := by
  rintro path' rfl
  have ⟨_, rest, move, top, .run _ stores, _⟩ := performs_of_step step rfl
  have frames := h.frames
  rw [top] at frames
  cases stores with
  | found scan =>
    rw [frames.1.1, found] at scan
    exact (Option.some.inj (Option.some.inj scan)).symm

/-- A statement keeps what its frame knows, where `m_config_file` holds `after` behind it. -/
theorem Moves.knows {w : World Dir} {f : Frame} {move : Move} {rest : List Frame} {after : Bytes}
    (moves : Moves w f l op move) (found : scanConfig argv = some (some path)) (with' : runsWith argv l = true)
    (config : after = op.configFileAfter w.obj.configFile) (knows : f.Knows argv path (after = path)) :
    move.Keeps (fun f _ => f.Knows argv path (after = path)) rest := by
  have resumed : ∀ value, Move.Keeps (fun f _ => f.Knows argv path (after = path)) rest (.ret value) :=
    fun value g below _ knows => knows.resume value
  cases moves with
  | run _ h =>
    cases h with
    | refuse => exact ⟨⟨knows.1, nofun⟩, trivial⟩
    | guard => exact ⟨knows.1, nofun⟩
    | found scan =>
      rw [knows.1, found] at scan
      cases scan
      exact ⟨⟨knows.1, fun _ => config⟩, trivial⟩
    | missing scan | absent scan =>
      rw [knows.1, found] at scan
      cases scan
    | daemonize => exact ⟨⟨knows.1, fun _ => knows.2 rfl⟩, knows.2 rfl⟩
    | config => exact ⟨⟨knows.1, fun _ => knows.2 rfl⟩, config.symm.trans (knows.2 rfl)⟩
    | start | started | update | stop => exact ⟨⟨knows.1, fun _ => knows.2 rfl⟩, trivial⟩
    | ret => trivial
    | _ => exact ⟨knows.1, fun _ => knows.2 rfl⟩
  | signalHandler _ h =>
    cases h with
    | config => exact ⟨knows, config.symm.trans knows⟩
    | pure | done => trivial
    | _ => exact ⟨knows, trivial⟩
  | daemonize _ h =>
    cases h with
    | init | noSetsid | noChdir => exact ⟨knows, trivial⟩
    | closeLast => exact resumed _
    | exit => trivial
    | _ => exact knows
  | stop _ h | fromFile _ h | lib _ h | owner _ h =>
    cases h
    all_goals first | exact resumed _ | exact ⟨trivial, trivial⟩ | trivial
  | exiting => trivial
  | user h _ =>
    cases h with
    | ret => exact resumed _
    | destroy => trivial
    | run argv' => exact ⟨knows, eq_of_beq with', nofun⟩
    | stop | setCwd | noSetCwd | setName | lib => exact ⟨knows, trivial⟩
    | _ => exact knows

theorem Configured.step (found : scanConfig argv = some (some path)) (h : Configured argv path s)
    (with' : runsWith argv l = true) (step : s.step fs l = some (op, t)) : Configured argv path t := by
  obtain ⟨-, world, -⟩ := step_cases step
  have config : t.world.obj.configFile = op.configFileAfter s.world.obj.configFile := by
    rw [world, Op.apply_configFile]
  have kept : s.world.obj.configFile = path → t.world.obj.configFile = path := by
    intro same
    rw [config]
    unfold Op.configFileAfter
    split
    · exact stores_path found h step _ rfl
    · exact same
  constructor
  · refine layered_step step (h.frames.mono fun f _ knows => knows.mono kept) ?_ ?_
    · exact fun f rest move _ moves knows => moves.knows found with' config knows
    · rintro sig - ready
      unfold Proc.deliverable at ready
      rw [Bool.and_eq_true, decide_eq_true_eq] at ready
      exact kept (h.handled (List.ne_nil_of_mem ready.1))
  · rw [world, Op.apply_handled, ← world]
    intro handled
    by_cases before : s.world.handled = []
    · -- a handler is installed by `daemonize`, behind the argument loop
      obtain ⟨sig, rfl⟩ : ∃ sig, op = .install sig := by
        unfold Op.handledAfter at handled
        split at handled
        · exact ⟨_, rfl⟩
        · exact absurd before handled
      have ⟨_, rest, move, top, .daemonize _ _, _⟩ := performs_of_step step rfl
      have frames := h.frames
      rw [top] at frames
      exact kept frames.1
    · exact kept (h.handled before)

theorem configured_launch (argv : List Bytes) (path : Bytes) (obj : Object) (pid : Nat) (cwd : Dir) :
    Configured argv path (Proc.launch obj pid cwd) where
  frames := ⟨trivial, trivial⟩
  handled := fun handled => absurd rfl handled

/-- In every run with the program's arguments, they are known. -/
theorem configured_of_run (found : scanConfig argv = some (some path)) {obj : Object} {pid : Nat} {cwd : Dir}
    {ops : List Op} (run : (process fs).Run (fun _ l => runsWith argv l = true) (Proc.launch obj pid cwd) ops s) :
    Configured argv path s :=
  run.always (configured_launch argv path obj pid cwd)
    fun configured ⟨_, with', step⟩ => configured.step found with' step

/-- What the main thread does next is to open `path`, however that comes out. -/
structure OpensNext (fs : PathSpace Dir File) (path : Bytes) (s : Proc Dir) : Prop where
  only : ∀ r op t, s.step fs (.main r) = some (op, t) → ∃ fd, op = .openConfig path fd
  opens : s.world.status = .alive → ∀ ifs, ∃ fd t, s.step fs (.main (.file ifs)) = some (.openConfig path fd, t)

theorem opensNext_of_call {rest : List Frame} (named : path ≠ [])
    (call : s.stack = .fromFile (.enter path) :: rest) : OpensNext fs path s := by
  constructor
  · intro r op t step
    obtain ⟨-, -, cases⟩ := step_cases step
    cases cases with
    | move top moves =>
      cases call.symm.trans top
      cases moves with
      | fromFile _ reads =>
        cases reads with
        | empty _ unnamed => exact absurd unnamed named
        | «open» _ _ fd => exact ⟨fd, rfl⟩
    | signal label => cases label
    | thread _ _ label =>
      rcases label with ⟨_, label⟩ | ⟨_, label⟩
      · cases label
      · cases label
  · intro alive ifs
    obtain ⟨fd, move, next⟩ : ∃ fd move,
        Frame.next s.world (.fromFile (.enter path)) (.file ifs) = some (.openConfig path fd, move) := by
      rw [Frame.next, fromFileNext, if_neg (by simpa using named)]
      exact ⟨_, _, rfl⟩
    exact ⟨fd, _, step_of_next fs alive call next⟩

/-- **Every call of `from_file` opens the file the command line named**, for `on_start` and for every
reload, where the path is absolute or the working directory is the launch directory. A call of `from_file`
is on top of the stack in the state `s`, about to look at its argument `filename`. -/
theorem config_file_opened {obj : Object} {pid : Nat} {launch : Dir} {before after : List Bytes} {ops : List Op}
    {filename : Bytes} {rest : List Frame} (first : bytes "--config" ∉ before) (named : path ≠ [])
    (run : (process fs).Run (fun _ l => runsWith (before ++ bytes "--config" :: path :: after) l = true)
      (Proc.launch obj pid launch) ops s)
    (call : s.stack = .fromFile (.enter filename) :: rest) (place : Absolute path ∨ s.world.cwd = launch) :
    filename = path ∧ OpensNext fs path s ∧ fs.file s.world.cwd path = fs.file launch path := by
  have frames := (configured_of_run (scanConfig_first first) run).frames
  rw [call] at frames
  obtain rfl : filename = path := frames.1
  refine ⟨rfl, opensNext_of_call named call, ?_⟩
  rcases place with absolute | there
  · exact fs.file_absolute _ _ _ absolute
  · rw [there]

end Run

/-- The object of a process launched in `/home`. -/
def launchedInHome : Proc Bytes := Proc.launch (.construct (bytes "service")) 1 (bytes "/home")

/-- `run(argv)` up to the opening of an empty configuration file. -/
def openConfigFile (argv : List Bytes) : List Label :=
  List.flatten [[.user (.run argv)], statements 2, libCalls 1, statements 1, forkAndInstall, bootDone, statements 2,
    [.main (.file (.ofContent []))]]

/-- A reload with an absolute path: `on_start` has changed the directory. -/
theorem config_file_opened_reload : bytes "--config" ∉ [bytes "service"] ∧ bytes "/etc/service.conf" ≠ [] ∧
    ∃ ops filename rest s, (process lexical).Run
        (fun _ l => runsWith ([bytes "service"] ++ bytes "--config" :: bytes "/etc/service.conf" :: []) l = true)
        launchedInHome ops s ∧
      s.stack = .fromFile (.enter filename) :: rest ∧
      (Absolute (bytes "/etc/service.conf") ∨ s.world.cwd = bytes "/home") ∧ s.world.cwd = bytes "/tmp" ∧
      filename = bytes "/etc/service.conf" ∧ OpensNext lexical (bytes "/etc/service.conf") s ∧
      lexical.file s.world.cwd (bytes "/etc/service.conf") =
        lexical.file (bytes "/home") (bytes "/etc/service.conf") := by
  have first : bytes "--config" ∉ [bytes "service"] := by decide
  have named : bytes "/etc/service.conf" ≠ [] := by decide
  have absolute : Absolute (bytes "/etc/service.conf") := by decide
  obtain ⟨ops, s, run, there⟩ := (process lexical).exists_run
    (C := fun _ l => runsWith ([bytes "service"] ++ bytes "--config" :: bytes "/etc/service.conf" :: []) l = true)
    (P := fun _ s => s.stack.head? = some (.fromFile (.enter (bytes "/etc/service.conf"))) ∧
      s.world.cwd = bytes "/tmp")
    (List.flatten [openConfigFile ([bytes "service"] ++ bytes "--config" :: bytes "/etc/service.conf" :: []),
      libCalls 1, statements 3, [.user (.setCwd (bytes "/tmp") true)], libCalls 1, [.signal .SIGHUP],
      statements 1, libCalls 3, statements 1]) (s := launchedInHome) rfl
  obtain ⟨top, tmp⟩ := of_decide_eq_true there
  obtain ⟨rest, call⟩ := List.head?_eq_some_iff.1 top
  exact ⟨first, named, ops, _, rest, s, run, call, .inl absolute, tmp,
    config_file_opened first named run call (.inl absolute)⟩

/-- **A relative path denotes another file** once `daemonize` has changed the directory. -/
theorem other_file_opened : ∃ ops opened fd t,
    (process lexical).Run
      (fun _ l => runsWith [bytes "service", bytes "--config", bytes "service.conf"] l = true)
      launchedInHome (ops ++ [.openConfig opened fd]) t ∧
    lexical.file t.world.cwd opened ≠ lexical.file (bytes "/home") (bytes "service.conf") := by
  obtain ⟨ops, t, run, ends⟩ := (process lexical).exists_run
    (C := fun _ l => runsWith [bytes "service", bytes "--config", bytes "service.conf"] l = true)
    (P := fun ops t => ops.getLast? = some (.openConfig (bytes "service.conf") (some 0)) ∧ t.world.cwd = bytes "/")
    (openConfigFile [bytes "service", bytes "--config", bytes "service.conf"]) (s := launchedInHome) rfl
  obtain ⟨last, root⟩ := of_decide_eq_true ends
  rw [← List.dropLast_append_getLast? _ last] at run
  exact ⟨_, _, _, t, run, by rw [root]; decide⟩

end Daemonpp
