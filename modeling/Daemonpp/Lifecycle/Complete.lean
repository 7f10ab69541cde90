import Daemonpp.Lifecycle.Phase

/-!
# A run ends with the whole life

`run` gives control back to its caller only behind `on_stop`: from the statement
that sets the flag on, its frame stays on the stack until `on_stop` has returned
(`underway_step`), and by then the callbacks begun are those of a whole life
(`complete_of_run`). What leaves `run` otherwise ends the process, and behind
`daemonize` that is the parser or a call of a pure virtual function only, so a
process that ends by its own code without either has lived its whole life
(`finished_complete`). Every length of life occurs (`exists_life`).
-/

namespace Daemonpp

open Lib (Path)

/-- A phase of `run` between the statement that sets the flag and its return. -/
def Phase.going : Phase → Bool
  | .prep | .ended => false
  | _ => true

/-- A call of `run` is past the statement that sets the flag and has not returned. -/
def Underway {Dir : Type} (s : Proc Dir) : Prop := ∃ argv pc, .run argv pc ∈ s.stack ∧ pc.phase.going = true

/-- The callbacks of a whole life have been begun. -/
def LivedOut (ops : List Op) : Prop := ∃ n, begun ops = lifecycle n

/-- Behind a whole life nothing begins. -/
theorem lifecycle_last {n m : Nat} {x : Callback} : ¬ lifecycle n ++ [x] <+: lifecycle m := by
  have once : Callback.onStop ∉ .onStart :: List.replicate m .onUpdate := by simp
  have last : lifecycle m = (.onStart :: List.replicate m .onUpdate) ++ [.onStop] := rfl
  have stop : Callback.onStop ∈ lifecycle n := by simp [lifecycle]
  rw [last, List.prefix_concat_iff]
  rintro (same | before)
  · obtain ⟨same, -⟩ := List.append_inj' same rfl
    exact once (same ▸ stop)
  · exact once (before.subset (List.mem_append_left _ stop))

theorem LivedOut.snoc {ops : List Op} {op : Op} {phase : Phase} (h : LivedOut ops)
    (shape : Shape (begun (ops ++ [op])) phase) : LivedOut (ops ++ [op]) := by
  obtain ⟨n, whole⟩ := h
  rw [begun_concat, whole] at shape
  cases begins : op.begins with
  | none => exact ⟨n, by simp [begins, whole]⟩
  | some cb =>
    obtain ⟨m, before⟩ := shape.isPrefix
    rw [begins] at before
    exact absurd before lifecycle_last

theorem begun_append (ops ops' : List Op) : begun (ops ++ ops') = begun ops ++ begun ops' :=
  List.filterMap_append

section Run

variable {Dir File : Type} {fs : PathSpace Dir File} {s₀ s t : Proc Dir} {l : Label} {op : Op} {ops : List Op}
variable {argv : List Bytes}

/-- What becomes of a frame: it stays, it is the one that moves, or it goes on behind a call. -/
theorem frame_follows (step : s.step fs l = some (op, t)) {f : Frame} (mem : f ∈ s.stack) :
    f ∈ t.stack ∨ (∃ rest move, s.stack = f :: rest ∧ Moves s.world f l op move ∧ t.stack = move.apply rest) ∨
      ∃ g below value, s.stack = g :: f :: below ∧ Moves s.world g l op (.ret value) ∧
        t.stack = f.resume value :: below := by
  obtain ⟨-, -, cases⟩ := step_cases step
  cases cases with
  | thread _ after => exact .inl (after ▸ mem)
  | signal _ _ _ after => exact .inl (after ▸ List.mem_cons_of_mem _ mem)
  | @move g rest move top moves after =>
    rw [top] at mem
    rcases List.mem_cons.1 mem with rfl | mem
    · exact .inr (.inl ⟨rest, move, top, moves, after⟩)
    · cases move with
      | goto | call => exact .inl (by simp [after, Move.apply, mem])
      | leave => exact .inl (after ▸ mem)
      | ret value =>
        cases rest with
        | nil => cases mem
        | cons g' below =>
          rcases List.mem_cons.1 mem with rfl | mem
          · exact .inr (.inr ⟨g, below, value, top, moves, after⟩)
          · exact .inl (after ▸ List.mem_cons_of_mem _ mem)

/-- The statement that sets the flag. -/
theorem setRunning_step (step : s.step fs l = some (.setRunning, t)) :
    ∃ argv rest, s.stack = .run argv .running :: rest ∧ t.stack = .run argv .config :: rest := by
  have ⟨_, rest, move, top, .run _ sets, after⟩ := performs_of_step step rfl
  cases sets with
  | running => exact ⟨_, rest, top, after⟩

/-- **`run` stays on the stack** until `on_stop` returns. -/
theorem underway_step (stacked : WellStacked s.stack) (h : Underway s) (step : s.step fs l = some (op, t)) :
    Underway t ∨ op = .returned .onStop := by
  obtain ⟨argv, pc, mem, going⟩ := h
  rcases frame_follows step mem with stays | ⟨rest, move, top, moves, after⟩ | ⟨g, below, value, top, moves, after⟩
  · exact .inl ⟨argv, pc, stays, going⟩
  · have goes : ∀ pc', pc'.phase.going = true → .run argv pc' ∈ move.apply rest → Underway t := by
      intro pc' going' mem'
      exact ⟨argv, pc', after ▸ mem', going'⟩
    refine .inl ?_
    cases moves with
    | run _ h =>
      cases h with
      | refuse | guard | found | missing | absent | daemonize | running | ret => cases going
      | config | start | started | update | stop =>
        exact goes _ rfl (List.mem_cons_of_mem _ List.mem_cons_self)
      | _ => exact goes _ rfl List.mem_cons_self
    | user _ user => cases user
  · have on := (stacked.top top).2
    have behind : (Frame.run argv pc).resume value ∈ t.stack := after ▸ List.mem_cons_self
    cases pc with
    | called cb =>
      cases cb with
      | onStart | onUpdate => exact .inl ⟨argv, _, behind, rfl⟩
      | onReload => cases going
      | onStop =>
        -- what returns to a frame that waits for `on_stop` is `on_stop`
        obtain ⟨_, _, same, sits, -, ⟨cb, arg, rfl, performs, -⟩ | plain⟩ := moves.ret_cases on
        · cases same
          cases sits
          exact .inr performs
        · cases same
          exact absurd rfl (plain.apart .onStop)
    | configuring => exact .inl ⟨argv, _, behind, rfl⟩
    | guard | scan | daemonize | daemonizing | running | ret => cases going
    | _ => exact .inl ⟨argv, _, behind, going⟩

/-- `on_stop` returns at the end of a whole life. -/
theorem complete_of_returned {up : Bool} {life life' : Life} (path : Path LifeStep ⟨.prep, up⟩ ops life)
    (step : LifeStep life (.returned .onStop) life') : LivedOut ops := by
  cases step with
  | stopped => exact Life.shape path
  | stay _ _ neutral | quit _ _ neutral => cases neutral

/-- **`run` comes back with a whole life behind it.** -/
theorem complete_of_run (entered : Entered argv s₀)
    (run : (process fs).Run (fun _ l => l.callsRun = false) s₀ ops s) (set : .setRunning ∈ ops) :
    Underway s ∨ LivedOut ops := by
  refine run.invariant (I := fun ops s => .setRunning ∈ ops → Underway s ∨ LivedOut ops) (by simp) ?_ set
  rintro ops s op t before ih ⟨l, quiet, step⟩ set
  obtain ⟨path, lives⟩ := life_of_run (fun _ _ quiet => quiet) entered.lives before
  have lifeStep := life_of_step lives.stacked lives.single quiet step
  rcases List.mem_append.1 set with set | now
  · rcases ih set with underway | complete
    · rcases underway_step lives.stacked underway step with underway | rfl
      · exact .inl underway
      · obtain ⟨n, whole⟩ := complete_of_returned path lifeStep
        exact .inr ⟨n, by simp [whole, Op.begins]⟩
    · exact .inr (complete.snoc (Life.shape (path.snoc lifeStep)))
  · cases List.mem_singleton.1 now
    obtain ⟨argv', rest, -, after⟩ := setRunning_step step
    rw [Underway, after]
    exact .inl ⟨argv', .config, List.mem_cons_self, rfl⟩

/-! ## The ends of a process -/

/-- Without a frame of `run` there will be none. -/
theorem no_run_of_run (stacked : WellStacked s.stack) (none : ∀ f ∈ s.stack, f.kind ≠ .run)
    (run : (process fs).Run (fun _ l => l.callsRun = false) s ops t) : ∀ f ∈ t.stack, f.kind ≠ .run := by
  refine (run.always (I := fun t => WellStacked t.stack ∧ ∀ f ∈ t.stack, f.kind ≠ .run) ⟨stacked, none⟩ ?_).2
  rintro s op t ⟨stacked, none⟩ ⟨l, quiet, step⟩
  refine ⟨stacked.step step, ?_⟩
  refine kind_step (p := fun k => k = .run) (Q := False) stacked step none nofun ?_ fun _ _ same => nomatch same
  rintro k k' calls rfl
  cases quiet.symm.trans calls.callsRun

theorem not_underway (none : ∀ f ∈ s.stack, f.kind ≠ .run) : ¬ Underway s := fun ⟨_, _, mem, _⟩ => none _ mem rfl

/-- An operation that ends the process while `run` is in progress. -/
def Op.kills : Op → Bool
  | .exit _ | .outOfRange | .pureVirtual => true
  | _ => false

/-- Where the frame of `std::exit` comes from. -/
theorem exiting_step (step : s.step fs l = some (op, t)) (mem : .exiting ∈ t.stack) :
    .exiting ∈ s.stack ∨ op.kills = true ∨ ∃ code, op = .exitDtor code := by
  let p (f : Frame) : Prop := f = .exiting → .exiting ∈ s.stack ∨ op.kills = true ∨ ∃ code, op = .exitDtor code
  have here : ∀ f ∈ s.stack, p f := fun f mem same => .inl (same ▸ mem)
  have other : ∀ {f'}, f'.kind ≠ .exiting → p f' := fun other same => absurd (congrArg Frame.kind same) other
  refine frames_step step here ?_ (fun _ _ _ => other (by simp [Frame.kind])) _ mem rfl
  intro f rest move top moves known
  have resumed : ∀ value, Move.Keeps (fun f _ => p f) rest (.ret value) := by
    intro value g below _ known same
    exact known (Frame.eq_of_resume same (by simp [Frame.kind]) (by simp [Frame.kind]))
  cases moves with
  | exiting => exact known
  | user h =>
    cases h with
    | ret => exact resumed _
    | destroy => exact other (by simp [Frame.kind])
    | stop | run | setCwd | noSetCwd | setName | lib => exact ⟨known, other (by simp [Frame.kind])⟩
    | _ => exact known
  | owner _ h =>
    cases h with
    | exit => exact fun _ => .inr (.inr ⟨_, rfl⟩)
    | derivedDtor => exact other (by simp [Frame.kind])
    | dtor => exact ⟨other (by simp [Frame.kind]), other (by simp [Frame.kind])⟩
  | run _ h | daemonize _ h | stop _ h | signalHandler _ h | fromFile _ h | lib _ h =>
    cases h
    all_goals first
      | exact resumed _
      | exact fun _ => .inr (.inl rfl)
      | exact ⟨other (by simp [Frame.kind]), other (by simp [Frame.kind])⟩
      | trivial
      | exact other (by simp [Frame.kind])

/-- The frame of the object's owner is the last one. -/
theorem alone_of_owner (stacked : WellStacked s.stack) {pc : OwnerPc} {rest : List Frame}
    (top : s.stack = .owner pc :: rest) : rest = [] := by
  have on := (stacked.top top).2
  cases rest with
  | nil => rfl
  | cons => cases on

/-- The process has been killed, or there is no `run` on its stack. -/
def Gone (ops : List Op) (s : Proc Dir) : Prop := (∃ op ∈ ops, op.kills = true) ∨ ∀ f ∈ s.stack, f.kind ≠ .run

/-- A process that has ended or is about to. -/
structure Ends (ops : List Op) (s : Proc Dir) : Prop where
  exiting : .exiting ∈ s.stack → Gone ops s
  finished : s.world.status = .finished → Gone ops s

theorem Gone.step (h : Gone ops s) (stacked : WellStacked s.stack) (quiet : l.callsRun = false)
    (step : s.step fs l = some (op, t)) : Gone (ops ++ [op]) t := by
  rcases h with ⟨op', mem, kills⟩ | none
  · exact .inl ⟨op', List.mem_append_left _ mem, kills⟩
  · have one : (process fs).Run (fun _ l => l.callsRun = false) s ([] ++ [op]) t := .snoc .start ⟨l, quiet, step⟩
    exact .inr (no_run_of_run stacked none one)

/-- Only the frame of `std::exit` ends the process by itself. -/
theorem exiting_of_terminate (step : s.step fs l = some (.terminate, t)) : .exiting ∈ s.stack := by
  obtain ⟨f, rest, move, top, moves, -⟩ := moves_of_step step rfl
  cases moves with
  | exiting => exact top ▸ List.mem_cons_self
  | run _ h | daemonize _ h | stop _ h | signalHandler _ h | fromFile _ h | lib _ h | owner _ h | user h => cases h

theorem Ends.step (h : Ends ops s) (stacked : WellStacked s.stack) (quiet : l.callsRun = false)
    (step : s.step fs l = some (op, t)) : Ends (ops ++ [op]) t := by
  have killed : op.kills = true → Gone (ops ++ [op]) t := fun kills => .inl ⟨op, by simp, kills⟩
  constructor
  · intro mem
    rcases exiting_step step mem with mem | kills | ⟨code, rfl⟩
    · exact (h.exiting mem).step stacked quiet step
    · exact killed kills
    · have ⟨_, rest, move, top, .owner _ exits, after⟩ := performs_of_step step rfl
      obtain rfl := alone_of_owner stacked top
      cases exits with
      | exit => exact .inr (by simp [after, Move.apply, Frame.kind])
  · intro finished
    obtain ⟨alive, world, -⟩ := step_cases step
    rw [world, Op.apply_status] at finished
    unfold Op.statusAfter at finished
    split at finished
    · exact killed rfl
    · exact killed rfl
    · exact (h.exiting (exiting_of_terminate step)).step stacked quiet step
    · cases alive.symm.trans finished

/-- One round of the loop, whose wait times out. -/
def loopRound : List Label :=
  List.flatten [statements 2, [.user .ret], statements 3, [.main .timeout], statements 2]

/-- `run` is at its loop test, the flag up, and nobody else runs. -/
structure Looping (argv : List Bytes) (s : Proc Dir) : Prop where
  top : s.stack = [.run argv .loop, .owner .live]
  up : s.world.obj.isRunning = true
  free : s.world.mutex = false
  alive : s.world.status = .alive
  alone : s.threads = []

/-- A round of the loop leads back to where it began. -/
theorem Looping.round (fs : PathSpace Dir File) (h : Looping argv s) :
    ∃ ops, (process fs).Run (fun _ l => l.callsRun = false) s ops s ∧ begun ops = [.onUpdate] := by
  obtain ⟨stack, ⟨⟨_, _, _, _, _, _, isRunning, _⟩, _, _, _, _, mutex, _, _, _, _, status⟩, threads⟩ := s
  obtain ⟨rfl, rfl, rfl, rfl, rfl⟩ := h
  exact ⟨_, (process fs).path_of_replay (show (process fs).replay _ loopRound _ = _ from rfl), rfl⟩

theorem Looping.rounds (fs : PathSpace Dir File) (h : Looping argv s) (n : Nat) :
    ∃ ops, (process fs).Run (fun _ l => l.callsRun = false) s ops s ∧ begun ops = List.replicate n .onUpdate := by
  induction n with
  | zero => exact ⟨[], .start, rfl⟩
  | succ n ih =>
    obtain ⟨before, run, updates⟩ := ih
    obtain ⟨round, again, update⟩ := h.round fs
    refine ⟨before ++ round, run.trans again, ?_⟩
    rw [begun_append, updates, update, List.replicate_succ']

/-- Another thread calls `stop`, and the loop ends. -/
def stopAndLeave : List Label :=
  List.flatten [[.enter 0, .thread 0, .thread 0, .thread 0], statements 2, [.user .ret], statements 1]

theorem Looping.leave (fs : PathSpace Dir File) (h : Looping argv s) :
    ∃ ops t, (process fs).Run (fun _ l => l.callsRun = false) s ops t ∧ begun ops = [.onStop] := by
  obtain ⟨stack, ⟨⟨_, _, _, _, _, _, isRunning, _⟩, _, _, _, _, mutex, _, _, _, _, status⟩, threads⟩ := s
  obtain ⟨rfl, rfl, rfl, rfl, rfl⟩ := h
  exact ⟨_, _, (process fs).path_of_replay (show (process fs).replay _ stopAndLeave _ = _ from rfl), rfl⟩

/-- `run(argv)` has just been called on `obj`. -/
def Proc.called (obj : Object) (argv : List Bytes) (pid : Nat) (dir : Dir) : Proc Dir :=
  { Proc.launch obj pid dir with stack := [.run argv .guard, .owner .live] }

/-- `run` is at the statement `pc`, no lock is taken, and nobody else runs. -/
structure Calling (argv : List Bytes) (pc : RunPc) (s : Proc Dir) : Prop where
  top : s.stack = [.run argv pc, .owner .live]
  held : s.world.held = []
  free : s.world.mutex = false
  alive : s.world.status = .alive
  alone : s.threads = []

/-- `run` looks for the configuration file in its arguments. -/
theorem calling_of_called (fs : PathSpace Dir File) {obj : Object} (down : obj.isRunning = false)
    (argv : List Bytes) (pid : Nat) (dir : Dir) : ∃ ops s,
      (process fs).Run (fun _ l => l.callsRun = false) (Proc.called obj argv pid dir) ops s ∧ begun ops = [] ∧
        Calling argv .daemonize s := by
  let w := (Proc.called obj argv pid dir).world
  have guards : Frame.next w (.run argv .guard) .done = some (.tau, .goto (.run argv .scan)) := by
    simp [Frame.next, runNext, w, Proc.called, Proc.launch, down]
  have guard := step_of_next fs (s := Proc.called obj argv pid dir) rfl rfl guards
  -- what the arguments are decides the statement behind it
  cases scan : scanConfig argv with
  | none =>
    have absent := step_of_next fs (r := .done) (s := ⟨[.run argv .scan, .owner .live], w, []⟩) rfl rfl
      (by rw [Frame.next, runNext, scan])
    exact ⟨_, _, .snoc (.snoc .start ⟨.main .done, rfl, guard⟩) ⟨.main .done, rfl, absent⟩, rfl, rfl, rfl, rfl, rfl, rfl⟩
  | some found =>
    cases found with
    | none =>
      have missing := step_of_next fs (r := .done) (s := ⟨[.run argv .scan, .owner .live], w, []⟩) rfl rfl
        (by rw [Frame.next, runNext, scan])
      exact ⟨_, _, .trans (.snoc (.snoc .start ⟨.main .done, rfl, guard⟩) ⟨.main .done, rfl, missing⟩)
        ((process fs).path_of_replay (show (process fs).replay _ (libCalls 3) _ = _ from rfl)),
        rfl, rfl, rfl, rfl, rfl, rfl⟩
    | some path =>
      have found := step_of_next fs (r := .done) (s := ⟨[.run argv .scan, .owner .live], w, []⟩) rfl rfl
        (by rw [Frame.next, runNext, scan])
      exact ⟨_, _, .trans (.snoc (.snoc .start ⟨.main .done, rfl, guard⟩) ⟨.main .done, rfl, found⟩)
        ((process fs).path_of_replay (show (process fs).replay _ (libCalls 1) _ = _ from rfl)),
        rfl, rfl, rfl, rfl, rfl, rfl⟩

/-- `daemonize` succeeds, and the flag is set. -/
theorem Calling.daemonizes (fs : PathSpace Dir File) (h : Calling argv .daemonize s) : ∃ ops t,
    (process fs).Run (fun _ l => l.callsRun = false) s ops t ∧ begun ops = [] ∧ Calling argv .config t ∧
      t.world.obj.isRunning = true := by
  obtain ⟨stack, ⟨⟨_, _, _, _, _, _, _, _⟩, _, _, _, held, mutex, _, _, _, _, status⟩, threads⟩ := s
  obtain ⟨rfl, rfl, rfl, rfl, rfl⟩ := h
  exact ⟨_, _, (process fs).path_of_replay (show (process fs).replay _
    (List.flatten [statements 1, forkAndInstall, bootDone, statements 1]) _ = _ from rfl),
    rfl, ⟨rfl, rfl, rfl, rfl, rfl⟩, rfl⟩

/-- `from_file` reads nothing, and `on_start` returns. -/
theorem Calling.starts (fs : PathSpace Dir File) (h : Calling argv .config s) (up : s.world.obj.isRunning = true) :
    ∃ ops t, (process fs).Run (fun _ l => l.callsRun = false) s ops t ∧ begun ops = [.onStart] ∧ Looping argv t := by
  obtain ⟨stack, ⟨⟨_, _, configFile, _, _, _, isRunning, _⟩, _, _, _, held, mutex, _, _, _, _, status⟩, threads⟩ := s
  obtain ⟨rfl, rfl, rfl, rfl, rfl⟩ := h
  obtain rfl := up
  cases configFile with
  | nil =>
    exact ⟨_, _, (process fs).path_of_replay (show (process fs).replay _
      (List.flatten [statements 3, startReturns]) _ = _ from rfl), rfl, rfl, rfl, rfl, rfl, rfl⟩
  | cons byte path =>
    -- the file cannot be opened
    exact ⟨_, _, (process fs).path_of_replay (show (process fs).replay _
      (List.flatten [statements 1, [.main (.file .closed)], libCalls 1, statements 3, startReturns]) _ = _ from rfl),
      rfl, rfl, rfl, rfl, rfl, rfl⟩

/-- Every length of life occurs. -/
theorem exists_life (fs : PathSpace Dir File) {obj : Object} (down : obj.isRunning = false) (argv : List Bytes)
    (pid : Nat) (dir : Dir) (n : Nat) : ∃ ops t,
      (process fs).Run (fun _ l => l.callsRun = false) (Proc.called obj argv pid dir) ops t ∧
        begun ops = lifecycle n := by
  obtain ⟨scan, s₁, scanned, nothing, calling⟩ := calling_of_called fs down argv pid dir
  obtain ⟨boot, s₂, booted, nothing', calling', up⟩ := calling.daemonizes fs
  obtain ⟨start, s, started, began, looping⟩ := calling'.starts fs up
  obtain ⟨rounds, looped, updates⟩ := looping.rounds fs n
  obtain ⟨last, t, left, stop⟩ := looping.leave fs
  refine ⟨_, t, (((scanned.trans booted).trans started).trans looped).trans left, ?_⟩
  rw [begun_append, begun_append, begun_append, begun_append, nothing, nothing', began, updates, stop]
  rfl

/-- A run can be cut where a given callback has begun. -/
theorem exists_prefix {callbacks : List Callback} {C : Proc Dir → Label → Prop}
    (run : (process fs).Run C s ops t) (before : callbacks <+: begun ops) :
    ∃ ops' t', (process fs).Run C s ops' t' ∧ begun ops' = callbacks := by
  induction run with
  | start => exact ⟨[], s, .start, (List.prefix_nil.1 before).symm⟩
  | @snoc ops _ t op run last ih =>
    rw [begun_concat] at before
    cases begins : op.begins with
    | none =>
      rw [begins, Option.toList_none, List.append_nil] at before
      exact ih before
    | some cb =>
      rw [begins, Option.toList_some, List.prefix_concat_iff] at before
      rcases before with rfl | before
      · exact ⟨_, t, run.snoc last, by rw [begun_concat, begins]; rfl⟩
      · exact ih before

/-- **What `run` calls is exactly what a life allows**: the sequences of callbacks begun in the runs
of a fresh daemon, with any arguments, are the prefixes of the whole lives, all of them. -/
theorem begun_iff {obj : Object} (down : obj.isRunning = false) {pid : Nat} {dir : Dir} {callbacks : List Callback} :
    (∃ ops t, (process fs).Run (fun _ l => l.callsRun = false) (Proc.called obj argv pid dir) ops t ∧
      begun ops = callbacks) ↔ ∃ n, callbacks <+: lifecycle n := by
  constructor
  · rintro ⟨ops, t, run, rfl⟩
    have entered : Entered argv (Proc.called obj argv pid dir) := rfl
    obtain ⟨path, -⟩ := life_of_run (fun _ _ quiet => quiet) entered.lives run
    exact (Life.shape path).isPrefix
  · rintro ⟨n, before⟩
    obtain ⟨ops, t, run, life⟩ := exists_life fs down argv pid dir n
    exact exists_prefix run (life ▸ before)

end Run

/-- What the constructor without arguments builds can come to a second update, and what the other one
builds never begins with an update. -/
theorem begun_iff_constructors :
    (∃ ops t, (process lexical).Run (fun _ l => l.callsRun = false)
      (Proc.called .unknown [bytes "service", bytes "--config", bytes "/etc/service.conf"] 1 (bytes "/")) ops t ∧
        begun ops = [.onStart, .onUpdate, .onUpdate]) ∧
    ¬ ∃ ops t, (process lexical).Run (fun _ l => l.callsRun = false)
      (Proc.called (.construct (bytes "service")) [bytes "service", bytes "--config"] 1 (bytes "/")) ops t ∧
        begun ops = [.onUpdate] := by
  have down : Object.unknown.isRunning = false := rfl
  have down' : (Object.construct (bytes "service")).isRunning = false := rfl
  refine ⟨(begun_iff down).2 ⟨2, [.onStop], rfl⟩, fun begins => ?_⟩
  obtain ⟨n, rest, same⟩ := (begun_iff down').1 begins
  cases same

end Daemonpp
