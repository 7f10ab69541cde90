import Daemonpp.Lifecycle.ExitCode
import Daemonpp.Lifecycle.Term
import Daemonpp.Program.Script
import Daemonpp.Signals.Service

/-!
# How a serving program ends

Nothing in a serving program calls `stop`, so where its process ends by its own code,
and not by the default action of a signal, it ends in one of four ways (`Outcome`): it
is the parent and exits with `EXIT_SUCCESS`; its start-up has failed and it exits with
`EXIT_FAILURE`; it was undone by the parser or a pure virtual call; or SIGTERM has been
delivered, it has lived its whole life and it exits with `EXIT_SUCCESS`, even though
`daemon()` leaves `m_exit_code` indeterminate (`program_ends`).
-/

namespace Daemonpp

inductive Outcome (ops : List Op) : Prop where
  | parent (calls : Startup.parent.Called (startupCalls ops)) (exits : .exit EXIT_SUCCESS ∈ ops)
  | failed (calls : Startup.failed.Called (startupCalls ops)) (exits : .exit EXIT_FAILURE ∈ ops)
  | undone (fault : .outOfRange ∈ ops ∨ .pureVirtual ∈ ops)
  | stopped (calls : Startup.placed.Called (startupCalls ops)) (term : .deliver .SIGTERM ∈ ops) (life : LivedOut ops)
      (exits : .exitDtor (some EXIT_SUCCESS) ∈ ops)

section Run

variable {Dir File : Type} {fs : PathSpace Dir File} {s t : Proc Dir} {l : Label} {op : Op} {ops : List Op}
variable {argv : List Bytes}

/-! ## What stops a serving program -/

/-- Only the handler of SIGTERM calls `stop`. -/
structure Obeys (ops : List Op) (s : Proc Dir) : Prop where
  handled : Handled s
  threads : s.threads = []
  stops : ∀ handler code pc, .stop handler code pc ∈ s.stack → handler = true ∧ code = EXIT_SUCCESS
  terms : ∀ f ∈ s.stack, f.kind.terms = true → .deliver .SIGTERM ∈ ops
  stored : ∀ code ∈ storedCodes ops, code = EXIT_SUCCESS
  cleared : ∀ code, .clearRunning code ∈ ops → .deliver .SIGTERM ∈ ops

theorem Obeys.threads_step (h : Obeys ops s) (serves : l.serves = true) (step : s.step fs l = some (op, t)) :
    t.threads = [] := by
  obtain ⟨-, -, cases⟩ := step_cases step
  cases cases with
  | signal _ _ _ _ same => rw [same, h.threads]
  | thread performs _ label =>
    rcases label with ⟨code, rfl⟩ | ⟨i, rfl⟩
    · cases serves
    · simp [Proc.step, Proc.control, h.threads] at step
  | move _ _ _ survive =>
    rw [survive, h.threads]
    unfold Op.survivors
    split
    · exact ite_self _
    · rfl

theorem Obeys.stops_step (h : Obeys ops s) (serves : l.serves = true) (step : s.step fs l = some (op, t)) :
    ∀ handler code pc, .stop handler code pc ∈ t.stack → handler = true ∧ code = EXIT_SUCCESS := by
  let p (f : Frame) : Prop := ∀ handler code pc, f = .stop handler code pc → handler = true ∧ code = EXIT_SUCCESS
  have here : ∀ f ∈ s.stack, p f := fun f mem handler code pc same => h.stops handler code pc (same ▸ mem)
  have other : ∀ {f' : Frame}, (∀ handler, f'.kind ≠ .stop handler) → p f' :=
    fun other handler _ _ same => absurd (same ▸ rfl) (other handler)
  refine fun handler code pc mem =>
    frames_step step here ?_ (fun _ _ _ => other (by simp [Frame.kind])) _ mem handler code pc rfl
  intro f rest move _ moves here
  have resumed : ∀ value, Move.Keeps (fun f _ => p f) rest (.ret value) := by
    intro value g below _ here handler code pc same
    exact here handler code pc (Frame.eq_of_resume same (by simp [Frame.kind]) (by simp [Frame.kind]))
  cases moves with
  | stop _ h' =>
    obtain ⟨rfl, rfl⟩ := here _ _ _ rfl
    cases h' with
    | notify => exact resumed _
    | _ =>
      rintro _ _ _ ⟨⟩
      exact ⟨rfl, rfl⟩
  | signalHandler _ h' =>
    cases h' with
    | stop =>
      refine ⟨other (by simp [Frame.kind]), ?_⟩
      rintro _ _ _ ⟨⟩
      exact ⟨rfl, rfl⟩
    | done => trivial
    | pure => exact other (by simp [Frame.kind])
    | _ => exact ⟨other (by simp [Frame.kind]), other (by simp [Frame.kind])⟩
  | exiting => exact other (by simp [Frame.kind])
  | user h' =>
    cases h' with
    | ret => exact resumed _
    | destroy => exact other (by simp [Frame.kind])
    | lib => exact ⟨here, other (by simp [Frame.kind])⟩
    | openFile | closeFile => exact here
    | _ => cases serves
  | run _ h' | daemonize _ h' | fromFile _ h' | lib _ h' | owner _ h' =>
    cases h'
    all_goals first
      | exact resumed _
      | exact ⟨other (by simp [Frame.kind]), other (by simp [Frame.kind])⟩
      | trivial
      | exact other (by simp [Frame.kind])

theorem Obeys.terms_step (h : Obeys ops s) (step : s.step fs l = some (op, t)) :
    ∀ f ∈ t.stack, f.kind.terms = true → .deliver .SIGTERM ∈ ops ++ [op] := by
  refine kind_step (p := fun k => k.terms = true) h.handled.stacked step
    (fun f mem terms => List.mem_append_left _ (h.terms f mem terms)) (by simp [Kind.terms])
    (fun _ _ calls => calls.terms) ?_
  rintro sig rfl terms
  obtain ⟨-, -, cases⟩ := step_cases step
  cases cases with
  | signal label performs ready =>
    cases label
    simp only [Proc.deliverable, Bool.and_eq_true, decide_eq_true_eq] at ready
    cases sig with
    | SIGTERM => simp [performs]
    | SIGKILL => exact absurd ready.1 h.handled.kill
    | SIGHUP => cases terms
  | move _ moves => cases moves
  | thread _ _ label => rcases label with ⟨_, label⟩ | ⟨_, label⟩ <;> cases label

/-- What a `stop` does in a serving program, it does for SIGTERM. -/
theorem Obeys.stop_of_op (h : Obeys ops s) (step : s.step fs l = some (op, t)) {code : Int}
    (performs : op = .exitCode code ∨ op = .clearRunning code) : code = EXIT_SUCCESS ∧ .deliver .SIGTERM ∈ ops := by
  obtain ⟨-, -, cases⟩ := step_cases step
  cases cases with
  | signal _ delivers =>
    subst delivers
    rcases performs with performs | performs <;> cases performs
  | thread threads =>
    rw [h.threads] at threads
    generalize t.threads = after at threads
    cases threads with
    | enter => rcases performs with performs | performs <;> cases performs
    | exitCode at' | flag at' | notify at' => cases at'
  | @move f rest move top moves after =>
    have mem : f ∈ s.stack := top ▸ List.mem_cons_self
    cases moves with
    | stop _ h' =>
      obtain ⟨rfl, rfl⟩ := h.stops _ _ _ mem
      have term := h.terms _ mem rfl
      cases h' with
      | exitCode | flag =>
        rcases performs with performs | performs <;> cases performs
        exact ⟨rfl, term⟩
      | notify => rcases performs with performs | performs <;> cases performs
    | exiting => rcases performs with performs | performs <;> cases performs
    | run _ h' | daemonize _ h' | signalHandler _ h' | fromFile _ h' | lib _ h' | owner _ h' | user h' =>
      cases h' <;> rcases performs with performs | performs <;> cases performs

theorem Obeys.step (h : Obeys ops s) (serves : l.serves = true) (step : s.step fs l = some (op, t)) :
    Obeys (ops ++ [op]) t where
  handled := h.handled.step step
  threads := h.threads_step serves step
  stops := h.stops_step serves step
  terms := h.terms_step step
  stored := by
    intro code mem
    rw [storedCodes, List.filterMap_append] at mem
    rcases List.mem_append.1 mem with before | now
    · exact h.stored code before
    · obtain ⟨op', mem, stores⟩ := List.mem_filterMap.1 now
      obtain rfl := List.mem_singleton.1 mem
      refine (h.stop_of_op step (.inl ?_)).1
      unfold Op.stores at stores
      split at stores <;> cases stores
      rfl
  cleared := by
    intro code mem
    rcases List.mem_append.1 mem with before | now
    · exact List.mem_append_left _ (h.cleared code before)
    · exact List.mem_append_left _ (h.stop_of_op step (.inr (List.mem_singleton.1 now).symm)).2

/-! ## What ends a process -/

/-- An operation with which a process leaves. -/
def Op.leaves : Op → Bool
  | .exit _ | .outOfRange | .pureVirtual | .exitDtor _ => true
  | _ => false

/-- A process that has ended, or called `std::exit`, has left. -/
structure Leaves (ops : List Op) (s : Proc Dir) : Prop where
  exiting : .exiting ∈ s.stack → ∃ op ∈ ops, op.leaves = true
  finished : s.world.status = .finished → ∃ op ∈ ops, op.leaves = true

theorem Leaves.step (h : Leaves ops s) (step : s.step fs l = some (op, t)) : Leaves (ops ++ [op]) t := by
  have before : (∃ op ∈ ops, op.leaves = true) → ∃ op' ∈ ops ++ [op], op'.leaves = true :=
    fun ⟨op', mem, leaves⟩ => ⟨op', List.mem_append_left _ mem, leaves⟩
  have now : op.leaves = true → ∃ op' ∈ ops ++ [op], op'.leaves = true := fun leaves => ⟨op, by simp, leaves⟩
  constructor
  · intro mem
    rcases exiting_step step mem with mem | kills | ⟨code, rfl⟩
    · exact before (h.exiting mem)
    · refine now ?_
      unfold Op.kills at kills
      split at kills <;> first | rfl | cases kills
    · exact now rfl
  · intro finished
    obtain ⟨alive, world, -⟩ := step_cases step
    rw [world, Op.apply_status] at finished
    unfold Op.statusAfter at finished
    split at finished
    · exact now rfl
    · exact now rfl
    · exact before (h.exiting (exiting_of_terminate step))
    · cases alive.symm.trans finished

/-- Up to the statement that sets the flag, `run` does not return. -/
structure Waits (ops : List Op) (s : Proc Dir) : Prop where
  down : .setRunning ∉ ops → s.world.obj.isRunning = false
  run : .setRunning ∉ ops → ∃ argv pc, .run argv pc ∈ s.stack ∧ pc.phase = .prep

theorem Waits.step (h : Waits ops s) (step : s.step fs l = some (op, t)) : Waits (ops ++ [op]) t := by
  have unset : .setRunning ∉ ops ++ [op] → .setRunning ∉ ops ∧ op ≠ .setRunning := by
    intro unset
    rw [List.mem_append, not_or, List.mem_singleton] at unset
    exact ⟨unset.1, Ne.symm unset.2⟩
  constructor
  · intro none
    obtain ⟨before, other⟩ := unset none
    obtain ⟨-, world, -⟩ := step_cases step
    rw [world, Op.apply_isRunning, h.down before]
    unfold Op.isRunning
    split
    · exact absurd rfl other
    · rfl
    · rfl
  · intro none
    obtain ⟨before, other⟩ := unset none
    obtain ⟨argv, pc, mem, prep⟩ := h.run before
    rcases frame_follows step mem with stays | ⟨rest, move, top, moves, after⟩ | ⟨g, below, value, top, moves, after⟩
    · exact ⟨argv, pc, stays, prep⟩
    · have goes : ∀ pc', pc'.phase = .prep → .run argv pc' ∈ move.apply rest →
          ∃ argv pc, .run argv pc ∈ t.stack ∧ pc.phase = .prep :=
        fun pc' prep' mem' => ⟨argv, pc', after ▸ mem', prep'⟩
      cases moves with
      | run _ h' =>
        cases h' with
        | refuse up => cases (h.down before).symm.trans up
        | guard | absent => exact goes _ rfl List.mem_cons_self
        | found | missing | daemonize => exact goes _ rfl (List.mem_cons_of_mem _ List.mem_cons_self)
        | running => exact absurd rfl other
        | _ => cases prep
      | user _ user => cases user
    · have behind : (Frame.run argv pc).resume value ∈ t.stack := after ▸ List.mem_cons_self
      cases pc with
      | daemonizing => exact ⟨argv, _, behind, rfl⟩
      | guard | scan | daemonize | running => exact ⟨argv, _, behind, prep⟩
      | called cb => cases cb <;> cases prep
      | _ => cases prep

/-! ## The outcome -/

/-- What is known of a serving program along its run. -/
theorem obeys_of_run {P : Program} {before : List Op} {s₀ : Proc Dir} {j₀ : Journal}
    (setting : SettingUp P [] before s₀ j₀) (entered : Entered argv s₀)
    (run : (process fs).Run (fun _ l => l.serves = true) s₀ ops s) :
    Obeys ops s ∧ Leaves ops s ∧ Waits ops s ∧ Coded s₀.world.obj.exitCode ops s := by
  have stack : s₀.stack = _ := entered
  have start : Obeys [] s₀ ∧ Leaves [] s₀ ∧ Waits [] s₀ ∧ Coded s₀.world.obj.exitCode [] s₀ := by
    refine ⟨⟨⟨entered.lives.stacked, ?_, ?_, ?_⟩, setting.threads, ?_, ?_, nofun, nofun⟩, ⟨?_, ?_⟩,
      ⟨fun _ => setting.down, ?_⟩, rfl, ?_, ?_, nofun⟩
    · simp [setting.handled]
    · rw [stack]
      rfl
    · rw [stack]
      exact fun sig => Nat.zero_le _
    · simp [stack]
    · simp [stack, Frame.kind, Kind.terms]
    · simp [stack]
    · simp [setting.alive]
    · exact fun _ => ⟨argv, .guard, stack ▸ List.mem_cons_self, rfl⟩
    · simp [stack]
    · simp [setting.threads]
  refine run.invariant (I := fun ops s => Obeys ops s ∧ Leaves ops s ∧ Waits ops s ∧ Coded s₀.world.obj.exitCode ops s)
    start ?_
  rintro ops s op t - ⟨obeys, leaves, waits, coded⟩ ⟨l, serves, step⟩
  exact ⟨obeys.step serves step, leaves.step step, waits.step step, coded.step step⟩

theorem LivedOut.begins {cb : Callback} (h : LivedOut ops) (last : cb = .onStart ∨ cb = .onStop) : .began cb ∈ ops := by
  obtain ⟨n, whole⟩ := h
  have mem : cb ∈ begun ops := by
    rw [whole]
    rcases last with rfl | rfl <;> simp [lifecycle]
  obtain ⟨op, mem, begins⟩ := List.mem_filterMap.1 mem
  unfold Op.begins at begins
  split at begins <;> cases begins
  exact mem

/-- A serving program that reaches the end of `~daemon` has been stopped by SIGTERM. -/
theorem stopped_of_exitDtor {P : Program} {before : List Op} {s₀ : Proc Dir} {j₀ : Journal} {code : Option Int}
    (setting : SettingUp P [] before s₀ j₀) (entered : Entered argv s₀)
    (run : (process fs).Run (fun _ l => l.serves = true) s₀ ops s) (mem : .exitDtor code ∈ ops) :
    code = some EXIT_SUCCESS ∧ .deliver .SIGTERM ∈ ops ∧ LivedOut ops := by
  have quiet : ∀ {u v : Proc Dir} {ops : List Op}, (process fs).Run (fun _ l => l.serves = true) u ops v →
      (process fs).Run (fun _ l => l.callsRun = false) u ops v :=
    fun run => run.weaken fun _ _ serves => Label.quiet_of_keepsLog (Label.keepsLog_of_serves serves)
  obtain ⟨first, rest, rfl⟩ := List.append_of_mem mem
  obtain ⟨u, v, lived, ⟨l, serves, exits⟩, left⟩ := run.cut
  obtain ⟨obeys, -, waits, coded⟩ := obeys_of_run setting entered lived
  have ⟨_, below, move, top, .owner _ reads, after⟩ := performs_of_step exits rfl
  obtain rfl := alone_of_owner obeys.handled.stacked top
  cases reads with
  | exit =>
    have none : ∀ f ∈ u.stack, f.kind ≠ .run := by simp [top, Frame.kind]
    -- `run` has returned, so it has set the flag and `on_stop` has been called
    have set : .setRunning ∈ first := by
      by_contra unset
      obtain ⟨argv', pc, mem, -⟩ := waits.run unset
      exact none _ mem rfl
    have whole : LivedOut first := (complete_of_run entered (quiet lived) set).resolve_left (not_underway none)
    obtain ⟨one, two, same⟩ := List.append_of_mem (whole.begins (.inr rfl))
    obtain ⟨path, -⟩ := life_of_run (fun _ _ quiet => quiet) entered.lives (quiet lived)
    rw [same] at path
    obtain ⟨_, _, code, rfl, cleared⟩ := Life.stopped_of_onStop path
    have cleared : .clearRunning code ∈ first := by
      rw [same]
      exact List.mem_append_left _ (List.mem_append_right _ (List.mem_cons_of_mem _ cleared))
    have stored : storedCodes first ≠ [] :=
      List.ne_nil_of_mem (List.mem_filterMap.2 ⟨_, coded.cleared code cleared, rfl⟩)
    have read : u.world.obj.exitCode = some EXIT_SUCCESS := by
      rw [coded.last, List.getLast?_eq_some_getLast stored, Option.some_or,
        obeys.stored _ (List.getLast_mem stored)]
    refine ⟨read, List.mem_append_left _ (obeys.cleared code cleared), ?_⟩
    refine (complete_of_run entered (quiet run) (List.mem_append_left _ set)).resolve_left (not_underway ?_)
    have gone : ∀ f ∈ v.stack, f.kind ≠ .run := by simp [after, Move.apply, Frame.kind]
    exact no_run_of_run (obeys.handled.stacked.step exits) gone (quiet left)

/-- **A serving program ends in one of these ways** by its own code, whichever signals its handlers are
called for and whenever. -/
theorem program_ends {P : Program} {pid : Nat} {cwd : Dir} {j : Journal} {todo : List (List Stmt)} (serves : P.Serves)
    (run : (P.scripted argv fs).Run (fun _ _ => True) (P.start pid cwd) ops ((s, j), todo))
    (finished : s.world.status = .finished) : Outcome ops := by
  rcases running_of_run serves run with ⟨_, setting, -⟩ | ⟨⟨before, after, s₀, j₀, rfl, setting, entered, running⟩, -⟩
  · cases setting.alive.symm.trans finished
  have served : (process fs).Run (fun _ l => l.serves = true) s₀ after s :=
    (journaled_iff (C := fun _ l => l.serves = true)).1 ⟨j, running⟩
  have quiet : (process fs).Run (fun _ l => l.callsRun = false) s₀ after s :=
    served.weaken fun _ _ serves => Label.quiet_of_keepsLog (Label.keepsLog_of_serves serves)
  obtain ⟨-, leaves, -, -⟩ := obeys_of_run setting entered served
  obtain ⟨st, path, -⟩ := startup_of_run entered quiet
  have startup := Startup.told path
  have calls : startupCalls (before ++ after) = startupCalls after := by
    have none := setting.calls
    unfold startupCalls at none ⊢
    rw [List.filter_append, none, List.nil_append]
  have startsAs : ∀ {st'}, st = st' → st'.Called (startupCalls (before ++ after)) := by
    rintro _ rfl
    exact calls ▸ startup.calls
  obtain ⟨op, mem, left⟩ := leaves.finished finished
  have mem' : op ∈ before ++ after := List.mem_append_right _ mem
  unfold Op.leaves at left
  split at left
  · rename_i code
    rcases startup.exits code mem with ⟨rfl, parent⟩ | ⟨rfl, failed⟩
    · exact .parent (startsAs parent) mem'
    · exact .failed (startsAs failed) mem'
  · exact .undone (.inl mem')
  · exact .undone (.inr mem')
  · obtain ⟨rfl, term, whole⟩ := stopped_of_exitDtor setting entered served mem
    refine .stopped (startsAs (startup.started (whole.begins (.inl rfl)))) (List.mem_append_right _ term) ?_ mem'
    obtain ⟨n, life⟩ := whole
    exact ⟨n, by rw [begun_append, setting.begun, life, List.nil_append]⟩
  · cases left

end Run

/-- Steps in which user code logs nothing. -/
def silently (labels : List Label) : List (Label × Message) := labels.map fun l => (l, Dlog.info [])

/-- The call of `dlog` with which a callback begins, and its return. -/
def logAndReturn (message : Message) : List (Label × Message) :=
  (.user (.lib logCalls), message) :: silently (libCalls 3 ++ [.user .ret])

/-- `main` of `my_daemon` up to where it calls `run`. -/
def setUp : List (Label × Message) :=
  silently (List.flatten [[.user (.setName (bytes "my_daemon"))], libCalls 1, [.user (.setUpdateDuration 3000000000)],
    [.user (.setCwd (bytes "/") true)], libCalls 1, [.user (.run [])]])

/-- `my_daemon` without arguments, stopped by SIGTERM in its first wait. -/
def stoppedInWait : List (Label × Message) :=
  List.flatten [setUp, silently (List.flatten [bootHandlers, bootDone, bootStart]),
    logAndReturn (Dlog.info (bytes "my_daemon::on_start(): my_daemon version:  started successfully!")),
    silently (List.flatten [statements 1, libCalls 1, statements 2]),
    logAndReturn (Dlog.info (bytes "my_daemon::on_update()")), silently (List.flatten [statements 3, handleTerm]),
    silently (List.flatten [[.main .notified], statements 4]), logAndReturn (Dlog.info (bytes "my_daemon::on_stop()")),
    silently (List.flatten [statements 1, [.user .destroy], statements 2, libCalls 1, statements 2])]

theorem program_ends_myDaemon : ∃ ops s j todo,
    (myDaemon.scripted [] lexical).Run (fun _ _ => True) (myDaemon.start 1 (bytes "/home")) ops ((s, j), todo) ∧
      s.world.status = .finished ∧ Outcome ops := by
  obtain ⟨ops, ⟨⟨s, j⟩, todo⟩, run, finished⟩ := (myDaemon.scripted [] lexical).exists_run (C := fun _ _ => True)
    (P := fun _ x => x.1.1.world.status = .finished) stoppedInWait
    (s := myDaemon.start 1 (bytes "/home")) (by decide +kernel)
  have finished := of_decide_eq_true finished
  exact ⟨ops, s, j, todo, run, finished, program_ends serves_myDaemon run finished⟩

end Daemonpp
