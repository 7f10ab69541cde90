import Daemonpp.Process.Effect
import Daemonpp.Process.Launch

/-!
# The handler and the locks of the C library

`signal_handler` logs and builds strings, so it takes the locks of `syslog` and
of the heap, also when it has interrupted a call that holds one: then the only
thread waits for itself (`blocks_of_held`, `handler_blocks`). If signals come only
while no lock is held, a lock is held by the innermost frame alone, and no state
is blocked (`handler_not_blocked`).
-/

namespace Daemonpp

section Run

variable {Dir File : Type} {fs : PathSpace Dir File} {s t : Proc Dir} {l : Label} {op : Op}

/-- The main thread needs a lock that is taken; no other thread takes any. -/
def Proc.Blocked (s : Proc Dir) : Prop :=
  ∃ call calls rest, s.stack = .lib (call :: calls) false :: rest ∧ call.lock ∈ s.world.held

/-- A blocked thread takes no step. -/
theorem Proc.Blocked.stuck (h : s.Blocked) (r : Reply) : s.step fs (.main r) = none := by
  obtain ⟨call, calls, rest, top, taken⟩ := h
  unfold Proc.step Proc.control
  rw [top]
  cases r <;> simp [Frame.next, libNext, taken]

/-- Signals come while no lock is held. -/
def betweenCalls (s : Proc Dir) : Label → Bool
  | .signal _ => s.world.held.isEmpty
  | _ => true

/-- No lock is held but that of the library call the innermost frame is in. -/
def HeldOnTop (s : Proc Dir) : Prop :=
  s.world.held = [] ∨
    ∃ call calls rest, s.stack = .lib (call :: calls) true :: rest ∧ s.world.held = [call.lock]

theorem HeldOnTop.not_blocked (h : HeldOnTop s) : ¬ s.Blocked := by
  rintro ⟨call, calls, rest, top, taken⟩
  rcases h with free | ⟨_, _, _, inside, -⟩
  · rw [free] at taken
    cases taken
  · rw [top] at inside
    cases inside

/-- Only a library call takes a lock, and only when none is held. -/
theorem held_move {f : Frame} {move : Move} (moves : Moves s.world f l op move)
    (free : s.world.held = []) : op.heldAfter s.world.held = [] ∨
      ∃ call calls, move = .goto (.lib (call :: calls) true) ∧ op.heldAfter s.world.held = [call.lock] := by
  cases moves with
  | lib _ h =>
    cases h with
    | nil => exact .inl free
    | acquire call calls => exact .inr ⟨call, calls, rfl, by simp [Op.heldAfter, free]⟩
    | finish => exact .inl (by simp [Op.heldAfter, free])
  | exiting => exact .inl free
  | run _ h | daemonize _ h | stop _ h | signalHandler _ h | fromFile _ h | owner _ h | user h =>
    cases h
    all_goals exact .inl free

theorem HeldOnTop.step (h : HeldOnTop s) (between : betweenCalls s l = true) (step : s.step fs l = some (op, t)) :
    HeldOnTop t := by
  obtain ⟨-, world, cases⟩ := step_cases step
  unfold HeldOnTop
  rw [world, Op.apply_held]
  cases cases with
  | thread performs after =>
    rw [after]
    generalize t.threads = threads at performs
    cases performs <;> exact h
  | signal label performs =>
    subst label performs
    exact .inl (List.isEmpty_iff.1 between)
  | move top moves after =>
    rw [after]
    rcases h with free | ⟨call, calls, _, inside, held⟩
    · rcases held_move moves free with kept | ⟨call, calls, rfl, taken⟩
      · exact .inl kept
      · exact .inr ⟨call, calls, _, rfl, taken⟩
    · -- the call in progress is the only thing that moves
      rw [inside] at top
      cases top
      cases moves with
      | lib _ h =>
        cases h with
        | finish => exact .inl (by simp [Op.heldAfter, held])
      | user _ user => cases user

/-- **The handler does not deadlock** as long as signals come while no lock of the C
library is held. -/
theorem handler_not_blocked {obj : Object} {pid : Nat} {cwd : Dir} {ops : List Op}
    (run : (process fs).Run (fun s l => betweenCalls s l = true) (Proc.launch obj pid cwd) ops t) : ¬ t.Blocked := by
  have held : HeldOnTop t :=
    run.always (I := HeldOnTop) (.inl rfl) fun held ⟨_, between, step⟩ => held.step between step
  exact held.not_blocked

/-- A signal that comes while a lock is held always leads to a blocked state, before
the handler has called `stop` or `on_reload`. -/
theorem blocks_of_held {sig : Signal} (alive : s.world.status = .alive) (ready : s.deliverable sig = true)
    (held : s.world.held ≠ []) : ∃ ops t, (process fs).Run (fun _ _ => True) s ops t ∧ t.Blocked ∧
      (∀ code, .clearRunning code ∉ ops) ∧ .began .onReload ∉ ops := by
  let logging (calls : List LibCall) (inside : Bool) (held : List Lock) : Proc Dir :=
    ⟨.lib calls inside :: .signalHandler sig .switch :: s.stack, { s.world with held }, s.threads⟩
  have deliver : s.step fs (.signal sig) =
      some (.deliver sig, ⟨.signalHandler sig .log :: s.stack, s.world, s.threads⟩) := by
    simp [Proc.step, alive, Proc.control, ready, Op.apply]
  have log : (Proc.mk (.signalHandler sig .log :: s.stack) s.world s.threads).step fs (.main .done) =
      some (.tau, logging logCalls false s.world.held) := by
    unfold Proc.step
    rw [if_pos (show s.world.status = .alive from alive)]
    rfl
  have called : (process fs).Run (fun _ _ => True) s ([] ++ [.deliver sig] ++ [.tau])
      (logging logCalls false s.world.held) :=
    .snoc (.snoc .start ⟨_, trivial, deliver⟩) ⟨_, trivial, log⟩
  by_cases heap : .heap ∈ s.world.held
  · exact ⟨_, _, called, ⟨.heap, [.syslog, .heap], _, rfl, heap⟩, by simp, by simp⟩
  · -- the message is built, and `syslog` blocks
    have syslog : .syslog ∈ s.world.held := by
      obtain ⟨lock, mem⟩ := List.exists_mem_of_ne_nil _ held
      cases lock with
      | heap => exact absurd mem heap
      | syslog => exact mem
    have take : (logging logCalls false s.world.held).step fs (.main .done) =
        some (.acquire .heap, logging logCalls true (.heap :: s.world.held)) := by
      simp [Proc.step, alive, Proc.control, Frame.next, libNext, Move.apply, Op.apply, Op.survivors, logging,
        logCalls, LibCall.lock, heap]
    have build : (logging logCalls true (.heap :: s.world.held)).step fs (.main (.ok true)) =
        some (.finish .heap .ok, logging [.syslog, .heap] false s.world.held) := by
      simp [Proc.step, alive, Proc.control, Frame.next, libNext, Move.apply, Op.apply, Op.survivors, logging,
        logCalls, LibCall.lock]
    exact ⟨_, _, .snoc (.snoc called ⟨_, trivial, take⟩) ⟨_, trivial, build⟩,
      ⟨.syslog, [.heap], _, rfl, syslog⟩, by simp, by simp⟩

end Run

/-- SIGTERM in `on_start`, between two library calls. -/
def stopBetweenCalls : List Label :=
  List.flatten [[.user (.run [])], bootHandlers, bootDone, bootStart, [.user (.lib [.heap])], libCalls 1, handleTerm]

theorem handler_not_blocked_betweenCalls :
    ∃ ops t, (process lexical).Run (fun s l => betweenCalls s l = true) fresh ops t ∧
      .notifyAll true ∈ ops ∧ ¬ t.Blocked := by
  obtain ⟨ops, t, run, stopped⟩ := (process lexical).exists_run (C := fun s l => betweenCalls s l = true)
    (P := fun ops _ => .notifyAll true ∈ ops) stopBetweenCalls (s := fresh) rfl
  exact ⟨ops, t, run, of_decide_eq_true stopped, handler_not_blocked run⟩

/-- SIGTERM in `on_start`, inside an allocation. -/
def stopInAllocation : List Label :=
  List.flatten [[.user (.run [])], bootHandlers, bootDone, bootStart, [.user (.lib [.heap])], statements 1,
    [.signal .SIGTERM], statements 1]

/-- **A signal inside an allocation blocks its handler** before it has called `stop`. -/
theorem handler_blocks : ∃ ops t, (process lexical).Run (fun _ _ => True) fresh ops t ∧
    .clearRunning EXIT_SUCCESS ∉ ops ∧ t.Blocked := by
  obtain ⟨ops, t, run, inside⟩ := (process lexical).exists_run (C := fun _ _ => True)
    (P := fun ops t => .clearRunning EXIT_SUCCESS ∉ ops ∧ t.world.held = [.heap] ∧
      t.stack = .lib logCalls false :: .signalHandler .SIGTERM .switch :: .lib [.heap] true ::
        .callback .onStart (some {}) :: .run [] (.called .onStart) :: [.owner .live])
    stopInAllocation (s := fresh) rfl
  obtain ⟨unstopped, held, stack⟩ := of_decide_eq_true inside
  exact ⟨ops, t, run, unstopped, .heap, [.syslog, .heap], _, stack, by rw [held]; decide⟩

end Daemonpp
