import Daemonpp.Lifecycle.Phase

/-!
# The pace of the updates

`wait_for(lock, d, pred)` waits until `steady_clock::now() + d`, a sum of signed 64-bit
nanoseconds, and `m_update_duration` is any such number. The process with a clock: time
passes between any two of its steps, each wait computes its deadline (`wrap64`), and a
wait times out only once the clock has reached it; wakeups by notification or for no reason
come at any time. The updates keep the pace exactly when every deadline fits
(`paced_iff`); a duration near the end of the range makes the deadline lie in the past, and
the loop does not wait at all (`busy_loop`).
-/

namespace Daemonpp

open Lib (Path)

/-- A signed 64-bit sum, as the machine forms it. -/
def wrap64 (n : Int) : Int := n.bmod (2 ^ 64)

/-- `duration::max()` and the last reading of the clock, in nanoseconds. -/
def max64 : Int := 2 ^ 63 - 1

theorem wrap64_eq_iff {n : Int} (least : 0 ≤ n) : wrap64 n = n ↔ n ≤ max64 := by
  unfold wrap64 max64
  rw [Int.bmod_def]
  split <;> omega

/-- What happens in a process with a clock. -/
inductive Event where
  /-- Time passes. -/
  | tick (time : Nat)
  /-- `wait_for` reads the clock and computes its deadline; the mutex has just been taken. -/
  | wait (clock duration deadline : Int)
  /-- Any other operation, at the time `clock`. -/
  | step (clock : Int) (op : Op)
  deriving DecidableEq, Repr

/-- The operation of the process in an event. -/
def Event.op? : Event → Option Op
  | .tick _ => none
  | .wait _ _ _ => some .lockMutex
  | .step _ op => some op

/-- A process and the clock, with the deadline of the wait in progress. -/
structure Timed (Dir : Type) where
  proc : Proc Dir
  clock : Int
  deadline : Int := 0

inductive TimedLabel where
  | tick (time : Nat)
  | act (l : Label)
  deriving DecidableEq, Repr

section Step

variable {Dir File : Type} (fs : PathSpace Dir File)

/-- A wait times out only once the clock has reached the deadline. -/
def Timed.ready (x : Timed Dir) : Label → Bool
  | .main .timeout => x.deadline ≤ x.clock
  | _ => true

def Timed.step (x : Timed Dir) : TimedLabel → Option (Event × Timed Dir)
  | .tick time => some (.tick time, { x with clock := x.clock + time })
  | .act l =>
    if x.ready l then
      match x.proc.step fs l with
      | none => none
      | some (.lockMutex, proc) =>
        let duration := x.proc.world.obj.updateDuration
        let deadline := wrap64 (x.clock + duration)
        some (.wait x.clock duration deadline, { x with proc, deadline })
      | some (op, proc) => some (.step x.clock op, { x with proc })
    else none

/-- The process with its clock as a system. -/
def timed : Lib.System (Timed Dir) TimedLabel Event := ⟨Timed.step fs⟩

end Step

/-- Nobody calls `run`. -/
def TimedLabel.quiet : TimedLabel → Bool
  | .tick _ => true
  | .act l => !l.callsRun

/-- The operations of the process. -/
def operations (events : List Event) : List Op := events.filterMap Event.op?

/-- No `stop` stores `false`. -/
def Unstopped (events : List Event) : Prop := ∀ code, .clearRunning code ∉ operations events

/-- The updates keep the pace: each deadline is the sum it stands for, and no update begins before
the duration of an earlier wait has passed, unless `stop` has been called. -/
structure Paced (events : List Event) : Prop where
  exact : ∀ clock duration deadline, .wait clock duration deadline ∈ events → deadline = clock + duration
  apart : ∀ before between after clock duration deadline now,
    events = before ++ .wait clock duration deadline :: (between ++ .step now (.began .onUpdate) :: after) →
      Unstopped (before ++ .wait clock duration deadline :: between) → clock + duration ≤ now

/-- The reading of the clock and the duration of a wait are not negative. -/
def Event.admitted : Event → Bool
  | .wait clock duration _ => 0 ≤ clock && 0 ≤ duration
  | _ => true

/-- The duration of a wait leaves room behind the reading of the clock. -/
def Event.fits : Event → Bool
  | .wait clock duration _ => duration ≤ max64 - clock
  | _ => true

section Run

variable {Dir File : Type} {fs : PathSpace Dir File} {s₀ s t : Proc Dir} {x y : Timed Dir} {l : Label} {op : Op}
variable {argv : List Bytes} {event : Event} {events : List Event}

/-- The three kinds of step. -/
inductive TimedCase (fs : PathSpace Dir File) (x : Timed Dir) : TimedLabel → Event → Timed Dir → Prop where
  | tick (time : Nat) : TimedCase fs x (.tick time) (.tick time) { x with clock := x.clock + time }
  | wait {l : Label} {proc : Proc Dir} {duration deadline : Int} (step : x.proc.step fs l = some (.lockMutex, proc))
      (sum : deadline = wrap64 (x.clock + duration)) :
      TimedCase fs x (.act l) (.wait x.clock duration deadline) { x with proc, deadline }
  | step {l : Label} {op : Op} {proc : Proc Dir} (ready : x.ready l = true)
      (step : x.proc.step fs l = some (op, proc)) (other : op ≠ .lockMutex) :
      TimedCase fs x (.act l) (.step x.clock op) { x with proc }

theorem timed_cases {l : TimedLabel} (step : x.step fs l = some (event, y)) : TimedCase fs x l event y := by
  cases l with
  | tick time =>
    cases step
    exact .tick time
  | act l =>
    unfold Timed.step at step
    simp only at step
    split at step
    · rename_i ready
      split at step
      · cases step
      · rename_i proc moved
        cases step
        exact .wait moved rfl
      · rename_i op proc other moved
        cases step
        exact .step ready moved other
    · cases step

theorem operations_concat : operations (events ++ [event]) = operations events ++ event.op?.toList := by
  rw [operations, List.filterMap_append]
  cases event <;> rfl

theorem Unstopped.of_concat (h : Unstopped (events ++ [event])) : Unstopped events := by
  intro code mem
  refine h code ?_
  rw [operations_concat]
  exact List.mem_append_left _ mem

/-! ## A wait in progress -/

/-- From the call of `wait_for` to its return. -/
def RunPc.waits : RunPc → Bool
  | .pred | .block | .blocked => true
  | _ => false

/-- `run` waits. -/
def Waiting (stack : List Frame) : Prop := ∃ argv pc, .run argv pc ∈ stack ∧ pc.waits = true

/-- A wait ends in a time-out, or when it finds the flag down. -/
inductive WaitStep (s : Proc Dir) (l : Label) (t : Proc Dir) : Prop where
  | goes (waiting : Waiting t.stack) : WaitStep s l t
  | timeout (label : l = .main .timeout) : WaitStep s l t
  | awake {argv : List Bytes} {rest : List Frame} (top : s.stack = .run argv .pred :: rest)
      (down : s.world.obj.isRunning = false) : WaitStep s l t

/-- Only a time-out leads where a wait that has timed out goes on. -/
theorem reply_timeout {r : Reply} {rest : List Frame} (top : s.stack = .run argv .blocked :: rest)
    (step : s.step fs (.main r) = some (op, t)) (after : t.stack = .run argv .timedOut :: rest) : r = .timeout := by
  unfold Proc.step Proc.control at step
  rw [top] at step
  split at step
  · cases r with
    | timeout => rfl
    | notified | spurious =>
      simp only [Frame.next, runNext] at step
      split at step
      · cases step
      · cases step
        cases after
    | _ => simp [Frame.next, runNext] at step
  · cases step

theorem waiting_step (waiting : Waiting s.stack) (step : s.step fs l = some (op, t)) : WaitStep s l t := by
  obtain ⟨argv, pc, mem, waits⟩ := waiting
  have idle : (Frame.run argv pc).awaits = none := by
    cases pc with
    | pred | block | blocked => rfl
    | _ => cases waits
  rcases frame_stays step mem idle with stays | ⟨rest, move, top, moves, after⟩
  · exact .goes ⟨argv, pc, stays, waits⟩
  · have goes : ∀ pc', move = .goto (.run argv pc') → pc'.waits = true → WaitStep s l t := by
      rintro pc' rfl waits
      exact .goes ⟨argv, pc', after ▸ List.mem_cons_self, waits⟩
    cases moves with
    | user _ user => cases user
    | run r h =>
      cases h with
      | sleep | block | wake => exact goes _ rfl rfl
      | awake down => exact .awake top down
      | timeout => exact .timeout (congrArg _ (reply_timeout top step after))
      | _ => cases waits

/-! ## The pace -/

/-- What a run with a clock tells: the process has made the steps, and once the durations fit, each
of them has passed or is that of the wait in progress. -/
structure Pace (fs : PathSpace Dir File) (s₀ : Proc Dir) (events : List Event) (x : Timed Dir) : Prop where
  run : (process fs).Run (fun _ l => l.callsRun = false) s₀ (operations events) x.proc
  sums : ∀ clock duration deadline, .wait clock duration deadline ∈ events → deadline = wrap64 (clock + duration)
  due : (∀ clock duration deadline, .wait clock duration deadline ∈ events → deadline = clock + duration) →
    Unstopped events → ∀ clock duration deadline, .wait clock duration deadline ∈ events →
      clock + duration ≤ x.clock ∨ Waiting x.proc.stack ∧ x.deadline = clock + duration

theorem pace_start (x : Timed Dir) : Pace fs x.proc [] x where
  run := .start
  sums := nofun
  due := nofun

/-- The flag is up while `run` waits and nobody has stopped it. -/
theorem flag_of_unstopped {ops : List Op} {rest : List Frame} (entered : Entered argv s₀)
    (run : (process fs).Run (fun _ l => l.callsRun = false) s₀ ops s) (unstopped : ∀ code, .clearRunning code ∉ ops)
    {argv' : List Bytes} (top : s.stack = .run argv' .pred :: rest) : s.world.obj.isRunning = true := by
  obtain ⟨path, -⟩ := life_of_run (fun _ _ quiet => quiet) entered.lives run
  have idle : phase s.stack = .idle := by
    rw [top]
    exact phase_of_some rfl rest
  by_contra down
  obtain ⟨before, after, code, rfl, mem⟩ := (Life.flagged path).down
    (by simp [Proc.life, idle]) (by simp [Proc.life, idle]) (Bool.eq_false_iff.2 down)
  exact unstopped code (by simp [mem])

/-- While `run` is elsewhere, it does not wait. -/
theorem not_waiting {pc : RunPc} {rest : List Frame} (single : Single s.stack) (top : s.stack = .run argv pc :: rest)
    (elsewhere : pc.waits = false) : ¬ Waiting s.stack := by
  rintro ⟨argv', pc', mem, waits⟩
  unfold Single at single
  rw [top] at mem single
  rcases List.mem_cons.1 mem with same | mem
  · cases same
    rw [elsewhere] at waits
    cases waits
  · exact single.1 rfl _ mem rfl

/-- The process of a timed step makes the step of its event. -/
theorem TimedCase.run {l : TimedLabel} {ops : List Op} (quiet : l.quiet = true) (step : TimedCase fs x l event y)
    (run : (process fs).Run (fun _ l => l.callsRun = false) s₀ ops x.proc) :
    (process fs).Run (fun _ l => l.callsRun = false) s₀ (ops ++ event.op?.toList) y.proc := by
  cases step with
  | tick => exact (List.append_nil ops).symm ▸ run
  | wait moved | step _ moved => exact .snoc run ⟨_, by simpa [TimedLabel.quiet] using quiet, moved⟩

/-- What has passed has passed, and a wait in progress goes on until its deadline. -/
theorem TimedCase.due {l : TimedLabel} {due : Int} (step : TimedCase fs x l event y) (single : Single x.proc.stack)
    (up : ∀ {argv rest}, x.proc.stack = .run argv .pred :: rest → x.proc.world.obj.isRunning = true)
    (earlier : due ≤ x.clock ∨ Waiting x.proc.stack ∧ x.deadline = due) :
    due ≤ y.clock ∨ Waiting y.proc.stack ∧ y.deadline = due := by
  cases step with
  | tick time => exact earlier.imp (fun passed => by simp only; omega) id
  | wait moved =>
    have ⟨_, rest, move, top, .run _ locks, _⟩ := performs_of_step moved rfl
    cases locks with
    | lock =>
      -- no other wait is in progress
      exact .inl (earlier.resolve_right fun waiting => not_waiting single top rfl waiting.1)
  | step ready moved =>
    rcases earlier with passed | ⟨waiting, due⟩
    · exact .inl passed
    · cases waiting_step waiting moved with
      | goes waiting => exact .inr ⟨waiting, due⟩
      | timeout label =>
        subst label
        have reached : x.deadline ≤ x.clock := of_decide_eq_true ready
        exact .inl (by simp only; omega)
      | awake top down =>
        rw [up top] at down
        cases down

/-- A new wait is in progress, and its deadline is the wrapped sum. -/
theorem TimedCase.waits {l : TimedLabel} {clock duration deadline : Int}
    (step : TimedCase fs x l (.wait clock duration deadline) y) :
    deadline = wrap64 (clock + duration) ∧ Waiting y.proc.stack ∧ y.deadline = deadline := by
  cases step with
  | wait moved sum =>
    have ⟨_, rest, move, _, .run _ locks, after⟩ := performs_of_step moved rfl
    cases locks with
    | lock => exact ⟨sum, ⟨_, .pred, by rw [after]; exact List.mem_cons_self, rfl⟩, rfl⟩

theorem Pace.step {l : TimedLabel} (h : Pace fs s₀ events x) (entered : Entered argv s₀) (quiet : l.quiet = true)
    (step : TimedCase fs x l event y) : Pace fs s₀ (events ++ [event]) y := by
  obtain ⟨-, lives⟩ := life_of_run (fun _ _ quiet => quiet) entered.lives h.run
  constructor
  · rw [operations_concat]
    exact step.run quiet h.run
  · intro clock duration deadline mem
    rcases List.mem_append.1 mem with before | now
    · exact h.sums clock duration deadline before
    · cases List.mem_singleton.1 now
      exact step.waits.1
  · intro exact unstopped clock duration deadline mem
    have unstopped := unstopped.of_concat
    rcases List.mem_append.1 mem with before | now
    · have before_exact : ∀ clock duration deadline, .wait clock duration deadline ∈ events →
          deadline = clock + duration :=
        fun clock duration deadline mem => exact clock duration deadline (List.mem_append_left _ mem)
      have earlier := h.due before_exact unstopped clock duration deadline before
      exact step.due lives.single (fun top => flag_of_unstopped entered h.run unstopped top) earlier
    · cases List.mem_singleton.1 now
      obtain ⟨-, waiting, due⟩ := step.waits
      exact .inr ⟨waiting, due.trans (exact _ _ _ mem)⟩

theorem pace_of_run (entered : Entered argv x.proc) (run : (timed fs).Run (fun _ l => l.quiet = true) x events y) :
    Pace fs x.proc events y :=
  run.invariant (pace_start x) fun _ pace ⟨_, quiet, step⟩ => pace.step entered quiet (timed_cases step)

/-- **When the updates keep the pace**: exactly when each duration leaves room behind the reading of
the clock, whatever wakes the waits up. -/
theorem paced_iff (entered : Entered argv x.proc) (run : (timed fs).Run (fun _ l => l.quiet = true) x events y)
    (admitted : ∀ event ∈ events, event.admitted = true) :
    Paced events ↔ ∀ event ∈ events, event.fits = true := by
  have sum : ∀ clock duration deadline, .wait clock duration deadline ∈ events →
      (deadline = clock + duration ↔ duration ≤ max64 - clock) := by
    intro clock duration deadline mem
    have least := admitted _ mem
    simp only [Event.admitted, Bool.and_eq_true, decide_eq_true_eq] at least
    rw [(pace_of_run entered run).sums clock duration deadline mem, wrap64_eq_iff (by omega)]
    omega
  constructor
  · intro paced event mem
    cases event with
    | wait clock duration deadline => exact decide_eq_true ((sum clock duration deadline mem).1 (paced.exact _ _ _ mem))
    | _ => rfl
  · intro fits
    have exact : ∀ clock duration deadline, .wait clock duration deadline ∈ events → deadline = clock + duration :=
      fun clock duration deadline mem => (sum clock duration deadline mem).2 (of_decide_eq_true (fits _ mem))
    refine ⟨exact, ?_⟩
    intro before between after clock duration deadline now same unstopped
    rw [← List.cons_append, ← List.append_assoc] at same
    subst same
    obtain ⟨u, v, first, ⟨l, -, step⟩, -⟩ := run.cut
    have pace := pace_of_run entered first
    obtain ⟨-, lives⟩ := life_of_run (fun _ _ quiet => quiet) entered.lives pace.run
    have due := pace.due (fun _ _ _ mem => exact _ _ _ (List.mem_append_left _ mem)) unstopped clock duration deadline
      (List.mem_append_right _ List.mem_cons_self)
    cases timed_cases step with
    | step _ moved _ =>
      refine due.resolve_right fun waiting => ?_
      have ⟨_, rest, move, top, .run _ updates, _⟩ := performs_of_step moved rfl
      cases updates with
      | update => exact not_waiting lives.single top rfl waiting.1

end Run

/-- A service whose clock reads `clock` and whose update duration is `duration`, with `run` just entered. -/
def timedEntry (clock duration : Int) : Timed Bytes where
  proc := { Proc.launch (.construct (bytes "service") (bytes "/") duration) 1 (bytes "/") with
    stack := [.run [] .guard, .owner .live] }
  clock := clock

/-- The first update, and `wait_for` up to its block. -/
def firstWait : List TimedLabel :=
  (List.flatten [bootHandlers, bootDone, bootStart, startReturns, statements 2, [.user .ret], statements 3]).map .act

/-- A time-out, up to the next update. -/
def timesOut : List TimedLabel :=
  (List.flatten [[.main .timeout], statements 4]).map .act

/-- Ten seconds, with a spurious wakeup behind four of them. -/
def tenSeconds : List TimedLabel :=
  List.flatten [firstWait, [.tick 4000000000, .act (.main .spurious)], (statements 2).map .act, [.tick 6000000000],
    timesOut]

theorem paced_iff_tenSeconds : ∃ events y,
    (timed lexical).Run (fun _ l => l.quiet = true) (timedEntry 1 10000000000) events y ∧
      (operations events).count (.began .onUpdate) = 2 ∧ (Paced events ↔ ∀ event ∈ events, event.fits = true) := by
  obtain ⟨events, y, run, all⟩ := (timed lexical).exists_run (C := fun _ l => l.quiet = true)
    (P := fun events _ => (operations events).count (.began .onUpdate) = 2 ∧ ∀ event ∈ events, event.admitted = true)
    tenSeconds (s := timedEntry 1 10000000000) rfl
  obtain ⟨updates, admitted⟩ := of_decide_eq_true all
  exact ⟨events, y, run, updates, paced_iff (show Entered [] (timedEntry 1 10000000000).proc from rfl) run admitted⟩

/-- **A busy loop**: with the longest duration the deadline lies in the past, and the next update
begins at the same time. -/
theorem busy_loop : ∃ events y,
    (timed lexical).Run (fun _ l => l.quiet = true) (timedEntry 1 max64) events y ∧
      (∀ event ∈ events, event.admitted = true) ∧ .wait 1 max64 (-2 ^ 63) ∈ events ∧ y.clock = 1 ∧
        (operations events).count (.began .onUpdate) = 2 ∧ ¬ Paced events := by
  obtain ⟨events, y, run, all⟩ := (timed lexical).exists_run (C := fun _ l => l.quiet = true)
    (P := fun events y => (∀ event ∈ events, event.admitted = true) ∧ .wait 1 max64 (-2 ^ 63) ∈ events ∧ y.clock = 1 ∧
      (operations events).count (.began .onUpdate) = 2)
    (firstWait ++ timesOut) (s := timedEntry 1 max64) rfl
  obtain ⟨admitted, waits, clock, updates⟩ := of_decide_eq_true all
  refine ⟨events, y, run, admitted, waits, clock, updates, fun paced => ?_⟩
  have sum := paced.exact _ _ _ waits
  revert sum
  decide

end Daemonpp
