import Daemonpp.Lifecycle.Phase

/-!
# A handled SIGTERM

`signal_handler` answers SIGTERM with `stop()`, which stores `false` in
`m_is_running`; but the handler is installed in `daemonize`, and `run` stores
`true` only behind it. A SIGTERM that comes in between is overwritten
(`term_lost`). One that comes once `run` has set the flag is kept
(`term_kept`): from there on the flag never goes up again, and the stack invariant
`Termed` places the handler behind that point.
-/

namespace Daemonpp

open Lib (Path)

/-- Behind the return of the `stop` that `signal_handler` calls, the flag is down
and `run` does not raise it again. -/
def TermKept {Dir : Type} (ops : List Op) (t : Proc Dir) : Prop :=
  ∀ before after, ops = before ++ .notifyAll true :: after →
    t.world.obj.isRunning = false ∧ .setRunning ∉ after

/-- The signals that `signal_handler` answers with `stop()`. -/
def Label.terminates : Label → Bool
  | .signal sig => sig != .SIGHUP
  | _ => false

/-- Nobody calls `run` again, and a terminating signal comes once `run` has stored
`true` in `m_is_running`. -/
def TermOnceRunning {Dir : Type} (s : Proc Dir) (l : Label) : Prop :=
  l.callsRun = false ∧ (l.terminates = true → phase s.stack ≠ .prep)

instance {Dir : Type} (s : Proc Dir) (l : Label) : Decidable (TermOnceRunning s l) :=
  inferInstanceAs (Decidable (_ ∧ (_ → _)))

/-- A handled SIGTERM: `signal_handler` and the `stop` it calls. -/
def Kind.terms : Kind → Bool
  | .signalHandler sig => sig != .SIGHUP
  | .stop handler => handler
  | _ => false

theorem Calls.terms {l : Label} {k k' : Kind} (h : Calls l k k') (terms : k'.terms = true) : k.terms = true := by
  cases h with
  | handlerStop sig other => simpa [Kind.terms] using other
  | _ => cases terms

section Run

variable {Dir File : Type} {fs : PathSpace Dir File} {s t : Proc Dir} {l : Label} {op : Op}

/-- The handler of a SIGTERM runs behind `m_is_running = true`, and its `stop` has
lowered the flag by the time it notifies. -/
structure Termed (s : Proc Dir) : Prop where
  started : ∀ f ∈ s.stack, f.kind.terms = true → phase s.stack ≠ .prep
  lowered : ∀ code, .stop true code .notify ∈ s.stack → s.world.obj.isRunning = false

theorem Termed.step (h : Termed s) (lives : Lives s s.life) (quiet : l.callsRun = false)
    (late : l.terminates = true → phase s.stack ≠ .prep) (step : s.step fs l = some (op, t)) : Termed t := by
  have life := life_of_step lives.stacked lives.single quiet step
  constructor
  · intro f mem terms
    refine (Life.begun_of_step life ?_).1
    refine kind_step lives.stacked step h.started nofun (fun k k' calls => calls.terms) ?_ f mem terms
    exact fun sig label terms => late (label ▸ terms)
  · intro code mem
    cases stop_origin step mem with
    | before mem =>
      have path : Path LifeStep s.life ([] ++ [op]) t.life := .snoc .start life
      exact Life.down_of_path path (h.started _ mem rfl) (h.lowered code mem)
    | lowered performs =>
      obtain ⟨-, world, -⟩ := step_cases step
      rw [world, performs, Op.apply_isRunning]
      rfl

/-- The statement with which the handler's `stop` ends. -/
theorem notify_top (step : s.step fs l = some (.notifyAll true, t)) : ∃ code, .stop true code .notify ∈ s.stack := by
  obtain ⟨f, rest, move, top, moves, -⟩ := moves_of_step step rfl
  rw [top]
  cases moves with
  | stop _ h =>
    cases h with
    | notify => exact ⟨_, List.mem_cons_self⟩
  | run _ h | daemonize _ h | signalHandler _ h | fromFile _ h | lib _ h | owner _ h | user h => cases h

theorem Termed.of_run {argv : List Bytes} {ops : List Op} (entered : Entered argv s)
    (run : (process fs).Run TermOnceRunning s ops t) : Termed t ∧ Lives t t.life := by
  have start : Termed s ∧ Lives s s.life := by
    have lives := entered.lives
    refine ⟨?_, lives.same ▸ lives⟩
    unfold Entered at entered
    constructor <;> simp [entered, Frame.kind, Kind.terms]
  refine run.always (I := fun t => Termed t ∧ Lives t t.life) start ?_
  rintro u op v ⟨termed, lives⟩ ⟨l, ⟨quiet, late⟩, step⟩
  obtain ⟨_, -, lives'⟩ := lives.step quiet step
  exact ⟨termed.step lives quiet late step, lives'.same ▸ lives'⟩

/-- **A SIGTERM that comes once the flag is set is kept.** -/
theorem term_kept {argv : List Bytes} {ops : List Op} (entered : Entered argv s)
    (run : (process fs).Run TermOnceRunning s ops t) : TermKept ops t := by
  rintro before after rfl
  obtain ⟨u, v, first, ⟨l, ⟨quiet, -⟩, step⟩, rest⟩ := run.cut
  obtain ⟨termed, lives⟩ := Termed.of_run entered first
  obtain ⟨code, mem⟩ := notify_top step
  have life := life_of_step lives.stacked lives.single quiet step
  have begun : v.life.phase ≠ .prep := (Life.begun_of_step life (termed.started _ mem rfl)).1
  have down : v.life.running = false := by
    obtain ⟨-, world, -⟩ := step_cases step
    show v.world.obj.isRunning = false
    rw [world, Op.apply_isRunning]
    exact termed.lowered code mem
  obtain ⟨_, -, lives'⟩ := lives.step quiet step
  obtain ⟨path, -⟩ := life_of_run (fun _ _ allowed => allowed.1) (lives'.same ▸ lives') rest
  exact ⟨Life.down_of_path path begun down, (Life.begun_of_path path begun).2⟩

end Run

/-- SIGTERM in `on_start`, and the rest of that life. -/
def earlyStop : List Label :=
  List.flatten [bootHandlers, bootDone, bootStart, handleTerm, startReturns, statements 2, [.user .ret], statements 1]

theorem term_kept_earlyStop : ∃ ops t, (process lexical).Run TermOnceRunning entry ops t ∧
    .notifyAll true ∈ ops ∧ TermKept ops t := by
  obtain ⟨ops, t, run, notified⟩ := (process lexical).exists_run (C := TermOnceRunning)
    (P := fun ops _ => .notifyAll true ∈ ops) earlyStop (s := entry) rfl
  exact ⟨ops, t, run, of_decide_eq_true notified, term_kept (show Entered [] entry from rfl) run⟩

/-- SIGTERM just behind the installation of its handler. -/
def lostStop : List Label :=
  List.flatten [bootHandlers, handleTerm, bootDone, bootStart, startReturns, statements 2]

/-- **A SIGTERM between the installation of its handler and `m_is_running = true` is
lost**: `on_update` is called as if it had never come. -/
theorem term_lost : ∃ ops t, (process lexical).Run (fun _ l => l.callsRun = false) entry ops t ∧
    .began .onUpdate ∈ ops ∧ ¬ TermKept ops t := by
  obtain ⟨ops, t, run, lost⟩ := (process lexical).exists_run (C := fun _ l => l.callsRun = false)
    (P := fun ops t => .notifyAll true ∈ ops ∧ .began .onUpdate ∈ ops ∧ t.world.obj.isRunning = true)
    lostStop (s := entry) rfl
  obtain ⟨notified, updated, up⟩ := of_decide_eq_true lost
  refine ⟨ops, t, run, updated, fun kept => ?_⟩
  obtain ⟨before, after, same⟩ := List.append_of_mem notified
  rw [(kept before after same).1] at up
  cases up

end Daemonpp
