import Daemonpp.Lifecycle.Automaton
import Daemonpp.Process.Effect
import Daemonpp.Process.Launch

/-!
# The process refines the life of a service

The phase of a call of `run` is read off the stack: the statement its frame is
at, or `ended` when there is no such frame or the process is on its way out above
it. As long as nobody calls `run` again, every step of the process is a step of
`LifeStep` on its phase and flag (`life_of_step`), so a run of the process is a
life (`life_of_run`); it begins where `run` is entered (`entered_of_call`).
-/

namespace Daemonpp

open Lib (Layered Path)

def RunPc.phase : RunPc → Phase
  | .guard | .scan | .daemonize | .daemonizing | .running => .prep
  | .config | .configuring | .start _ => .ready
  | .called .onStart => .inStart
  | .started | .loop | .lock | .pred | .block | .blocked | .timedOut | .unlock => .idle
  | .update => .go
  | .called .onUpdate => .inUpdate
  | .stop => .leaving
  | .called .onStop => .inStop
  | .called .onReload | .ret => .ended

/-- The phase a frame decides. -/
def Frame.phase? : Frame → Option Phase
  | .run _ pc => some pc.phase
  | .exiting => some .ended
  | _ => none

/-- The phase of the innermost call of `run`. -/
def phase (stack : List Frame) : Phase := (stack.findSome? Frame.phase?).getD .ended

theorem phase_of_some {f : Frame} {p : Phase} (h : f.phase? = some p) (rest : List Frame) :
    phase (f :: rest) = p := by
  unfold phase
  rw [List.findSome?_cons, h]
  rfl

theorem phase_of_none {f : Frame} (h : f.phase? = none) (rest : List Frame) :
    phase (f :: rest) = phase rest := by
  unfold phase
  rw [List.findSome?_cons, h]

/-- Returning to a frame that was not waiting for a callback does not change the phase. -/
theorem phase_resume {g : Frame} (value : Option Dconfig) (other : ∀ cb, g.awaits ≠ some (.callback cb))
    (below : List Frame) : phase (g.resume value :: below) = phase (g :: below) := by
  have same : (g.resume value).phase? = g.phase? := by
    cases g using Frame.resume_cases with
    | onStart => exact absurd rfl (other .onStart)
    | onUpdate => exact absurd rfl (other .onUpdate)
    | onStop => exact absurd rfl (other .onStop)
    | stays g stays => rw [stays value]
    | _ => rfl
  unfold phase
  rw [List.findSome?_cons, List.findSome?_cons, same]

/-- No call of `run` is below another one. -/
def Single (stack : List Frame) : Prop :=
  Layered (fun f below => f.kind = .run → ∀ g ∈ below, g.kind ≠ .run) stack

theorem phase_of_no_run {stack : List Frame} (none : ∀ g ∈ stack, g.kind ≠ .run) : phase stack = .ended := by
  induction stack with
  | nil => rfl
  | cons f rest ih =>
    have rest_ended := ih fun g mem => none g (List.mem_cons_of_mem f mem)
    cases f with
    | run argv pc => exact absurd rfl (none _ List.mem_cons_self)
    | exiting => rfl
    | _ => exact (phase_of_none rfl rest).trans rest_ended

section Refinement

variable {Dir File : Type} {fs : PathSpace Dir File} {s t : Proc Dir} {l : Label} {op : Op}

/-- The life of the innermost call of `run`. -/
def Proc.life (s : Proc Dir) : Life := ⟨phase s.stack, s.world.obj.isRunning⟩

theorem Single.step (h : Single s.stack) (stacked : WellStacked s.stack) (quiet : l.callsRun = false)
    (step : s.step fs l = some (op, t)) : Single t.stack := by
  refine layered_step step h ?_ fun sig _ _ => nofun
  intro f rest move top moves single
  have kinds := moves.ofKind (stacked.top top).1
  cases move with
  | goto f' =>
    rcases kinds with same | rfl
    · exact fun run => single (same ▸ run)
    · exact nofun
  | call f' g =>
    refine ⟨fun run => single (kinds.1 ▸ run), fun run => ?_⟩
    have loud := (run ▸ kinds.2 : Calls l f.kind .run).callsRun
    rw [quiet] at loud
    cases loud
  | ret value => exact fun g below _ single run => single (g.kind_resume value ▸ run)
  | leave => trivial

/-- A statement of `run`. -/
theorem RunMove.life {w : World Dir} {argv : List Bytes} {pc : RunPc} {move : Move} {rest : List Frame}
    (h : RunMove w argv pc op move) (single : ∀ g ∈ rest, g.kind ≠ .run) :
    LifeStep ⟨pc.phase, w.obj.isRunning⟩ op ⟨phase (move.apply rest), op.isRunning w.obj.isRunning⟩ := by
  cases h with
  | again up =>
    rw [up]
    exact .again
  | finish down =>
    rw [down]
    exact .finish
  | running => exact .set _
  | start => exact .start _
  | update => exact .update _
  | stop => exact .stop _
  | refuse => exact .quit _ _ rfl
  | ret =>
    show LifeStep ⟨.ended, _⟩ .tau ⟨phase rest, _⟩
    rw [phase_of_no_run single]
    exact .stay _ _ rfl
  | _ => exact .stay _ _ rfl

/-- The return of a callback. -/
theorem life_of_returned {cb : Callback} {arg : Option Dconfig} {rest : List Frame} (up : Bool)
    (on : (Frame.callback cb arg).On rest) (proper : Layered (fun f _ => f.Proper) rest) :
    LifeStep ⟨phase (.callback cb arg :: rest), up⟩ (.returned cb) ⟨phase (Move.apply rest (.ret none)), up⟩ := by
  rw [phase_of_none rfl]
  cases rest with
  | nil => cases on
  | cons g below =>
    rcases Frame.awaits_callback on with ⟨argv, rfl⟩ | ⟨sig, rfl, rfl⟩
    · cases cb with
      | onStart => exact .started _
      | onUpdate => exact .updated _
      | onStop => exact .stopped _
      | onReload => exact absurd rfl proper.1
    · exact .stay _ _ rfl

/-- A statement of any frame: those of `run` and the returns of its callbacks lead on. -/
theorem Moves.life {w : World Dir} {f : Frame} {move : Move} {rest : List Frame} (moves : Moves w f l op move)
    (quiet : l.callsRun = false) (placed : Layered (fun f below => f.Proper ∧ f.On below) (f :: rest))
    (single : Single (f :: rest)) :
    LifeStep ⟨phase (f :: rest), w.obj.isRunning⟩ op ⟨phase (move.apply rest), op.isRunning w.obj.isRunning⟩ := by
  have on := placed.1.2
  -- what returns and is no callback leaves the phase to its caller
  have returned : ∀ value, move = .ret value → (∀ cb, op ≠ .returned cb) →
      phase (Move.apply rest (.ret value)) = phase rest := by
    rintro value rfl other
    obtain ⟨g, below, rfl, -, -, ⟨cb, _, -, same, -⟩ | plain⟩ := moves.ret_cases on
    · exact absurd same (other cb)
    · exact phase_resume value plain.apart below
  cases moves with
  | run _ h =>
    rw [phase_of_some rfl]
    exact h.life (single.1 rfl)
  | daemonize _ h =>
    rw [phase_of_none rfl]
    cases h with
    | closeLast =>
      rw [returned _ rfl nofun]
      exact .stay _ _ rfl
    | exit => exact .quit _ _ rfl
    | _ => exact .stay _ _ rfl
  | stop _ h =>
    rw [phase_of_none rfl]
    cases h with
    | notify =>
      rw [returned _ rfl nofun]
      exact .stay _ _ rfl
    | flag => exact .clear _ _ _
    | exitCode => exact .stay _ _ rfl
  | signalHandler _ h =>
    rw [phase_of_none rfl]
    cases h with
    | pure => exact .quit _ _ rfl
    | _ => exact .stay _ _ rfl
  | fromFile _ h =>
    rw [phase_of_none rfl]
    cases h with
    | empty | close =>
      rw [returned _ rfl nofun]
      exact .stay _ _ rfl
    | outOfRange => exact .quit _ _ rfl
    | _ => exact .stay _ _ rfl
  | lib _ h =>
    rw [phase_of_none rfl]
    cases h <;> exact .stay _ _ rfl
  | owner _ h =>
    rw [phase_of_none rfl]
    cases h with
    | exit => exact .quit _ _ rfl
    | _ => exact .stay _ _ rfl
  | exiting => exact .stay _ _ rfl
  | user h user =>
    cases h with
    | run => cases quiet
    | ret cb arg callback =>
      subst callback
      exact life_of_returned _ on (placed.2.mono fun _ _ placed => placed.1)
    | destroy live =>
      subst live
      exact .stay _ _ rfl
    | _ => exact .stay _ _ rfl

/-- **Every step of the process is a step of the life**. -/
theorem life_of_step (stacked : WellStacked s.stack) (single : Single s.stack) (quiet : l.callsRun = false)
    (step : s.step fs l = some (op, t)) : LifeStep s.life op t.life := by
  obtain ⟨-, world, cases⟩ := step_cases step
  unfold Proc.life
  rw [world, Op.apply_isRunning]
  cases cases with
  | thread performs after =>
    rw [after]
    generalize t.threads = threads at performs
    cases performs with
    | flag => exact .clear _ _ _
    | _ => exact .stay _ _ rfl
  | signal _ performs _ after =>
    rw [after, performs, phase_of_none rfl]
    exact .stay _ _ rfl
  | move top moves after =>
    have placed := stacked.placed
    rw [top] at placed single ⊢
    rw [after]
    exact moves.life quiet placed single

/-- The life a state stands for. -/
structure Lives (s : Proc Dir) (life : Life) : Prop where
  same : life = s.life
  stacked : WellStacked s.stack
  single : Single s.stack

theorem Lives.step {life : Life} (h : Lives s life) (quiet : l.callsRun = false)
    (step : s.step fs l = some (op, t)) : ∃ life', LifeStep life op life' ∧ Lives t life' := by
  obtain ⟨rfl, stacked, single⟩ := h
  exact ⟨t.life, life_of_step stacked single quiet step, rfl, stacked.step step, single.step stacked quiet step⟩

/-- **A run of the process is a life**, as long as nobody calls `run`. -/
theorem life_of_run {life : Life} {ops : List Op} {C : Proc Dir → Label → Prop}
    (quiet : ∀ s l, C s l → l.callsRun = false) (start : Lives s life) (run : (process fs).Run C s ops t) :
    Path LifeStep life ops t.life ∧ Lives t t.life := by
  have sim : ∀ {t op t' life}, Lives t life → (process fs).Steps C t op t' →
      ∃ life', LifeStep life op life' ∧ Lives t' life' :=
    fun lives ⟨l, allowed, step⟩ => lives.step (quiet _ l allowed) step
  obtain ⟨_, path, lives⟩ := Path.simulate (R := (process fs).Steps C) start sim run
  obtain rfl := lives.same
  exact ⟨path, lives⟩

/-! ## The entry of `run` -/

/-- `run(argv)` has just been entered. -/
def Entered (argv : List Bytes) (s : Proc Dir) : Prop := s.stack = [.run argv .guard, .owner .live]

theorem entered_of_call {argv : List Bytes} (live : s.stack = [.owner .live])
    (call : s.step fs (.user (.run argv)) = some (op, t)) : Entered argv t := by
  unfold Proc.step Proc.control at call
  rw [live] at call
  split at call
  · cases call
    rfl
  · cases call

variable {argv : List Bytes}

theorem Entered.lives (h : Entered argv s) : Lives s ⟨.prep, s.world.obj.isRunning⟩ := by
  unfold Entered at h
  refine ⟨?_, ?_, ?_⟩
  · unfold Proc.life
    rw [h]
    rfl
  · rw [h]
    exact ⟨⟨⟨trivial, rfl⟩, ⟨trivial, rfl⟩, trivial⟩, _, _, rfl, rfl⟩
  · rw [h]
    simp [Single, Frame.kind]

end Refinement

/-- `run({})` has just been entered by the owner of a fresh object. -/
def entry : Proc Bytes := { fresh with stack := [.run [] .guard, .owner .live] }

end Daemonpp
