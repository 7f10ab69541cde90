import Daemonpp.Lifecycle.Complete
import Daemonpp.Lifecycle.Progress
import Daemonpp.Lib.Budget

/-!
# The end of a stopped daemon

Once the flag is down behind `m_is_running = true` the daemon is winding down, and
every statement it executes brings it closer to its end: `Proc.work` is what the
frames of the main thread have left to do, their callees included. What user code
calls and signals that come in between add a bounded amount to it (`Label.cost`),
so the statements of a run are bounded (`shutdown_bounded`). Left alone, the process
comes to its end, with `on_stop` behind it (`shutdown_completes`): it is never stuck,
and the work runs out.
-/

namespace Daemonpp

open Lib (Path)

/-! ## The work left -/

/-- What `run` has left from a statement on, when it finds the flag down. -/
def RunPc.work : RunPc → Nat
  | .guard => 54
  | .scan => 53
  | .daemonize => 44
  | .daemonizing | .running => 20
  | .config => 19
  | .configuring | .start _ => 11
  | .called .onStart | .started => 9
  | .update => 9
  | .block => 8
  | .called .onUpdate | .lock | .blocked => 7
  | .pred | .timedOut => 6
  | .unlock => 5
  | .loop => 4
  | .stop => 3
  | .called .onStop | .called .onReload | .ret => 1

def DaemonizePc.work : DaemonizePc → Nat
  | .fork => 23
  | .init => 22
  | .setsid => 15
  | .sighup => 14
  | .sigterm => 13
  | .sigkill => 12
  | .chdir => 11
  | .close fd => 2 - fd + 1
  | .exit _ => 2

def HandlerPc.work : HandlerPc → Nat
  | .log => 25
  | .switch => 16
  | .configuring | .reload _ => 8
  | .reloading | .cleanup => 6
  | .stopping | .done => 1

/-- What a function in progress has left to do, with what it calls. -/
def Frame.work : Frame → Nat
  | .owner .live => 9
  | .owner .derivedDtor => 8
  | .owner .dtor => 7
  | .owner .exit => 2
  | .run _ pc => pc.work
  | .daemonize pc => pc.work
  | .stop _ _ .exitCode => 3
  | .stop _ _ .flag => 2
  | .stop _ _ .notify => 1
  | .signalHandler _ pc => pc.work
  | .fromFile (.enter _) => 7
  | .fromFile (.parse _ _ _) => 2
  | .fromFile (.close _ _) => 1
  | .callback _ _ => 1
  | .lib calls false => 2 * calls.length + 2
  | .lib calls true => 2 * calls.length + 1
  | .exiting => 1

def workOf (stack : List Frame) : Nat := (stack.map Frame.work).sum

@[simp] theorem workOf_cons (f : Frame) (rest : List Frame) : workOf (f :: rest) = f.work + workOf rest := by
  simp [workOf]

/-- What the main thread has left to do. -/
def Proc.work {Dir : Type} (s : Proc Dir) : Nat :=
  if s.world.status = .alive then workOf s.stack else 0

/-- What a signal or a call by user code adds to the work. -/
def Label.cost : Label → Nat
  | .signal _ => 25
  | .user (.stop _) => 3
  | .user (.run _) => 54
  | .user (.setCwd _ ok) => if ok then 4 else 8
  | .user (.setName _) => 4
  | .user (.lib calls) => 2 * calls.length + 2
  | _ => 0

/-- Behind a call there is not more to do than while waiting for it. -/
theorem Frame.work_resume (f : Frame) (value : Option Dconfig) : (f.resume value).work ≤ f.work := by
  unfold Frame.resume
  split
  all_goals exact Nat.le_refl _

section Moves

variable {Dir : Type} {w : World Dir} {f : Frame} {rest : List Frame} {l : Label} {op : Op} {move : Move}

theorem workOf_ret (value : Option Dconfig) (rest : List Frame) :
    workOf (Move.apply rest (.ret value)) ≤ workOf rest := by
  cases rest with
  | nil => exact Nat.le_refl _
  | cons g below =>
    have less := g.work_resume value
    simp only [Move.apply, workOf_cons]
    omega

theorem RunMove.uses {argv : List Bytes} {pc : RunPc} (h : RunMove w argv pc op move)
    (down : w.obj.isRunning = false) : workOf (move.apply rest) < pc.work + workOf rest := by
  cases h with
  | again up | sleep up =>
    rw [down] at up
    cases up
  | ret => exact Nat.lt_add_of_pos_left Nat.one_pos
  | _ =>
    simp only [Move.apply, workOf_cons, Frame.work, RunPc.work, DaemonizePc.work, logCalls, List.length]
    omega

theorem DaemonizeMove.uses {pc : DaemonizePc} (h : DaemonizeMove w pc op move) :
    workOf (move.apply rest) < pc.work + workOf rest := by
  cases h with
  | closeLast fd =>
    have less := workOf_ret none rest
    simp only [DaemonizePc.work]
    omega
  | _ =>
    simp only [Move.apply, workOf_cons, Frame.work, DaemonizePc.work, logCalls, List.length]
    omega

theorem StopMove.uses {handler : Bool} {code : Int} {pc : StopPc} (h : StopMove handler code pc op move) :
    workOf (move.apply rest) < (Frame.stop handler code pc).work + workOf rest := by
  cases h with
  | notify =>
    have less := workOf_ret none rest
    simp only [Frame.work]
    omega
  | _ =>
    simp only [Move.apply, workOf_cons, Frame.work]
    omega

theorem HandlerMove.uses {sig : Signal} {pc : HandlerPc} (h : HandlerMove w sig pc op move) :
    workOf (move.apply rest) < pc.work + workOf rest := by
  cases h with
  | done => exact Nat.lt_add_of_pos_left Nat.one_pos
  | _ =>
    simp only [Move.apply, workOf_cons, Frame.work, HandlerPc.work, logCalls, List.length]
    omega

theorem FromFileMove.uses {pc : FromFilePc} (h : FromFileMove w pc op move) :
    workOf (move.apply rest) < (Frame.fromFile pc).work + workOf rest := by
  cases h with
  | empty =>
    have less := workOf_ret (some {}) rest
    simp only [Frame.work]
    omega
  | close cfg =>
    have less := workOf_ret (some cfg) rest
    simp only [Frame.work]
    omega
  | _ =>
    simp only [Move.apply, workOf_cons, Frame.work, List.length]
    omega

theorem LibMove.uses {calls : List LibCall} {inside : Bool} (h : LibMove w calls inside op move) :
    workOf (move.apply rest) < (Frame.lib calls inside).work + workOf rest := by
  cases h with
  | nil => cases inside <;> simp [Move.apply, Frame.work]
  | _ =>
    simp only [Move.apply, workOf_cons, Frame.work, List.length]
    omega

theorem OwnerMove.uses {pc : OwnerPc} (h : OwnerMove w pc op move) :
    workOf (move.apply rest) < (Frame.owner pc).work + workOf rest := by
  cases h
  all_goals
    simp only [Move.apply, workOf_cons, Frame.work, List.length]
    omega

/-- What user code calls is paid for. -/
theorem ActMove.uses {a : Act} (h : ActMove w f a op move) :
    workOf (move.apply rest) + (Label.user a).own.toNat ≤ f.work + workOf rest + (Label.user a).cost := by
  cases h with
  | ret cb arg callback =>
    subst callback
    have less := workOf_ret none rest
    simp only [Frame.work, Label.own, Label.cost, Bool.toNat_true]
    omega
  | destroy live =>
    subst live
    simp only [Move.apply, workOf_cons, Frame.work, Label.own, Label.cost, Bool.toNat_true]
    omega
  | stop | run | setCwd | noSetCwd | setName | lib =>
    simp [Move.apply, Frame.work, RunPc.work, Label.own, Label.cost, logCalls]
    omega
  | _ => exact Nat.le_refl _

/-- **A statement uses up work** when the flag is down. -/
theorem Moves.uses (h : Moves w f l op move) (down : w.obj.isRunning = false) (goes : op ≠ .terminate) :
    workOf (move.apply rest) + l.own.toNat ≤ workOf (f :: rest) + l.cost := by
  rw [workOf_cons]
  cases h with
  | run _ h => exact h.uses down
  | daemonize _ h => exact h.uses
  | stop _ h => exact h.uses
  | signalHandler _ h => exact h.uses
  | fromFile _ h => exact h.uses
  | lib _ h => exact h.uses
  | owner _ h => exact h.uses
  | exiting => exact absurd rfl goes
  | user h => exact h.uses

end Moves

/-! ## Winding down -/

/-- `run` has not yet executed `m_is_running = true`. -/
def RunPc.unset : RunPc → Bool
  | .guard | .scan | .daemonize | .daemonizing | .running => true
  | _ => false

theorem RunPc.unset_resume {argv argv' : List Bytes} {pc pc' : RunPc} {value : Option Dconfig}
    (h : (Frame.run argv pc).resume value = .run argv' pc') (past : pc.unset = false) : pc'.unset = false := by
  cases pc with
  | daemonizing => cases past
  | called cb =>
    cases cb <;> cases h <;> rfl
  | _ =>
    cases h
    exact past

/-- The process is past the statement that sets the flag. -/
def Past {Dir : Type} (s : Proc Dir) : Prop := ∀ argv pc, .run argv pc ∈ s.stack → pc.unset = false

/-- The flag is down, and no call of `run` will set it. -/
structure Winding {Dir : Type} (s : Proc Dir) : Prop where
  down : s.world.obj.isRunning = false
  past : Past s

section Run

variable {Dir File : Type} {fs : PathSpace Dir File} {s₀ s t : Proc Dir} {l : Label} {op : Op} {ops : List Op}
variable {argv : List Bytes}

theorem Past.step (h : Past s) (quiet : l.callsRun = false) (step : s.step fs l = some (op, t)) : Past t := by
  let p (f : Frame) : Prop := ∀ argv pc, f = .run argv pc → pc.unset = false
  have here : ∀ f ∈ s.stack, p f := fun f mem _ _ same => h _ _ (same ▸ mem)
  suffices all : ∀ f ∈ t.stack, p f from fun argv pc mem => all _ mem argv pc rfl
  refine frames_step step here ?_ (fun _ _ _ => nofun)
  intro f rest move top moves known
  have resumed : ∀ value, Move.Keeps (fun f _ => p f) rest (.ret value) := by
    intro value g below same known argv pc resumes
    obtain ⟨pc', rfl⟩ := Frame.run_of_resume resumes
    exact RunPc.unset_resume resumes (known _ _ rfl)
  have other : ∀ {f' : Frame}, f'.kind ≠ .run → p f' := fun other _ _ same => absurd (same ▸ rfl) other
  cases moves with
  | run _ h =>
    have past := known _ _ rfl
    cases h with
    | refuse | found | missing | daemonize => cases past
    | guard | absent | running => cases past
    | ret => trivial
    | config | start | started | update | stop =>
      refine ⟨?_, other nofun⟩
      rintro _ _ ⟨⟩
      rfl
    | _ =>
      rintro _ _ ⟨⟩
      rfl
  | user h user =>
    cases h with
    | ret => exact resumed _
    | destroy => exact other nofun
    | run => cases quiet
    | stop | setCwd | noSetCwd | setName | lib => exact ⟨known, other nofun⟩
    | _ => exact known
  | exiting => exact other nofun
  | stop _ h | daemonize _ h | signalHandler _ h | fromFile _ h | lib _ h | owner _ h =>
    cases h
    all_goals first | exact resumed _ | exact other nofun | exact ⟨other nofun, other nofun⟩ | trivial

theorem Winding.step (h : Winding s) (quiet : l.callsRun = false) (step : s.step fs l = some (op, t)) :
    Winding t := by
  refine ⟨?_, h.past.step quiet step⟩
  obtain ⟨-, world, -⟩ := step_cases step
  rw [world, Op.apply_isRunning]
  unfold Op.isRunning
  split
  · -- a call of `run` that sets the flag has not set it before
    obtain ⟨argv, rest, top, -⟩ := setRunning_step step
    cases h.past _ _ (top ▸ List.mem_cons_self)
  · rfl
  · exact h.down

/-- What a step does to the work left, with the flag down. -/
theorem work_step (down : s.world.obj.isRunning = false) (step : s.step fs l = some (op, t)) :
    t.work + l.own.toNat ≤ s.work + l.cost := by
  obtain ⟨alive, world, cases⟩ := step_cases step
  have before : s.work = workOf s.stack := if_pos alive
  have behind : t.work ≤ workOf t.stack := by
    unfold Proc.work
    split
    · exact Nat.le_refl _
    · exact Nat.zero_le _
  cases cases with
  | thread _ after label =>
    rw [after] at behind
    have idle : l.own = false := by
      rcases label with ⟨code, rfl⟩ | ⟨i, rfl⟩
      · rfl
      · rfl
    rw [idle, Bool.toNat_false]
    omega
  | signal label _ _ after =>
    subst label
    rw [after, workOf_cons] at behind
    simp only [Label.own, Label.cost, Frame.work, HandlerPc.work, Bool.toNat_false] at behind ⊢
    omega
  | @move f rest move top moves after =>
    by_cases ends : op = .terminate
    · subst ends
      have finished : t.work = 0 := by
        unfold Proc.work
        rw [world]
        rfl
      rw [before, top, finished]
      cases moves with
      | exiting =>
        simp only [workOf_cons, Frame.work, Label.own, Label.cost, Bool.toNat_true]
        omega
      | run _ h | daemonize _ h | stop _ h | signalHandler _ h | fromFile _ h | lib _ h | owner _ h | user h => cases h
    · have uses : workOf (move.apply rest) + l.own.toNat ≤ workOf (f :: rest) + l.cost := moves.uses down ends
      rw [before, top]
      rw [after] at behind
      omega

/-- What the process does by itself calls no `run`, is no signal and costs nothing. -/
theorem Label.own_cases (own : l.own = true) : l.callsRun = false ∧ l.cost = 0 ∧ Orderly s l = true := by
  unfold Label.own at own
  split at own
  · exact ⟨rfl, rfl, rfl⟩
  · exact ⟨rfl, rfl, rfl⟩
  · exact ⟨rfl, rfl, rfl⟩
  · cases own

/-- Winding down, and free to go on. -/
structure Alone (s : Proc Dir) : Prop where
  winding : Winding s
  free : Free s

theorem Alone.step (h : Alone s) (own : l.own = true) (step : s.step fs l = some (op, t)) :
    Alone t ∧ t.work < s.work := by
  obtain ⟨quiet, cost, orderly⟩ := Label.own_cases (s := s) own
  have less := work_step h.winding.down step
  rw [own, cost, Bool.toNat_true] at less
  exact ⟨⟨h.winding.step quiet step, h.free.step orderly step⟩, less⟩

theorem Alone.run (h : Alone s) (run : (process fs).Run (fun _ l => l.own = true) s ops t) :
    Alone t ∧ t.work + ops.length ≤ s.work := by
  refine run.invariant (I := fun ops t => Alone t ∧ t.work + ops.length ≤ s.work) ⟨h, Nat.le_refl _⟩ ?_
  rintro ops u op t - ⟨alone, less⟩ ⟨l, own, step⟩
  obtain ⟨alone', less'⟩ := alone.step own step
  refine ⟨alone', ?_⟩
  rw [List.length_append, List.length_singleton]
  omega

end Run

end Daemonpp
