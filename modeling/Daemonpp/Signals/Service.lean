import Daemonpp.Process.Launch
import Daemonpp.Process.Effect
import Daemonpp.Lib.Budget

/-!
# Every signal is served once

A delivered signal puts a frame of `signal_handler` on the stack, and the frame
leaves it only behind what the signal asks for: a SIGTERM behind a complete
`stop()`, a SIGHUP behind the entry of `on_reload` (`stopDue_step`,
`reloadDue_step`). So in every run the deliveries are the services and those still
due (`signals_served`), of which there is at most one for each signal, since a
signal is blocked while its handler runs.
-/

namespace Daemonpp

open Lib (Layered Path)

/-- A handler whose `stop()` is not complete. -/
def Frame.stopDue : Frame → Bool
  | .signalHandler sig .log | .signalHandler sig .switch | .signalHandler sig .stopping => sig != .SIGHUP
  | _ => false

/-- A handler that has not entered `on_reload`. -/
def Frame.reloadDue : Frame → Bool
  | .signalHandler sig .log | .signalHandler sig .switch | .signalHandler sig .configuring
  | .signalHandler sig (.reload _) => sig == .SIGHUP
  | _ => false

def Op.deliversStop : Op → Bool
  | .deliver sig => sig != .SIGHUP
  | _ => false

def Op.deliversReload : Op → Bool
  | .deliver sig => sig == .SIGHUP
  | _ => false

/-- The end of the `stop()` that `signal_handler` calls. -/
def Op.stops : Op → Bool
  | .notifyAll handler => handler
  | _ => false

/-- The call of `on_reload`, which is one of a pure virtual function on a dead object. -/
def Op.reloads : Op → Bool
  | .began cb => cb == .onReload
  | .pureVirtual => true
  | _ => false

theorem Frame.stopDue_resume {g : Frame} (value : Option Dconfig) (other : g.awaits ≠ some .stop) :
    (g.resume value).stopDue = g.stopDue := by
  cases g using Frame.resume_cases with
  | stopped => exact absurd rfl other
  | stays g stays => rw [stays value]
  | _ => rfl

theorem Frame.reloadDue_resume (g : Frame) (value : Option Dconfig) : (g.resume value).reloadDue = g.reloadDue := by
  unfold resume
  split
  all_goals rfl

section Run

variable {Dir File : Type} {fs : PathSpace Dir File} {s t : Proc Dir} {l : Label} {op : Op} {ops : List Op}
variable {w : World Dir} {f : Frame} {rest : List Frame} {move : Move}

/-- A function other than `signal_handler` leaves alone how many handlers meet `p`, unless it returns
to one. -/
theorem countP_move {p : Frame → Bool} (only : ∀ f, p f = true → ∃ sig, f.kind = .signalHandler sig)
    (other : ∀ sig, f.kind ≠ .signalHandler sig) (kinds : move.OfKind l f.kind)
    (returns : ∀ value g below, move = .ret value → rest = g :: below → p (g.resume value) = p g) :
    (move.apply rest).countP p = (f :: rest).countP p := by
  have idle : ∀ {f' : Frame}, (∀ sig, f'.kind ≠ .signalHandler sig) → p f' = false := by
    intro f' not
    by_contra due
    obtain ⟨sig, kind⟩ := only f' (Bool.not_eq_false _ ▸ due)
    exact not sig kind
  rw [List.countP_cons, idle other]
  cases move with
  | goto f' =>
    have idle' : p f' = false := by
      rcases kinds with same | rfl
      · exact idle (same ▸ other)
      · exact idle (by simp [Frame.kind])
    rw [Move.apply, List.countP_cons, idle']
  | call f' g =>
    have idle' : p f' = false := idle (kinds.1 ▸ other)
    have idle'' : p g = false := idle fun sig handler => Calls.not_handler (handler ▸ kinds.2)
    rw [Move.apply, List.countP_cons, List.countP_cons, idle', idle'']
    rfl
  | ret value =>
    cases rest with
    | nil => rfl
    | cons g below =>
      rw [Move.apply, List.countP_cons, List.countP_cons, returns value g below rfl rfl]
      rfl
  | leave => rfl

theorem Frame.handler_of_stopDue {f : Frame} (due : f.stopDue = true) : ∃ sig, f.kind = .signalHandler sig := by
  cases f with
  | signalHandler sig => exact ⟨sig, rfl⟩
  | _ => cases due

theorem Frame.handler_of_reloadDue {f : Frame} (due : f.reloadDue = true) : ∃ sig, f.kind = .signalHandler sig := by
  cases f with
  | signalHandler sig => exact ⟨sig, rfl⟩
  | _ => cases due

/-- What may return to a handler that waits for its `stop()`. -/
theorem Frame.apart_of_sits {f g : Frame} (sits : f.Sits g) (stop : f.kind ≠ .stop true) (exit : f.kind ≠ .exiting) :
    g.awaits ≠ some .stop := by
  cases f with
  | owner => cases sits
  | exiting => exact absurd rfl exit
  | stop handler =>
    cases handler with
    | true => exact absurd rfl stop
    | false => simp [Frame.awaits_of_isUser sits]
  | run => simp [Frame.awaits_of_isUser sits]
  | daemonize | fromFile | callback | signalHandler | lib => rw [show g.awaits = _ from sits]; simp

/-- A `stop()` that a handler calls is due until it notifies. -/
theorem Moves.stopDue (moves : Moves w f l op move)
    (placed : Layered (fun f below => f.Proper ∧ f.On below) (f :: rest)) :
    (f :: rest).countP Frame.stopDue = (move.apply rest).countP Frame.stopDue + op.stops.toNat := by
  obtain ⟨⟨proper, on⟩, below⟩ := placed
  have kept : (∀ sig, f.kind ≠ .signalHandler sig) → f.kind ≠ .stop true → f.kind ≠ .exiting → op.stops = false →
      (f :: rest).countP Frame.stopDue = (move.apply rest).countP Frame.stopDue + op.stops.toNat := by
    intro other stop exit idle
    have same : (move.apply rest).countP Frame.stopDue = (f :: rest).countP Frame.stopDue :=
      countP_move (fun _ => Frame.handler_of_stopDue) other (moves.ofKind proper) fun value g below _ top =>
        Frame.stopDue_resume value (Frame.apart_of_sits (show f.Sits g by rwa [top] at on) stop exit)
    rw [same, idle]
    rfl
  cases moves with
  | signalHandler _ h =>
    cases h with
    | config sighup =>
      subst sighup
      rfl
    | log | stop => simp [Move.apply, List.countP_cons, Frame.stopDue, Op.stops]
    | reload | pure | done | cleanup => simp [Move.apply, Frame.stopDue, Op.stops]
  | @stop handler _ _ _ _ _ h =>
    cases h with
    | exitCode | flag => rfl
    | notify =>
      cases handler with
      | false => exact kept (by simp [Frame.kind]) (by simp [Frame.kind]) (by simp [Frame.kind]) rfl
      | true =>
        cases rest with
        | nil => cases on
        | cons g below' =>
          -- the handler that waits for it
          have waits : g.awaits = some .stop := on
          have proper' := below.1.1
          unfold Frame.awaits at waits
          split at waits
          all_goals cases waits
          simp [Move.apply, List.countP_cons, Frame.stopDue, Op.stops, Frame.resume,
            show _ ≠ Signal.SIGHUP from proper']
  | exiting => rfl
  | user h user =>
    have idle : op.stops = false := by cases h <;> rfl
    cases f with
    | callback | owner =>
      refine kept ?_ ?_ ?_ idle
      all_goals simp [Frame.kind]
    | _ => cases user
  | run _ h | daemonize _ h | fromFile _ h | lib _ h | owner _ h =>
    refine kept ?_ ?_ ?_ (by cases h <;> rfl)
    all_goals simp [Frame.kind]

/-- A reload is due until `on_reload` is entered. -/
theorem Moves.reloadDue (moves : Moves w f l op move) (proper : f.Proper) :
    (f :: rest).countP Frame.reloadDue = (move.apply rest).countP Frame.reloadDue + op.reloads.toNat := by
  have kept : (∀ sig, f.kind ≠ .signalHandler sig) → op.reloads = false →
      (f :: rest).countP Frame.reloadDue = (move.apply rest).countP Frame.reloadDue + op.reloads.toNat := by
    intro other idle
    have same : (move.apply rest).countP Frame.reloadDue = (f :: rest).countP Frame.reloadDue :=
      countP_move (fun _ => Frame.handler_of_reloadDue) other (moves.ofKind proper)
        fun value g _ _ _ => g.reloadDue_resume value
    rw [same, idle]
    rfl
  cases moves with
  | signalHandler _ h =>
    cases h with
    | config sighup => simp [Move.apply, Frame.reloadDue, Op.reloads, sighup]
    | stop other => simp [Move.apply, Frame.reloadDue, Op.reloads, other]
    | log => simp [Move.apply, List.countP_cons, Frame.reloadDue, Op.reloads]
    | reload | pure =>
      obtain rfl := proper
      simp [Move.apply, Frame.reloadDue, Op.reloads]
    | done | cleanup => simp [Move.apply, Frame.reloadDue, Op.reloads]
  | user h user =>
    have idle : op.reloads = false := by cases h <;> rfl
    cases f with
    | callback | owner => exact kept (by simp [Frame.kind]) idle
    | _ => cases user
  | run _ h | daemonize _ h | fromFile _ h | lib _ h | owner _ h | stop _ h =>
    exact kept (by simp [Frame.kind]) (by cases h <;> rfl)
  | exiting => rfl

/-- Only the kernel delivers signals. -/
theorem Moves.not_delivery (moves : Moves w f l op move) (sig : Signal) : op ≠ .deliver sig := by
  cases moves with
  | exiting => simp
  | run _ h | daemonize _ h | stop _ h | signalHandler _ h | fromFile _ h | lib _ h | owner _ h | user h =>
    cases h <;> simp

theorem stopDue_step (stacked : WellStacked s.stack) (step : s.step fs l = some (op, t)) :
    s.stack.countP Frame.stopDue + op.deliversStop.toNat = t.stack.countP Frame.stopDue + op.stops.toNat := by
  obtain ⟨-, -, cases⟩ := step_cases step
  cases cases with
  | thread performs after =>
    rw [after]
    generalize t.threads = threads at performs
    cases performs <;> rfl
  | @signal sig _ performs _ after =>
    rw [performs, after, List.countP_cons]
    cases sig <;> rfl
  | move top moves after =>
    have placed := stacked.placed
    rw [top] at placed ⊢
    have none : op.deliversStop = false := by
      cases op with
      | deliver sig => exact absurd rfl (moves.not_delivery sig)
      | _ => rfl
    rw [after, none, moves.stopDue placed]
    rfl

theorem reloadDue_step (stacked : WellStacked s.stack) (step : s.step fs l = some (op, t)) :
    s.stack.countP Frame.reloadDue + op.deliversReload.toNat =
      t.stack.countP Frame.reloadDue + op.reloads.toNat := by
  obtain ⟨-, -, cases⟩ := step_cases step
  cases cases with
  | thread performs after =>
    rw [after]
    generalize t.threads = threads at performs
    cases performs <;> rfl
  | @signal sig _ performs _ after =>
    rw [performs, after, List.countP_cons]
    cases sig <;> rfl
  | move top moves after =>
    have none : op.deliversReload = false := by
      cases op with
      | deliver sig => exact absurd rfl (moves.not_delivery sig)
      | _ => rfl
    rw [after, none, top, moves.reloadDue (stacked.top top).1]
    rfl

/-! ## One handler for each signal -/

theorem Frame.handles_eq (sig : Signal) (f : Frame) : f.handles sig = (f.kind == .signalHandler sig) := by
  cases f with
  | signalHandler sig' => cases sig <;> cases sig' <;> rfl
  | _ => rfl

/-- No statement adds a handler. -/
theorem Moves.handlers (moves : Moves w f l op move) (proper : f.Proper) (rest : List Frame) (sig : Signal) :
    (move.apply rest).countP (Frame.handles sig) ≤ (f :: rest).countP (Frame.handles sig) := by
  have kinds := moves.ofKind proper
  have same : ∀ {f' : Frame}, f'.kind = f.kind → f'.handles sig = f.handles sig := by
    intro f' same
    rw [Frame.handles_eq, Frame.handles_eq, same]
  cases move with
  | goto f' =>
    rw [Move.apply, List.countP_cons, List.countP_cons]
    rcases kinds with kind | rfl
    · rw [same kind]
    · exact Nat.le_add_right _ _
  | call f' g =>
    have idle : g.handles sig = false := by
      rw [Frame.handles_eq, beq_eq_false_iff_ne]
      intro handler
      exact Calls.not_handler (handler ▸ kinds.2)
    rw [Move.apply, List.countP_cons, List.countP_cons, List.countP_cons, same kinds.1, idle]
    exact Nat.le_refl _
  | ret value =>
    cases rest with
    | nil => exact Nat.zero_le _
    | cons g below =>
      rw [Move.apply, List.countP_cons, List.countP_cons, List.countP_cons, Frame.handles_eq, g.kind_resume value,
        ← Frame.handles_eq]
      exact Nat.le_add_right _ _
  | leave =>
    rw [List.countP_cons]
    exact Nat.le_add_right _ _

/-- A signal is blocked while its handler runs, and SIGKILL has none. -/
structure Handled (s : Proc Dir) : Prop where
  stacked : WellStacked s.stack
  kill : .SIGKILL ∉ s.world.handled
  killed : s.stack.countP (Frame.handles .SIGKILL) = 0
  one : ∀ sig, s.stack.countP (Frame.handles sig) ≤ 1

theorem handled_launch (obj : Object) (pid : Nat) (cwd : Dir) : Handled (Proc.launch obj pid cwd) where
  stacked := stacked_launch obj pid cwd
  kill := nofun
  killed := rfl
  one _ := Nat.zero_le _

theorem Handled.step (h : Handled s) (step : s.step fs l = some (op, t)) : Handled t := by
  obtain ⟨-, world, cases⟩ := step_cases step
  refine ⟨h.stacked.step step, ?_, ?_, ?_⟩
  · rw [world, Op.apply_handled]
    unfold Op.handledAfter
    split
    · rename_i sig
      split
      · exact h.kill
      · rename_i other
        exact fun mem => (List.mem_cons.1 mem).elim (fun same => other same.symm) h.kill
    · exact h.kill
  · cases cases with
    | thread _ after => rw [after, h.killed]
    | @signal sig _ _ ready after =>
      simp only [Proc.deliverable, Bool.and_eq_true, decide_eq_true_eq] at ready
      have other : Frame.handles .SIGKILL (.signalHandler sig .log) = false := by
        cases sig with
        | SIGKILL => exact absurd ready.1 h.kill
        | SIGHUP | SIGTERM => rfl
      rw [after, List.countP_cons, other, h.killed]
      rfl
    | @move f rest move top moves after =>
      have less := moves.handlers (h.stacked.top top).1 rest .SIGKILL
      rw [after]
      rw [← top, h.killed] at less
      exact Nat.le_zero.1 less
  · intro sig'
    cases cases with
    | thread _ after => exact after ▸ h.one sig'
    | @signal sig _ _ ready after =>
      rw [after, List.countP_cons]
      by_cases same : sig' = sig
      · subst same
        have none : s.stack.countP (Frame.handles sig') = 0 := by
          simp only [Proc.deliverable, Bool.and_eq_true, Bool.not_eq_true', List.any_eq_false] at ready
          exact List.countP_eq_zero.2 ready.2
        rw [none]
        split <;> omega
      · have other : Frame.handles sig' (.signalHandler sig .log) = false := beq_eq_false_iff_ne.2 same
        rw [other]
        exact h.one sig'
    | @move f rest move top moves after =>
      have less := moves.handlers (h.stacked.top top).1 rest sig'
      rw [after]
      rw [← top] at less
      exact Nat.le_trans less (h.one sig')

/-- What is due at a signal is due to its handler. -/
theorem Handled.stopDue_le (h : Handled s) : s.stack.countP Frame.stopDue ≤ 1 := by
  refine Nat.le_trans ?_ (h.one .SIGTERM)
  refine List.countP_mono_left fun f mem due => ?_
  have other := List.countP_eq_zero.1 h.killed f mem
  cases f with
  | signalHandler sig pc =>
    cases sig with
    | SIGTERM => rfl
    | SIGKILL => exact absurd rfl other
    | SIGHUP => cases pc <;> cases due
  | _ => cases due

theorem Handled.reloadDue_le (h : Handled s) : s.stack.countP Frame.reloadDue ≤ 1 := by
  refine Nat.le_trans ?_ (h.one .SIGHUP)
  refine List.countP_mono_left fun f mem due => ?_
  cases f with
  | signalHandler sig pc =>
    cases sig with
    | SIGHUP => rfl
    | SIGKILL | SIGTERM => cases pc <;> cases due
  | _ => cases due

/-- **Every signal is served exactly once**: the SIGTERMs delivered are the calls of `stop()` that
handlers have completed and at most one that is due, and the SIGHUPs delivered are the calls of
`on_reload` by handlers and at most one that is due. -/
theorem signals_served {obj : Object} {pid : Nat} {cwd : Dir}
    (run : (process fs).Run (fun _ _ => True) (Proc.launch obj pid cwd) ops s) :
    (ops.countP Op.deliversStop = s.stack.countP Frame.stopDue + ops.countP Op.stops ∧
      s.stack.countP Frame.stopDue ≤ 1) ∧
    (ops.countP Op.deliversReload = s.stack.countP Frame.reloadDue + ops.countP Op.reloads ∧
      s.stack.countP Frame.reloadDue ≤ 1) := by
  have handled : Handled s :=
    run.always (I := Handled) (handled_launch obj pid cwd) fun handled ⟨_, _, step⟩ => handled.step step
  have start : WellStacked (Proc.launch obj pid cwd).stack := stacked_launch obj pid cwd
  have stops : ∀ {s t : Proc Dir} {op : Op}, WellStacked s.stack → (process fs).Steps (fun _ _ => True) s op t →
      WellStacked t.stack ∧ s.stack.countP Frame.stopDue + op.deliversStop.toNat =
        t.stack.countP Frame.stopDue + op.stops.toNat :=
    fun stacked ⟨_, _, step⟩ => ⟨stacked.step step, stopDue_step stacked step⟩
  have reloads : ∀ {s t : Proc Dir} {op : Op}, WellStacked s.stack → (process fs).Steps (fun _ _ => True) s op t →
      WellStacked t.stack ∧ s.stack.countP Frame.reloadDue + op.deliversReload.toNat =
        t.stack.countP Frame.reloadDue + op.reloads.toNat :=
    fun stacked ⟨_, _, step⟩ => ⟨stacked.step step, reloadDue_step stacked step⟩
  have served := Path.balanced (I := fun s => WellStacked s.stack) start stops run
  have reloaded := Path.balanced (I := fun s => WellStacked s.stack) start reloads run
  rw [show (Proc.launch obj pid cwd).stack.countP Frame.stopDue = 0 from rfl, Nat.zero_add] at served
  rw [show (Proc.launch obj pid cwd).stack.countP Frame.reloadDue = 0 from rfl, Nat.zero_add] at reloaded
  exact ⟨⟨served, handled.stopDue_le⟩, reloaded, handled.reloadDue_le⟩

end Run

/-- SIGTERM inside an `on_reload`. -/
def stopInReload : List Label :=
  List.flatten [[.user (.run [])], bootHandlers, bootDone, bootStart, startReturns, handleHup, [.signal .SIGTERM],
    statements 1]

theorem signals_served_stopInReload : ∃ ops s,
    (process lexical).Run (fun _ _ => True) fresh ops s ∧ .deliver .SIGTERM ∈ ops ∧ .began .onReload ∈ ops ∧
      (ops.countP Op.deliversStop = s.stack.countP Frame.stopDue + ops.countP Op.stops ∧
        s.stack.countP Frame.stopDue ≤ 1) ∧
      (ops.countP Op.deliversReload = s.stack.countP Frame.reloadDue + ops.countP Op.reloads ∧
        s.stack.countP Frame.reloadDue ≤ 1) := by
  obtain ⟨ops, s, run, both⟩ := (process lexical).exists_run (C := fun _ _ => True)
    (P := fun ops _ => .deliver .SIGTERM ∈ ops ∧ .began .onReload ∈ ops) stopInReload (s := fresh) rfl
  obtain ⟨delivered, reloads⟩ := of_decide_eq_true both
  exact ⟨ops, s, run, delivered, reloads, signals_served run⟩

end Daemonpp
