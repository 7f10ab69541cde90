import Daemonpp.Process.Launch

/-!
# Overlapping callbacks

`signal_handler` calls `on_reload` from wherever SIGHUP interrupts the main
thread, also from the middle of another callback (`reload_overlaps`). As long as
SIGHUP stays out of the callbacks of the main thread, and no callback gets a
call of `run` past its test of `m_is_running`, at most one callback is active
(`callbacks_apart`): the invariant is that only `Quiet` frames, which call no
callback, stand above an active one.
-/

namespace Daemonpp

open Lib (Layered)

def Kind.isCallback : Kind → Bool
  | .callback _ => true
  | _ => false

/-- The callbacks that `run` calls. -/
def Kind.isMainCallback : Kind → Bool
  | .callback cb => cb != .onReload
  | _ => false

/-- The number of callbacks that have begun and not returned. -/
def active (stack : List Frame) : Nat := stack.countP fun f => f.kind.isCallback

/-- The next statement is a test of `m_is_running` that lets a callback's call of
`run` pass. -/
def Proc.reenters {Dir : Type} (s : Proc Dir) : Bool :=
  match s.stack with
  | .run _ .guard :: rest => !s.world.obj.isRunning && rest.any fun f => f.kind.isCallback
  | _ => false

/-- SIGHUP comes in no callback of the main thread, and no callback gets into `run`. -/
def outsideCallbacks {Dir : Type} (s : Proc Dir) : Label → Bool
  | .signal .SIGHUP => s.stack.all fun f => !f.kind.isMainCallback
  | .main _ => !s.reenters
  | _ => true

/-- A frame that leads to no callback: a library call, a `stop`, a handler of
SIGTERM, or a call of `run` that is refused. -/
def Frame.Quiet : Frame → Prop
  | .callback _ _ | .fromFile _ | .daemonize _ => False
  | .signalHandler sig _ => sig ≠ .SIGHUP
  | .run _ pc => pc = .guard ∨ pc = .ret
  | .owner _ | .stop _ _ _ | .lib _ _ | .exiting => True

/-- Either the frame leads to no callback or no callback is active below it. -/
def Placed (f : Frame) (below : List Frame) : Prop := f.Quiet ∨ ∀ g ∈ below, g.kind.isCallback = false

theorem Placed.push {f g : Frame} {below : List Frame} (free : ∀ h ∈ below, h.kind.isCallback = false)
    (other : f.kind.isCallback = false) : Placed f below ∧ Placed g (f :: below) :=
  ⟨.inr free, .inr (List.forall_mem_cons.2 ⟨other, free⟩)⟩

theorem Frame.Quiet.resume {f : Frame} (value : Option Dconfig) (h : f.Quiet) : (f.resume value).Quiet := by
  unfold Frame.resume
  split
  all_goals first | exact h | exact .inr rfl | exact h.elim nofun nofun

section Run

variable {Dir File : Type} {fs : PathSpace Dir File} {s t : Proc Dir} {l : Label} {op : Op}

/-- An active `on_reload` was called by a handler of SIGHUP, which still runs. -/
theorem handles_of_reload {stack : List Frame} (stacked : WellStacked stack)
    (reload : ∃ f ∈ stack, f.kind = .callback .onReload) : stack.any (Frame.handles .SIGHUP) = true := by
  obtain ⟨f, mem, kind⟩ := reload
  obtain ⟨above, below, same, -, on⟩ := stacked.placed.of_mem mem
  cases f with
  | callback cb arg =>
    cases kind
    cases below with
    | nil => cases on
    | cons g below =>
      have inside : g ∈ stack := by simp [same]
      obtain ⟨_, _, _, proper, -⟩ := stacked.placed.of_mem inside
      rcases Frame.awaits_callback on with ⟨argv, rfl⟩ | ⟨sig, rfl, -⟩
      · exact absurd rfl proper
      · exact List.any_eq_true.2 ⟨_, inside, beq_iff_eq.2 (Eq.symm proper)⟩
  | _ => cases kind

/-- A statement keeps the frames placed, unless it gets into `run` inside a callback. -/
theorem Moves.placed {w : World Dir} {f : Frame} {move : Move} {rest : List Frame} (moves : Moves w f l op move)
    (proper : f.Proper)
    (apart : ∀ argv, f = .run argv .guard → w.obj.isRunning = false → ∀ g ∈ rest, g.kind.isCallback = false)
    (placed : Placed f rest) : move.Keeps Placed rest := by
  have resumed : ∀ value, Move.Keeps Placed rest (.ret value) := by
    intro value g below _ placed
    exact placed.imp (fun quiet => quiet.resume value) id
  cases moves with
  | run _ h =>
    cases h with
    | refuse => exact ⟨.inl (.inr rfl), .inl trivial⟩
    | guard down => exact .inr (apart _ rfl down)
    | ret => trivial
    | found | missing | daemonize | config | start | started | update | stop =>
      exact Placed.push (placed.resolve_left (by simp [Frame.Quiet])) rfl
    | _ => exact .inr (placed.resolve_left (by simp [Frame.Quiet]))
  | daemonize _ h =>
    have free := placed.resolve_left id
    cases h with
    | closeLast => exact resumed _
    | init | noSetsid | noChdir => exact Placed.push free rfl
    | _ => exact .inr free
  | fromFile _ h =>
    have free := placed.resolve_left id
    cases h with
    | empty | close => exact resumed _
    | «open» => exact Placed.push free rfl
    | _ => exact .inr free
  | signalHandler _ h =>
    rcases placed with other | free
    · cases h with
      | config sighup => exact absurd sighup other
      | reload => exact absurd proper other
      | log | stop | cleanup => exact ⟨.inl other, .inl trivial⟩
      | pure => exact .inl trivial
      | done => trivial
    · cases h with
      | pure => exact .inr free
      | done => trivial
      | _ => exact Placed.push free rfl
  | stop _ h =>
    cases h with
    | notify => exact resumed _
    | _ => exact .inl trivial
  | lib _ h =>
    cases h with
    | nil => trivial
    | _ => exact .inl trivial
  | owner _ h =>
    cases h with
    | dtor => exact ⟨.inl trivial, .inl trivial⟩
    | _ => exact .inl trivial
  | exiting => exact .inl trivial
  | user h _ =>
    cases h with
    | ret => exact resumed _
    | destroy => exact .inl trivial
    | stop | setCwd | noSetCwd | setName | lib => exact ⟨placed, .inl trivial⟩
    | run => exact ⟨placed, .inl (.inl rfl)⟩
    | _ => exact placed

theorem placed_step (stacked : WellStacked s.stack) (h : Layered Placed s.stack)
    (outside : outsideCallbacks s l = true) (step : s.step fs l = some (op, t)) : Layered Placed t.stack := by
  refine layered_step step h ?_ ?_
  · intro f rest move top moves placed
    refine moves.placed (stacked.top top).1 ?_ placed
    rintro argv rfl down g mem
    cases moves with
    | user _ user => cases user
    | run _ h =>
      simp only [outsideCallbacks, Proc.reenters, top, down, Bool.not_false, Bool.true_and,
        Bool.not_eq_true', List.any_eq_false] at outside
      exact Bool.not_eq_true _ ▸ outside g mem
  · rintro sig rfl ready
    cases sig with
    | SIGTERM | SIGKILL => exact .inl nofun
    | SIGHUP =>
      refine .inr fun f mem => ?_
      have main := List.all_eq_true.1 outside f mem
      unfold Proc.deliverable at ready
      rw [Bool.and_eq_true, Bool.not_eq_true'] at ready
      have reload : f.kind ≠ .callback .onReload := by
        intro kind
        have handling := handles_of_reload stacked ⟨f, mem, kind⟩
        rw [ready.2] at handling
        cases handling
      cases kind : f.kind with
      | callback cb => simp_all [Kind.isMainCallback]
      | _ => rfl

theorem active_le_one {stack : List Frame} (h : Layered Placed stack) : active stack ≤ 1 := by
  induction stack with
  | nil => exact Nat.zero_le _
  | cons f below ih =>
    unfold active
    rw [List.countP_cons]
    split
    · rename_i callback
      have free : ∀ g ∈ below, g.kind.isCallback = false := by
        refine h.1.resolve_left fun quiet => ?_
        cases f with
        | callback => exact quiet
        | _ => cases callback
      have none : below.countP (fun f => f.kind.isCallback) = 0 := by
        rw [List.countP_eq_zero]
        exact fun g mem => by simp [free g mem]
      omega
    · exact ih h.2

/-- **At most one callback is active** in every state, as long as SIGHUP comes in no
callback of the main thread and no callback gets into `run`. -/
theorem callbacks_apart {obj : Object} {pid : Nat} {cwd : Dir} {ops : List Op}
    (run : (process fs).Run (fun s l => outsideCallbacks s l = true) (Proc.launch obj pid cwd) ops t) :
    active t.stack ≤ 1 := by
  have start : Layered Placed (Proc.launch obj pid cwd).stack := ⟨.inl trivial, trivial⟩
  refine active_le_one (run.always (I := fun t => WellStacked t.stack ∧ Layered Placed t.stack)
    ⟨stacked_launch obj pid cwd, start⟩ ?_).2
  rintro s op t ⟨stacked, placed⟩ ⟨l, outside, step⟩
  exact ⟨stacked.step step, placed_step stacked placed outside step⟩

end Run

/-- A reload while `run` waits between two updates. -/
def reloadWhileWaiting : List Label :=
  List.flatten [[.user (.run [])], bootHandlers, bootDone, bootStart, startReturns, statements 2, [.user .ret],
    statements 3, handleHup]

theorem callbacks_apart_reload : ∃ ops t, (process lexical).Run (fun s l => outsideCallbacks s l = true) fresh ops t ∧
    .began .onReload ∈ ops ∧ active t.stack ≤ 1 := by
  obtain ⟨ops, t, run, reloaded⟩ := (process lexical).exists_run (C := fun s l => outsideCallbacks s l = true)
    (P := fun ops _ => .began .onReload ∈ ops) reloadWhileWaiting (s := fresh) rfl
  exact ⟨ops, t, run, of_decide_eq_true reloaded, callbacks_apart run⟩

/-- A reload in the middle of `on_start`. -/
def reloadInStart : List Label :=
  List.flatten [[.user (.run [])], bootHandlers, bootDone, bootStart, handleHup]

/-- **SIGHUP in a callback overlaps it** with `on_reload`. -/
theorem reload_overlaps : ∃ ops t, (process lexical).Run (fun _ _ => True) fresh ops t ∧ ¬ active t.stack ≤ 1 := by
  obtain ⟨ops, t, run, two⟩ := (process lexical).exists_run (C := fun _ _ => True)
    (P := fun _ t => active t.stack = 2) reloadInStart (s := fresh) rfl
  have both := of_decide_eq_true two
  exact ⟨ops, t, run, by omega⟩

end Daemonpp
