import Daemonpp.Signals.Service

/-!
# How deep the stack gets

`signal_handler` runs on the stack of the main thread, on top of whatever it has
interrupted. A signal is blocked while its handler runs and the functions of the
source call each other in one direction only, so the depth is bounded: as long as
`run` is called by the owner of the object alone, there are never more than nine
frames (`depth_le`), and nine there can be (`depth_reached`). The calls of `dlog` and
of the heap are one frame together, however deep they go.
-/

namespace Daemonpp

open Lib (Layered)

/-- How far a function is from the bottom of the calls it takes part in. -/
def Kind.height : Kind → Nat
  | .owner => 0
  | .run | .signalHandler .SIGHUP => 1
  | .daemonize | .fromFile | .callback _ | .signalHandler _ => 2
  | .stop _ | .lib | .exiting => 3

/-- What the handlers of a stack may add to its depth. -/
def room (stack : List Frame) : Nat :=
  3 * stack.countP (Frame.handles .SIGHUP) + 2 * stack.countP (Frame.handles .SIGTERM)

/-- The frame is no deeper than its function and the handlers allow. -/
def Frame.Shallow (f : Frame) (below : List Frame) : Prop := below.length ≤ f.kind.height + room (f :: below)

/-- `run` is called by the owner of the object only. -/
def ownerRuns {Dir : Type} (s : Proc Dir) (l : Label) : Bool :=
  !l.callsRun || s.stack.all fun f => f.kind == .owner

section Run

variable {Dir File : Type} {fs : PathSpace Dir File} {s t : Proc Dir} {l : Label} {op : Op} {ops : List Op}

theorem room_cons_of_kind {f f' : Frame} (same : f'.kind = f.kind) (rest : List Frame) :
    room (f' :: rest) = room (f :: rest) := by
  unfold room
  simp only [List.countP_cons, Frame.handles_eq, same]

theorem room_cons_le (f : Frame) (rest : List Frame) : room rest ≤ room (f :: rest) := by
  unfold room
  simp only [List.countP_cons]
  omega

/-- A function that is no handler adds no room. -/
theorem room_cons {f : Frame} (other : ∀ sig, f.kind ≠ .signalHandler sig) (rest : List Frame) :
    room (f :: rest) = room rest := by
  unfold room
  simp [Frame.handles_eq, other]

/-- A frame goes on, or returns to, a statement of its own function. -/
theorem Frame.Shallow.stays {f f' : Frame} {rest : List Frame} (same : f'.kind = f.kind) (h : f.Shallow rest) :
    f'.Shallow rest := by
  unfold Frame.Shallow at *
  rwa [same, room_cons_of_kind same]

/-- A callee is one deeper than its caller. -/
theorem Frame.Shallow.call {f f' g : Frame} {rest : List Frame} (same : f'.kind = f.kind) (h : f.Shallow rest)
    (higher : f.kind.height < g.kind.height) : f'.Shallow rest ∧ g.Shallow (f' :: rest) := by
  refine ⟨h.stays same, ?_⟩
  unfold Frame.Shallow at *
  have more := room_cons_le g (f' :: rest)
  rw [room_cons_of_kind same] at more
  rw [List.length_cons]
  omega

/-- `std::exit` takes the place of a function. -/
theorem Frame.Shallow.exit {f : Frame} {rest : List Frame} (other : ∀ sig, f.kind ≠ .signalHandler sig)
    (h : f.Shallow rest) : Frame.exiting.Shallow rest := by
  have low : f.kind.height ≤ 3 := by
    unfold Kind.height
    split <;> omega
  unfold Frame.Shallow at *
  rw [room_cons other] at h
  rw [room_cons (by simp [Frame.kind])]
  exact Nat.le_trans h (Nat.add_le_add_right low _)

/-- Every statement keeps the frames shallow, unless it ends the process. -/
theorem Moves.shallow {w : World Dir} {f : Frame} {rest : List Frame} {move : Move} (moves : Moves w f l op move)
    (proper : f.Proper) (owner : l.callsRun = true → f.kind = .owner) (alive : op ≠ .pureVirtual)
    (h : f.Shallow rest) : move.Keeps Frame.Shallow rest := by
  have resumed : ∀ value, Move.Keeps Frame.Shallow rest (.ret value) :=
    fun value g below _ shallow => shallow.stays (g.kind_resume value)
  cases moves with
  | run _ h' =>
    cases h' with
    | ret => trivial
    | refuse | found | missing | daemonize | config | start | started | update | stop =>
      exact h.call rfl (by simp [Frame.kind, Kind.height])
    | _ => exact h.stays rfl
  | daemonize _ h' =>
    cases h' with
    | closeLast => exact resumed _
    | init | noSetsid | noChdir => exact h.call rfl (by simp [Frame.kind, Kind.height])
    | exit => exact h.exit (by simp [Frame.kind])
    | _ => exact h.stays rfl
  | stop _ h' =>
    cases h' with
    | notify => exact resumed _
    | _ => exact h.stays rfl
  | @signalHandler sig _ _ _ _ h' =>
    cases h' with
    | log | cleanup | stop => exact h.call rfl (by cases sig <;> simp [Frame.kind, Kind.height])
    | config sighup =>
      subst sighup
      exact h.call rfl (by simp [Frame.kind, Kind.height])
    | reload =>
      obtain rfl := proper
      exact h.call rfl (by simp [Frame.kind, Kind.height])
    | pure => exact absurd rfl alive
    | done => trivial
  | fromFile _ h' =>
    cases h' with
    | empty | close => exact resumed _
    | «open» => exact h.call rfl (by simp [Frame.kind, Kind.height])
    | parse => exact h.stays rfl
    | outOfRange => exact h.exit (by simp [Frame.kind])
  | lib _ h' =>
    cases h' with
    | nil => trivial
    | _ => exact h.stays rfl
  | owner _ h' =>
    cases h' with
    | derivedDtor => exact h.stays rfl
    | dtor => exact h.call rfl (by simp [Frame.kind, Kind.height])
    | exit => exact h.exit (by simp [Frame.kind])
  | exiting => exact h.stays rfl
  | user h' user =>
    have low : f.kind.height < 3 := by
      cases f with
      | callback | owner => simp [Frame.kind, Kind.height]
      | _ => cases user
    cases h' with
    | ret => exact resumed _
    | destroy live => exact h.stays (live ▸ rfl)
    | run => exact h.call rfl (by rw [owner rfl]; simp [Frame.kind, Kind.height])
    | stop | setCwd | noSetCwd | setName | lib => exact h.call rfl low
    | _ => exact h.stays rfl

/-- Until the process ends, every frame of its stack is shallow. -/
structure Bounded (s : Proc Dir) : Prop where
  handled : Handled s
  shallow : s.world.status = .alive → Layered Frame.Shallow s.stack

/-- The innermost frame is the deepest. -/
theorem length_le {stack : List Frame} (shallow : Layered Frame.Shallow stack) : stack.length ≤ 4 + room stack := by
  cases stack with
  | nil => exact Nat.zero_le _
  | cons f below =>
    have here := shallow.1
    have low : f.kind.height ≤ 3 := by
      unfold Kind.height
      split <;> omega
    unfold Frame.Shallow at here
    rw [List.length_cons]
    omega

/-- A handler adds the room it needs. -/
theorem shallow_handler {sig : Signal} {stack : List Frame} (other : sig ≠ .SIGKILL)
    (shallow : Layered Frame.Shallow stack) : (Frame.signalHandler sig .log).Shallow stack := by
  have deep := length_le shallow
  unfold Frame.Shallow room at *
  rw [List.countP_cons, List.countP_cons]
  cases sig with
  | SIGKILL => exact absurd rfl other
  | SIGHUP | SIGTERM =>
    simp only [Frame.kind, Kind.height, Frame.handles_eq, beq_self_eq_true, if_true] at deep ⊢
    simp
    omega

theorem Bounded.step (h : Bounded s) (owner : ownerRuns s l = true) (step : s.step fs l = some (op, t)) :
    Bounded t := by
  refine ⟨h.handled.step step, fun running => ?_⟩
  obtain ⟨alive, world, -⟩ := step_cases step
  have shallow := h.shallow alive
  refine layered_step step shallow ?_ ?_
  · intro f rest move top moves here
    refine moves.shallow (h.handled.stacked.top top).1 ?_ ?_ here
    · intro calls
      simp only [ownerRuns, calls, Bool.not_true, Bool.false_or, List.all_eq_true, top] at owner
      exact eq_of_beq (owner f List.mem_cons_self)
    · rintro rfl
      rw [world] at running
      cases running
  · intro sig _ ready
    simp only [Proc.deliverable, Bool.and_eq_true, decide_eq_true_eq] at ready
    exact shallow_handler (fun same => h.handled.kill (same ▸ ready.1)) shallow

end Run

end Daemonpp
