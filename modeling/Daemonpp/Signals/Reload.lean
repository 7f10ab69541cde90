import Daemonpp.Process.Effect
import Daemonpp.Process.Launch

/-!
# Reloads and the life of the daemon

`signal_handler` is installed before `on_start` and stays installed for as long
as the process lives, so SIGHUP reaches `on_reload` before the daemon has been
started, after `on_stop`, and while the object is destroyed
(`reloads_not_live`). As long as SIGHUP comes while a call of
`run` is in service, each reload does, and none reaches the base class
(`reloads_live`). The invariant `Served` counts the calls in service along the
run and keeps everything that could reload off the stack of a dying object.
-/

namespace Daemonpp

open Lib (Layered)

/-- Where a call of `run` is in service: `on_start` has begun, `on_stop` has not returned. -/
def RunPc.inService : RunPc → Bool
  | .guard | .scan | .daemonize | .daemonizing | .running | .config | .configuring | .start _ => false
  | .called .onReload | .ret => false
  | _ => true

def Frame.inService : Frame → Bool
  | .run _ pc => pc.inService
  | _ => false

/-- The calls of `run` in service. -/
def service (stack : List Frame) : Nat := stack.countP Frame.inService

/-- SIGHUP comes while a call of `run` is in service. -/
def reloadInService {Dir : Type} (s : Proc Dir) : Label → Bool
  | .signal .SIGHUP => s.stack.any Frame.inService
  | _ => true

/-- Each `on_reload` begins behind an `on_start` whose `on_stop` has not returned and
ahead of the object's destruction, and none reaches the base class. -/
structure ReloadsLive (ops : List Op) : Prop where
  within : ∀ before after, ops = before ++ .began .onReload :: after →
    before.count (.returned .onStop) < before.count (.began .onStart) ∧ .destroy ∉ before
  derived : .pureVirtual ∉ ops

/-- The frames that may stand above a dying object: no user code, no `run` and no reload. -/
def Frame.Inert : Frame → Prop
  | .run _ _ | .callback _ _ => False
  | .signalHandler sig _ => sig ≠ .SIGHUP
  | .owner pc => pc ≠ .live
  | .daemonize _ | .stop _ _ _ | .fromFile _ | .lib _ _ | .exiting => True

theorem Frame.Inert.not_user {f : Frame} (h : f.Inert) : f.isUser = false := by
  unfold Frame.isUser
  split
  · exact h.elim
  · exact absurd rfl h
  · rfl

theorem Frame.Inert.not_inService {f : Frame} (h : f.Inert) : f.inService = false := by
  cases f with
  | run => exact h.elim
  | _ => rfl

theorem Frame.Inert.resume {f : Frame} (value : Option Dconfig) (h : f.Inert) : (f.resume value).Inert := by
  unfold Frame.resume
  split
  all_goals exact h

section Step

variable {Dir File : Type} {fs : PathSpace Dir File} {s t : Proc Dir} {l : Label} {op : Op}

/-! ## The calls in service -/

/-- Only the return of `on_stop` ends the service of a caller. -/
theorem inService_resume {g : Frame} (value : Option Dconfig) (other : g.awaits ≠ some (.callback .onStop)) :
    (g.resume value).inService = g.inService := by
  cases g using Frame.resume_cases with
  | onStop => exact absurd rfl other
  | stays g stays => rw [stays value]
  | _ => rfl

theorem service_cons (f : Frame) (rest : List Frame) :
    service (f :: rest) = service rest + if f.inService then 1 else 0 := List.countP_cons

/-- `on_start` begins the service of its call. -/
theorem RunMove.service {w : World Dir} {argv : List Bytes} {pc : RunPc} {move : Move} {rest : List Frame}
    (h : RunMove w argv pc op move) :
    [op].count (.began .onStart) + service (.run argv pc :: rest) =
      [op].count (.returned .onStop) + service (move.apply rest) := by
  cases h with
  | start cfg =>
    show 1 + service (.run argv (.start cfg) :: rest) = 0 + service (.run argv (.called .onStart) :: rest)
    rw [service_cons, service_cons]
    show 1 + (service rest + 0) = 0 + (service rest + 1)
    omega
  | _ => rfl

/-- `on_stop` ends it when it returns. -/
theorem service_returned {cb : Callback} (arg : Option Dconfig) {g : Frame} {below : List Frame}
    (on : (Frame.callback cb arg).On (g :: below)) :
    service (g :: below) = [Op.returned cb].count (.returned .onStop) + service (g.resume none :: below) := by
  rw [service_cons, service_cons]
  rcases Frame.awaits_callback on with ⟨argv, rfl⟩ | ⟨sig, rfl, rfl⟩
  · cases cb with
    | onStop =>
      show service below + 1 = 1 + (service below + 0)
      omega
    | onStart | onUpdate | onReload => simp [Frame.resume, Frame.inService, RunPc.inService]
  · simp [Frame.resume, Frame.inService]

/-- What an operation adds to and takes from the calls in service. -/
theorem service_step (stacked : WellStacked s.stack) (step : s.step fs l = some (op, t)) :
    [op].count (.began .onStart) + service s.stack = [op].count (.returned .onStop) + service t.stack := by
  obtain ⟨-, -, cases⟩ := step_cases step
  cases cases with
  | thread performs after =>
    rw [after]
    generalize t.threads = threads at performs
    cases performs <;> rfl
  | signal _ performs _ after =>
    rw [after, performs]
    rfl
  | @move f rest move top moves after =>
    have on := (stacked.top top).2
    rw [top, after]
    by_cases back : ∃ value, move = .ret value
    · obtain ⟨value, rfl⟩ := back
      obtain ⟨g, below, rfl, sits, other, callback | plain⟩ := moves.ret_cases on
      · obtain ⟨cb, arg, rfl, rfl, rfl⟩ := callback
        exact (Nat.zero_add _).trans (service_returned arg sits)
      · have idle : f.inService = false := by
          cases f with
          | run => exact absurd rfl other
          | _ => rfl
        show _ = _ + service (_ :: _)
        rw [service_cons f, service_cons g, service_cons, inService_resume value (plain.apart _), idle]
        simp [plain.began, plain.returned]
    cases moves with
    | run _ h => exact h.service
    | exiting => rfl
    | daemonize _ h | stop _ h | signalHandler _ h | fromFile _ h | lib _ h | owner _ h =>
      cases h
      all_goals first | rfl | exact absurd ⟨_, rfl⟩ back
    | user h _ =>
      cases h with
      | ret => exact absurd ⟨_, rfl⟩ back
      | destroy live =>
        subst live
        rfl
      | _ => rfl

/-! ## The stack of a dying object -/

/-- The frames above a dying object stay inert. -/
theorem inert_step (stacked : WellStacked s.stack) (inert : ∀ f ∈ s.stack, f.Inert)
    (allowed : reloadInService s l = true) (step : s.step fs l = some (op, t)) : ∀ f ∈ t.stack, f.Inert := by
  refine frames_step step inert ?_ ?_
  · intro f rest move top moves inert
    have resumed : ∀ value, Move.Keeps (fun f _ => f.Inert) rest (.ret value) :=
      fun value g below _ inert => inert.resume value
    cases moves with
    | run => exact inert.elim
    | user _ user =>
      rw [inert.not_user] at user
      cases user
    | exiting => trivial
    | signalHandler _ h =>
      cases h with
      | config sighup => exact absurd sighup inert
      | reload => exact absurd (stacked.top top).1 inert
      | log | stop | cleanup => exact ⟨inert, trivial⟩
      | _ => trivial
    | owner _ h =>
      cases h with
      | derivedDtor => exact nofun
      | dtor => exact ⟨nofun, trivial⟩
      | exit => trivial
    | daemonize _ h | stop _ h | fromFile _ h | lib _ h =>
      cases h
      all_goals first | exact resumed _ | exact ⟨trivial, trivial⟩ | trivial
  · rintro sig rfl -
    cases sig with
    | SIGTERM | SIGKILL => exact nofun
    | SIGHUP =>
      obtain ⟨f, mem, serving⟩ := List.any_eq_true.1 allowed
      rw [(inert f mem).not_inService] at serving
      cases serving

/-- The destruction of the object begins where nothing else is in progress. -/
theorem destroy_stack (stacked : WellStacked s.stack) (step : s.step fs l = some (.destroy, t)) :
    t.stack = [.owner .derivedDtor] := by
  have ⟨f, rest, move, top, .user _ destroys, after⟩ := performs_of_step step rfl
  have on := (stacked.top top).2
  cases destroys with
  | destroy live =>
    subst live
    rw [after]
    cases rest with
    | nil => rfl
    | cons => exact on.elim

/-- Nothing but the beginning of its destruction takes the owner past the object's life. -/
theorem owner_step (live : ∀ pc, .owner pc ∈ s.stack → pc = .live) (step : s.step fs l = some (op, t))
    (other : op ≠ .destroy) : ∀ pc, .owner pc ∈ t.stack → pc = .live := by
  have here : ∀ f ∈ s.stack, ∀ pc, f = .owner pc → pc = .live := fun f mem pc same => live pc (same ▸ mem)
  refine fun pc mem => frames_step step here ?_ (fun _ _ _ => nofun) _ mem pc rfl
  intro f rest move _ moves here
  have resumed : ∀ value, Move.Keeps (fun f _ => ∀ pc, f = .owner pc → pc = .live) rest (.ret value) := by
    intro value g below _ here pc same
    refine here pc ?_
    unfold Frame.resume at same
    split at same <;> first | exact same | cases same
  cases moves with
  | owner _ h =>
    cases here _ rfl
    cases h
  | exiting => exact nofun
  | run _ h | daemonize _ h | stop _ h | signalHandler _ h | fromFile _ h | lib _ h =>
    cases h
    all_goals first | exact resumed _ | exact ⟨nofun, nofun⟩ | trivial | exact nofun
  | user h _ =>
    cases h with
    | ret => exact resumed _
    | destroy => exact absurd rfl other
    | stop | run | setCwd | noSetCwd | setName | lib => exact ⟨here, nofun⟩
    | _ => exact here

/-! ## The invariant -/

/-- What a run whose reloads come in service keeps. -/
structure Served (ops : List Op) (s : Proc Dir) : Prop where
  stacked : WellStacked s.stack
  balance : ops.count (.began .onStart) = ops.count (.returned .onStop) + service s.stack
  /-- A handler of SIGHUP has interrupted a call in service. -/
  reloads : Layered (fun f below => f.kind = .signalHandler .SIGHUP → below.any Frame.inService = true) s.stack
  dying : .destroy ∈ ops → ∀ f ∈ s.stack, f.Inert
  whole : .destroy ∉ ops → s.world.derived = true ∧ ∀ pc, .owner pc ∈ s.stack → pc = .live

theorem served_launch (obj : Object) (pid : Nat) (cwd : Dir) : Served [] (Proc.launch obj pid cwd) where
  stacked := stacked_launch obj pid cwd
  balance := rfl
  reloads := ⟨nofun, trivial⟩
  dying := nofun
  whole _ := ⟨rfl, fun pc mem => by simpa [Proc.launch] using mem⟩

theorem reloads_step (stacked : WellStacked s.stack) (allowed : reloadInService s l = true)
    (h : Layered (fun f below => f.kind = .signalHandler .SIGHUP → below.any Frame.inService = true) s.stack)
    (step : s.step fs l = some (op, t)) :
    Layered (fun f below => f.kind = .signalHandler .SIGHUP → below.any Frame.inService = true) t.stack := by
  refine layered_step step h ?_ ?_
  · intro f rest move top moves here
    have kinds := moves.ofKind (stacked.top top).1
    cases move with
    | goto f' =>
      rcases kinds with same | rfl
      · exact fun hup => here (same ▸ hup)
      · exact nofun
    | call f' g =>
      exact ⟨fun hup => here (kinds.1 ▸ hup), fun hup => absurd (hup ▸ kinds.2) Calls.not_handler⟩
    | ret value => exact fun g below _ here hup => here (g.kind_resume value ▸ hup)
    | leave => trivial
  · rintro sig rfl - hup
    cases hup
    exact allowed

theorem Served.step {ops : List Op} (h : Served ops s) (allowed : reloadInService s l = true)
    (step : s.step fs l = some (op, t)) : Served (ops ++ [op]) t where
  stacked := h.stacked.step step
  balance := by
    have change := service_step h.stacked step
    rw [List.count_append, List.count_append]
    have before := h.balance
    omega
  reloads := reloads_step h.stacked allowed h.reloads step
  dying := by
    intro destroyed
    rcases List.mem_append.1 destroyed with before | now
    · exact inert_step h.stacked (h.dying before) allowed step
    · obtain rfl := List.mem_singleton.1 now
      rw [destroy_stack h.stacked step]
      exact fun f mem => by rw [List.mem_singleton.1 mem]; exact nofun
  whole := by
    intro alive
    rw [List.mem_append, not_or, List.mem_singleton] at alive
    obtain ⟨derived, live⟩ := h.whole alive.1
    refine ⟨?_, owner_step live step (Ne.symm alive.2)⟩
    obtain ⟨-, world, -⟩ := step_cases step
    rw [world, Op.apply_derived, derived]
    unfold Op.derivedAfter
    split
    · -- the derived destructor runs only once the destruction has begun
      have ⟨_, rest, move, top, .owner _ destroys, _⟩ := performs_of_step step rfl
      cases destroys with
      | derivedDtor => cases live .derivedDtor (by rw [top]; exact List.mem_cons_self)
    · rfl

/-- The statement of `signal_handler` that calls `on_reload` is that of a live daemon. -/
theorem Served.reload {ops : List Op} (h : Served ops s) {sig : Signal} {cfg : Dconfig} {rest : List Frame}
    (top : s.stack = .signalHandler sig (.reload cfg) :: rest) :
    ops.count (.returned .onStop) < ops.count (.began .onStart) ∧ .destroy ∉ ops := by
  have reloads := h.reloads
  rw [top] at reloads
  obtain rfl : sig = .SIGHUP := (h.stacked.top top).1
  constructor
  · have serving : 0 < service rest := List.countP_pos_iff.2 (List.any_eq_true.1 (reloads.1 rfl))
    have balance := h.balance
    rw [top, service_cons] at balance
    omega
  · intro destroyed
    have inert : (Frame.signalHandler .SIGHUP (.reload cfg)).Inert :=
      h.dying destroyed _ (by rw [top]; exact List.mem_cons_self)
    exact inert rfl

/-- **Every reload is one of a live daemon**, as long as SIGHUP comes while a call of
`run` is in service. -/
theorem reloads_live {obj : Object} {pid : Nat} {cwd : Dir} {ops : List Op}
    (run : (process fs).Run (fun s l => reloadInService s l = true) (Proc.launch obj pid cwd) ops t) :
    ReloadsLive ops := by
  have served : ∀ {ops : List Op} {s : Proc Dir},
      (process fs).Run (fun s l => reloadInService s l = true) (Proc.launch obj pid cwd) ops s → Served ops s :=
    fun path => path.invariant (served_launch obj pid cwd) fun _ served ⟨_, allowed, step⟩ => served.step allowed step
  constructor
  · rintro before after rfl
    obtain ⟨u, v, first, ⟨l, -, step⟩, -⟩ := run.cut
    have ⟨_, rest, move, top, .signalHandler _ reloads, _⟩ := performs_of_step step rfl
    cases reloads with
    | reload => exact (served first).reload top
  · intro pure
    obtain ⟨before, after, rfl⟩ := List.append_of_mem pure
    obtain ⟨u, v, first, ⟨l, -, step⟩, -⟩ := run.cut
    have ⟨_, rest, move, top, .signalHandler _ reloads, _⟩ := performs_of_step step rfl
    cases reloads with
    | pure _ base =>
      have alive := ((served first).reload top).2
      rw [((served first).whole alive).1] at base
      cases base

end Step

/-- A reload in `on_stop`, which has not returned. -/
def reloadInStop : List Label :=
  List.flatten [[.user (.run [])], bootHandlers, bootDone, bootStart, [.user (.stop 0)], statements 3, startReturns,
    statements 2, handleHup]

theorem reloads_live_inStop : ∃ ops t, (process lexical).Run (fun s l => reloadInService s l = true) fresh ops t ∧
    .began .onReload ∈ ops ∧ ReloadsLive ops := by
  obtain ⟨ops, t, run, reloaded⟩ := (process lexical).exists_run (C := fun s l => reloadInService s l = true)
    (P := fun ops _ => .began .onReload ∈ ops) reloadInStop (s := fresh) rfl
  exact ⟨ops, t, run, of_decide_eq_true reloaded, reloads_live run⟩

/-- SIGHUP while `daemonize` finishes. -/
def reloadBeforeStart : List Label := List.flatten [[.user (.run [])], bootHandlers, handleHup]

/-- SIGHUP once the derived destructor is done, behind a whole call of `run`. -/
def reloadOfBase : List Label :=
  List.flatten [[.user (.run [])], bootHandlers, bootDone, bootStart, [.user (.stop 0)], statements 3, startReturns,
    statements 2, [.user .ret], statements 1, [.user .destroy], statements 1, handleHup]

/-- **Reloads of a daemon that is not live**: `on_reload` ahead of `on_start`, and a call
that reaches the pure virtual function of the base class. -/
theorem reloads_not_live :
    (∃ ops t, (process lexical).Run (fun _ _ => True) fresh ops t ∧ .began .onStart ∉ ops ∧ ¬ ReloadsLive ops) ∧
      ∃ ops t, (process lexical).Run (fun _ _ => True) fresh ops t ∧ .pureVirtual ∈ ops ∧ ¬ ReloadsLive ops := by
  constructor
  · obtain ⟨ops, t, run, early⟩ := (process lexical).exists_run (C := fun _ _ => True)
      (P := fun ops _ => .began .onReload ∈ ops ∧ .began .onStart ∉ ops) reloadBeforeStart (s := fresh) rfl
    obtain ⟨reloaded, unstarted⟩ := of_decide_eq_true early
    refine ⟨ops, t, run, unstarted, fun live => ?_⟩
    obtain ⟨before, after, same⟩ := List.append_of_mem reloaded
    have started : 0 < before.count (.began .onStart) := Nat.zero_lt_of_lt (live.within before after same).1
    exact unstarted (same ▸ List.mem_append_left _ (List.count_pos_iff.1 started))
  · obtain ⟨ops, t, run, late⟩ := (process lexical).exists_run (C := fun _ _ => True)
      (P := fun ops _ => .pureVirtual ∈ ops) reloadOfBase (s := fresh) rfl
    have pure := of_decide_eq_true late
    exact ⟨ops, t, run, pure, fun live => live.derived pure⟩

end Daemonpp
