import Daemonpp.Signals.Deadlock

/-!
# The main thread always goes on

What the main thread may wait for besides time is a lock of the C library or
`m_mutex`. The first is the subject of `Daemonpp.Signals.Deadlock`. `m_mutex` is
taken by a frame of `run` between the lock and the unlock of `wait_for`, and as
long as no `run` is called from a handler the frames of `run` under another one
are all inside a callback (`Suspended`), so nobody waits for it in vain. Every state
of such a run can then go on by a step of the process's own (`never_stuck`).
-/

namespace Daemonpp

open Lib (Layered)

/-- A step the process takes by itself: a statement, the return of a callback, and the end of
the scope that owns the object. -/
def Label.own : Label → Bool
  | .main _ | .user .ret | .user .destroy => true
  | _ => false

/-- The statements of `run` that own `m_mutex`. -/
def RunPc.locked : RunPc → Bool
  | .pred | .block | .timedOut | .unlock => true
  | _ => false

def Frame.locked : Frame → Bool
  | .run _ pc => pc.locked
  | _ => false

/-- A frame of `run` under another one is inside a callback. -/
def Frame.Suspended (f : Frame) (below : List Frame) : Prop :=
  f.kind = .run → ∀ g ∈ below, g.kind = .run → ∃ cb, g.awaits = some (.callback cb)

/-- Signals come while no lock is held, and no handler calls `run`. -/
def Orderly {Dir : Type} (s : Proc Dir) (l : Label) : Bool :=
  betweenCalls s l && (!l.callsRun || s.stack.all fun f => !(Frame.handles .SIGHUP f))

/-- Under user code that no SIGHUP has called, every `run` is inside a callback. -/
theorem called_of_user {f : Frame} {rest : List Frame}
    (placed : Layered (fun f below => f.Proper ∧ f.On below) (f :: rest)) (user : f.isUser = true)
    (apart : ∀ g ∈ rest, Frame.handles .SIGHUP g = false) :
    ∀ g ∈ rest, g.kind = .run → ∃ cb, g.awaits = some (.callback cb) := by
  match rest with
  | [] => exact nofun
  | g :: below =>
    obtain ⟨⟨-, on⟩, ⟨proper, beneath⟩, placed⟩ := placed
    obtain ⟨cb, waits⟩ : ∃ cb, g.awaits = some (.callback cb) := by
      cases f with
      | callback cb => exact ⟨cb, on⟩
      | owner => cases on
      | _ => cases user
    rcases Frame.awaits_callback waits with ⟨argv, rfl⟩ | ⟨sig, rfl, rfl⟩
    · intro h mem run
      rcases List.mem_cons.1 mem with rfl | mem
      · exact ⟨_, rfl⟩
      · match below with
        | [] => cases mem
        | u :: below' =>
          rcases List.mem_cons.1 mem with rfl | mem
          · -- `run` is called by user code
            have caller : h.isUser = true := beneath
            cases h with
            | run => cases caller
            | _ => cases run
          · refine called_of_user placed beneath ?_ h mem run
            exact fun g mem => apart g (List.mem_cons_of_mem _ (List.mem_cons_of_mem _ mem))
    · -- `on_reload` is called by the handler of SIGHUP
      cases proper
      cases apart _ List.mem_cons_self

section Run

variable {Dir File : Type} {fs : PathSpace Dir File} {s t : Proc Dir} {l : Label} {op : Op} {ops : List Op}

theorem suspended_step (stacked : WellStacked s.stack) (suspended : Layered Frame.Suspended s.stack)
    (orderly : Orderly s l = true) (step : s.step fs l = some (op, t)) : Layered Frame.Suspended t.stack := by
  refine layered_step step suspended ?_ fun sig _ _ => nofun
  intro f rest move top moves known
  have kinds := moves.ofKind (stacked.top top).1
  cases move with
  | goto f' =>
    rcases kinds with same | rfl
    · exact fun run => known (same ▸ run)
    · exact nofun
  | call f' g =>
    refine ⟨fun run => known (kinds.1 ▸ run), fun run => ?_⟩
    have calls := (run ▸ kinds.2 : Calls l f.kind .run).callsRun
    cases moves with
    | user h user =>
      have same : f' = f := by
        cases h <;> rfl
      subst same
      have placed := stacked.placed
      rw [top] at placed
      simp only [Orderly, calls, Bool.not_true, Bool.false_or, Bool.and_eq_true, List.all_eq_true, top] at orderly
      have called := called_of_user placed user fun g mem => by
        simpa using orderly.2 g (List.mem_cons_of_mem _ mem)
      intro h mem run
      rcases List.mem_cons.1 mem with rfl | mem
      · unfold Frame.isUser at user
        split at user
        · cases run
        · cases run
        · cases user
      · exact called h mem run
    | _ => cases calls
  | ret value => exact fun g below _ known run => known (g.kind_resume value ▸ run)
  | leave => trivial

/-- Somebody owns `m_mutex` when it is taken. -/
def Owned (s : Proc Dir) : Prop := s.world.mutex = true → ∃ f ∈ s.stack, f.locked = true

theorem Owned.step (h : Owned s) (step : s.step fs l = some (op, t)) : Owned t := by
  intro taken
  obtain ⟨-, world, -⟩ := step_cases step
  rw [world, Op.apply_mutex] at taken
  unfold Op.mutexAfter at taken
  split at taken
  · have ⟨_, rest, move, top, .run _ locks, after⟩ := performs_of_step step rfl
    cases locks with
    | lock =>
      rw [after]
      exact ⟨_, List.mem_cons_self, rfl⟩
  · have ⟨_, rest, move, top, .run _ wakes, after⟩ := performs_of_step step rfl
    cases wakes with
    | wake | timeout =>
      rw [after]
      exact ⟨_, List.mem_cons_self, rfl⟩
  · cases taken
  · cases taken
  · rename_i unlock wait
    obtain ⟨f, mem, owns⟩ := h taken
    have idle : f.awaits = none := by
      cases f with
      | run argv pc => cases pc <;> first | rfl | cases owns
      | _ => cases owns
    rcases frame_stays step mem idle with stays | ⟨rest, move, top, moves, after⟩
    · exact ⟨f, stays, owns⟩
    · -- between the lock and the unlock only `run` moves
      cases moves with
      | run _ h =>
        cases h with
        | sleep | awake | timedOut =>
          rw [after]
          exact ⟨_, List.mem_cons_self, rfl⟩
        | block => exact absurd rfl wait
        | unlock => exact absurd rfl unlock
        | _ => cases owns
      | user _ user =>
        cases f with
        | run => cases user
        | _ => cases owns
      | _ => cases owns

/-- What lets the main thread go on. -/
structure Free (s : Proc Dir) : Prop where
  stacked : WellStacked s.stack
  suspended : Layered Frame.Suspended s.stack
  owned : Owned s
  held : HeldOnTop s

theorem free_launch (obj : Object) (pid : Nat) (cwd : Dir) : Free (Proc.launch obj pid cwd) where
  stacked := stacked_launch obj pid cwd
  suspended := ⟨nofun, trivial⟩
  owned := nofun
  held := .inl rfl

theorem Free.step (h : Free s) (orderly : Orderly s l = true) (step : s.step fs l = some (op, t)) : Free t where
  stacked := h.stacked.step step
  suspended := suspended_step h.stacked h.suspended orderly step
  owned := h.owned.step step
  held := h.held.step (by simp only [Orderly, Bool.and_eq_true] at orderly; exact orderly.1) step

theorem free_of_run {obj : Object} {pid : Nat} {cwd : Dir}
    (run : (process fs).Run (fun s l => Orderly s l = true) (Proc.launch obj pid cwd) ops s) : Free s :=
  run.always (I := Free) (free_launch obj pid cwd) fun free ⟨_, orderly, step⟩ => free.step orderly step

/-- A frame that waits for `m_mutex`. -/
def Frame.needsMutex : Frame → Bool
  | .run _ .lock | .run _ .blocked => true
  | _ => false

/-- Nobody waits for `m_mutex` while it is taken. -/
theorem Free.mutex (h : Free s) {f : Frame} {rest : List Frame} (top : s.stack = f :: rest)
    (needs : f.needsMutex = true) : s.world.mutex = false := by
  by_contra taken
  obtain ⟨g, mem, owns⟩ := h.owned (Bool.not_eq_false _ ▸ taken)
  have suspended := h.suspended
  rw [top] at mem suspended
  rcases List.mem_cons.1 mem with rfl | under
  · unfold Frame.needsMutex at needs
    split at needs
    · cases owns
    · cases owns
    · cases needs
  · cases f with
    | run =>
      cases g with
      | run argv pc =>
        obtain ⟨cb, waits⟩ := suspended.1 rfl _ under rfl
        cases pc <;> simp [Frame.locked, RunPc.locked, Frame.awaits] at owns waits
      | _ => cases owns
    | _ => cases needs

/-- Every statement of the main thread can be executed, but for a lock. -/
theorem Frame.goes {w : World Dir} {f : Frame} (idle : f.awaits = none) (user : f.isUser = false)
    (mutex : f.needsMutex = true → w.mutex = false)
    (lock : ∀ call calls, f = .lib (call :: calls) false → call.lock ∉ w.held) :
    ∃ r, (f.next w r).isSome = true := by
  cases f with
  | owner pc =>
    cases pc with
    | live => cases user
    | derivedDtor | dtor | exit => exact ⟨.done, rfl⟩
  | run argv pc =>
    cases pc with
    | scan =>
      refine ⟨.done, ?_⟩
      simp only [next, runNext]
      split <;> rfl
    | lock => exact ⟨.done, by simp [next, runNext, mutex rfl]⟩
    | blocked => exact ⟨.timeout, by simp [next, runNext, mutex rfl]⟩
    | daemonizing | configuring | called => cases idle
    | _ => exact ⟨.done, rfl⟩
  | daemonize pc =>
    cases pc with
    | fork => exact ⟨.fork 0 0, rfl⟩
    | setsid | chdir => exact ⟨.ok true, rfl⟩
    | _ => exact ⟨.done, rfl⟩
  | stop handler code pc => exact ⟨.done, rfl⟩
  | signalHandler sig pc =>
    cases pc with
    | switch =>
      refine ⟨.done, ?_⟩
      cases sig <;> rfl
    | reload cfg =>
      refine ⟨.done, ?_⟩
      simp only [next, signalHandlerNext]
      split <;> rfl
    | stopping | configuring | reloading => cases idle
    | _ => exact ⟨.done, rfl⟩
  | fromFile pc =>
    cases pc with
    | enter filename =>
      cases filename with
      | nil => exact ⟨.done, rfl⟩
      | cons => exact ⟨.file .closed, rfl⟩
    | parse filename ifs fd =>
      refine ⟨.done, ?_⟩
      simp only [next, fromFileNext]
      split <;> rfl
    | close cfg fd => exact ⟨.done, rfl⟩
  | callback => cases user
  | lib calls inside =>
    cases calls with
    | nil => exact ⟨.done, rfl⟩
    | cons call calls =>
      cases inside with
      | false => exact ⟨.done, by simp [next, libNext, lock call calls rfl]⟩
      | true => exact ⟨.ok true, rfl⟩
  | exiting => exact ⟨.done, rfl⟩

/-- User code can return. -/
theorem Frame.returns {w : World Dir} {f : Frame} (user : f.isUser = true) :
    ∃ a op move, (Label.user a).own = true ∧ f.act w a = some (op, move) := by
  unfold Frame.isUser at user
  split at user
  · exact ⟨.ret, _, _, rfl, rfl⟩
  · exact ⟨.destroy, _, _, rfl, rfl⟩
  · cases user

theorem Free.goes (h : Free s) (alive : s.world.status = .alive) :
    ∃ l op t, l.own = true ∧ s.step fs l = some (op, t) := by
  obtain ⟨f, rest, top, idle⟩ := h.stacked.idle
  cases user : f.isUser with
  | true =>
    obtain ⟨a, op, move, own, act⟩ := f.returns (w := s.world) user
    refine ⟨.user a, op, ⟨move.apply rest, op.apply fs s.world, s.threads⟩, own, ?_⟩
    unfold Proc.step Proc.control
    rw [if_pos alive, top]
    simp only [act, Option.map_some]
  | false =>
    obtain ⟨r, goes⟩ := Frame.goes idle user (h.mutex top) fun call calls same taken =>
      h.held.not_blocked ⟨call, calls, rest, top.trans (same ▸ rfl), taken⟩
    obtain ⟨⟨op, move⟩, next⟩ := Option.isSome_iff_exists.1 goes
    exact ⟨.main r, op, _, rfl, step_of_next fs alive top next⟩

/-- **The main thread never gets stuck**: as long as signals come while no lock is held and no
handler calls `run`, every state of a run that is not its end can go on by a statement, the
return of a callback or the destruction of the object. -/
theorem never_stuck {obj : Object} {pid : Nat} {cwd : Dir}
    (run : (process fs).Run (fun s l => Orderly s l = true) (Proc.launch obj pid cwd) ops s)
    (alive : s.world.status = .alive) : ∃ l op t, l.own = true ∧ s.step fs l = some (op, t) :=
  (free_of_run run).goes alive

end Run

/-- An `on_update` that calls `run` again behind a `stop`, and a SIGHUP, up to the first wait of
the inner call. -/
def nestedWait : List Label :=
  List.flatten [[.user (.run [])], bootHandlers, bootDone, bootStart, startReturns, statements 2, [.user (.stop 0)],
    statements 3, [.user (.run [])], bootHandlers, bootDone, bootStart, startReturns, handleHup, [.user .ret],
    statements 1, libCalls 1, statements 3, [.user .ret], statements 3]

theorem never_stuck_nestedWait : ∃ ops t, (process lexical).Run (fun s l => Orderly s l = true) fresh ops t ∧
    (∃ rest, t.stack = .run [] .blocked :: rest) ∧ ∃ l op u, l.own = true ∧ t.step lexical l = some (op, u) := by
  obtain ⟨ops, t, run, waits⟩ := (process lexical).exists_run (C := fun s l => Orderly s l = true)
    (P := fun _ t => t.world.status = .alive ∧ t.stack.head? = some (.run [] .blocked)) nestedWait (s := fresh) rfl
  obtain ⟨alive, top⟩ := of_decide_eq_true waits
  obtain ⟨rest, top⟩ := List.head?_eq_some_iff.1 top
  exact ⟨ops, t, run, ⟨rest, top⟩, never_stuck run alive⟩

/-- A `stop` in `on_update`, and SIGHUP while `run` still owns the mutex: its `on_reload` calls `run`. -/
def runInReload : List Label :=
  List.flatten [[.user (.run [])], bootHandlers, bootDone, bootStart, startReturns, statements 2, [.user (.stop 0)],
    statements 3, [.user .ret], statements 2, handleHup, [.user (.run [])], bootHandlers, bootDone, bootStart,
    startReturns, statements 2, [.user .ret]]

/-- **A `run` called from `on_reload` can wait for itself**: the call that it has interrupted owns
the mutex. -/
theorem stuck_in_reload : ∃ ops t, (process lexical).Run (fun s l => betweenCalls s l = true) fresh ops t ∧
    t.world.status = .alive ∧ ∀ l, l.own = true → t.step lexical l = none := by
  obtain ⟨ops, t, run, locks⟩ := (process lexical).exists_run (C := fun s l => betweenCalls s l = true)
    (P := fun _ t => t.world.status = .alive ∧ t.world.mutex = true ∧ t.stack.head? = some (.run [] .lock))
    runInReload (s := fresh) rfl
  obtain ⟨alive, taken, top⟩ := of_decide_eq_true locks
  obtain ⟨rest, top⟩ := List.head?_eq_some_iff.1 top
  refine ⟨ops, t, run, alive, fun l own => ?_⟩
  unfold Proc.step Proc.control
  unfold Label.own at own
  split at own
  · rename_i r
    cases r <;> simp [top, taken, Frame.next, runNext]
  · have other : Frame.act t.world (.run [] .lock) .ret = none := rfl
    simp [top, other]
  · have other : Frame.act t.world (.run [] .lock) .destroy = none := rfl
    simp [top, other]
  · cases own

end Daemonpp
