import Daemonpp.Process.Effect
import Daemonpp.Process.Launch

/-!
# Who holds the locks of the C library

The locks that are taken are those of the library calls that the frames of the main
thread are inside of (`Locked.held`). `signal_handler` starts with a message, so a
handler that is past it has interrupted nothing inside a library call
(`Frame.Logged`), and user code never runs with a lock taken (`locks_of_user`).
-/

namespace Daemonpp

open Lib (Layered)

/-- The lock a frame holds. -/
def Frame.lock? : Frame → Option Lock
  | .lib (call :: _) true => some call.lock
  | _ => none

/-- The locks the frames of a stack hold, the innermost first. -/
def locks (stack : List Frame) : List Lock := stack.filterMap Frame.lock?

theorem locks_cons_of_none {f : Frame} (free : f.lock? = none) (rest : List Frame) : locks (f :: rest) = locks rest :=
  List.filterMap_cons_none free

theorem Frame.lock?_resume (f : Frame) (value : Option Dconfig) : (f.resume value).lock? = f.lock? := by
  unfold resume
  split <;> rfl

/-- What `signal_handler` knows about the locks that were taken when it came, while it logs. -/
inductive Logging (held : List Lock) : List LibCall → Bool → Prop where
  | start : Logging held logCalls false
  | building (heap : .heap ∉ held) : Logging held logCalls true
  | built (heap : .heap ∉ held) : Logging held [.syslog, .heap] false
  | writing (free : held = []) : Logging held [.syslog, .heap] true
  | written (free : held = []) (inside : Bool) : Logging held [.heap] inside
  | done (free : held = []) : Logging held [] false

/-- What a frame that stands on a handler at its message tells about those locks. -/
def Frame.AtLog (held : List Lock) : Frame → Prop
  | .lib calls inside => Logging held calls inside
  | _ => held = []

/-- A handler that is past its message. -/
def Frame.pastLog : Frame → Bool
  | .signalHandler _ pc => pc != .log && pc != .switch
  | _ => false

/-- A handler that is past its message has interrupted no library call. -/
structure Frame.Logged (f : Frame) (below : List Frame) : Prop where
  on : ∀ sig rest, below = .signalHandler sig .switch :: rest → f.AtLog (locks rest)
  past : f.pastLog = true → locks below = []

theorem Frame.atLog_iff {f : Frame} {held : List Lock} (other : f.kind ≠ .lib) : f.AtLog held ↔ held = [] := by
  cases f with
  | lib => exact absurd rfl other
  | _ => exact Iff.rfl

/-- What a frame knows about the locks, the statement behind it does, unless it is the first one
past the message. -/
theorem Frame.Logged.next {f f' : Frame} {below : List Frame} (known : f.Logged below) (other : f.kind ≠ .lib)
    (other' : f'.kind ≠ .lib) (past : f'.pastLog = true → locks below = []) : f'.Logged below where
  on sig rest same := (Frame.atLog_iff other').2 ((Frame.atLog_iff other).1 (known.on sig rest same))
  past := past

theorem Frame.Logged.resume {f : Frame} {below : List Frame} (value : Option Dconfig) (known : f.Logged below) :
    (f.resume value).Logged below := by
  cases f using Frame.resume_cases with
  | stopped | loaded | reloaded => exact known.next nofun nofun fun _ => known.past rfl
  | stays f stays =>
    rw [stays value]
    exact known
  | _ => exact known.next nofun nofun nofun

/-- A callee that no handler has called for its message. -/
theorem Frame.logged_callee {f g : Frame} {rest : List Frame} (fresh : g.pastLog = false)
    (other : ∀ sig, f ≠ .signalHandler sig .switch) : g.Logged (f :: rest) where
  on := by
    rintro sig below ⟨⟩
    exact absurd rfl (other sig)
  past := by
    rw [fresh]
    exact nofun

/-- The locks taken are those of the stack. -/
structure Locked {Dir : Type} (s : Proc Dir) : Prop where
  held : s.world.held = locks s.stack
  logged : Layered Frame.Logged s.stack
  idle : ∀ sig below, s.stack = .signalHandler sig .switch :: below → locks below = []

section Moves

variable {Dir : Type} {w : World Dir} {f g : Frame} {rest : List Frame} {l : Label} {op : Op} {move : Move}

/-- A move changes the locks of the stack as its operation does. -/
theorem Moves.locks (h : Moves w f l op move) :
    Daemonpp.locks (move.apply rest) = op.heldAfter (Daemonpp.locks (f :: rest)) := by
  have returned : ∀ value, f.lock? = none →
      Daemonpp.locks (Move.apply rest (.ret value)) = Daemonpp.locks (f :: rest) := by
    intro value free
    rw [locks_cons_of_none free]
    cases rest with
    | nil => rfl
    | cons g below => simp [Move.apply, Daemonpp.locks, List.filterMap_cons, g.lock?_resume]
  cases h with
  | lib _ h =>
    cases h with
    | nil => rfl
    | acquire => rfl
    | finish call calls => simp [Move.apply, Daemonpp.locks, Frame.lock?, Op.heldAfter]
  | user h user =>
    have free : f.lock? = none := by
      unfold Frame.isUser at user
      split at user
      · rfl
      · rfl
      · cases user
    cases h with
    | ret => exact returned none free
    | destroy live =>
      subst live
      rfl
    | _ => simp [Move.apply, Daemonpp.locks, Frame.lock?, Op.heldAfter, List.filterMap_cons]
  | stop _ h =>
    cases h with
    | notify => exact returned none rfl
    | _ => rfl
  | daemonize _ h =>
    cases h with
    | closeLast => exact returned none rfl
    | _ => rfl
  | fromFile _ h =>
    cases h with
    | empty | close => exact returned _ rfl
    | _ => rfl
  | run _ h | signalHandler _ h | owner _ h =>
    cases h
    all_goals rfl
  | exiting => rfl

/-- A lock that was free when a frame on top took it is held by no frame below. -/
theorem notMem_locks {lock : Lock} {below : List Frame} (free : lock ∉ Daemonpp.locks (f :: g :: below)) :
    lock ∉ Daemonpp.locks below := by
  intro mem
  refine free ?_
  obtain ⟨f', mem, holds⟩ := List.mem_filterMap.1 mem
  exact List.mem_filterMap.2 ⟨f', List.mem_cons_of_mem _ (List.mem_cons_of_mem _ mem), holds⟩

/-- The message of a handler takes both locks, one after the other. -/
theorem LibMove.logging {calls calls' : List LibCall} {inside inside' : Bool} {held : List Lock}
    (h : LibMove w calls inside op (.goto (.lib calls' inside'))) (known : Logging held calls inside)
    (fewer : ∀ lock, lock ∉ w.held → lock ∉ held) : Logging held calls' inside' := by
  have both : .heap ∉ held → .syslog ∉ held → held = [] := by
    intro heap syslog
    refine List.eq_nil_iff_forall_not_mem.2 fun lock => ?_
    cases lock with
    | heap => exact heap
    | syslog => exact syslog
  cases h with
  | acquire call calls free =>
    cases known with
    | start => exact .building (fewer _ free)
    | built heap => exact .writing (both heap (fewer _ free))
    | written none => exact .written none true
  | finish call calls answer =>
    cases known with
    | building heap => exact .built heap
    | writing none => exact .written none false
    | written none => exact .done none

/-- What the handlers of the stack know stays true in a move. -/
theorem Moves.logged (h : Moves w f l op move) (known : f.Logged rest) (held : w.held = Daemonpp.locks (f :: rest))
    (idle : ∀ sig, f = .signalHandler sig .switch → Daemonpp.locks rest = []) : move.Keeps Frame.Logged rest := by
  have resumed : ∀ value, Move.Keeps Frame.Logged rest (.ret value) := fun value g below _ known => known.resume value
  cases h with
  | lib _ h =>
    have fewer : ∀ {sig below lock}, rest = .signalHandler sig .switch :: below → lock ∉ w.held →
        lock ∉ Daemonpp.locks below := by
      rintro sig below lock rfl free
      exact notMem_locks (held ▸ free)
    cases h with
    | nil => trivial
    | acquire call calls free =>
      exact ⟨fun sig below same => (LibMove.acquire call calls free).logging (known.on sig below same)
        fun _ => fewer same, nofun⟩
    | finish call calls answer =>
      exact ⟨fun sig below same => (LibMove.finish call calls answer).logging (known.on sig below same)
        fun _ => fewer same, nofun⟩
  | signalHandler _ h =>
    cases h with
    | log =>
      refine ⟨known.next nofun nofun nofun, ?_, nofun⟩
      rintro sig below ⟨⟩
      exact .start
    | stop | config => exact ⟨known.next nofun nofun fun _ => idle _ rfl, Frame.logged_callee rfl nofun⟩
    | reload | cleanup => exact ⟨known.next nofun nofun fun _ => known.past rfl, Frame.logged_callee rfl nofun⟩
    | pure => exact known.next nofun nofun nofun
    | done => trivial
  | user h user =>
    have plain : ∀ sig, f ≠ .signalHandler sig .switch := by
      rintro sig rfl
      cases user
    cases h with
    | ret => exact resumed _
    | destroy live =>
      subst live
      exact known.next nofun nofun nofun
    | stop | run | setCwd | noSetCwd | setName | lib => exact ⟨known, Frame.logged_callee rfl plain⟩
    | _ => exact known
  | stop _ h =>
    cases h with
    | notify => exact resumed _
    | _ => exact known.next nofun nofun nofun
  | daemonize _ h =>
    cases h with
    | closeLast => exact resumed _
    | init | noSetsid | noChdir => exact ⟨known.next nofun nofun nofun, Frame.logged_callee rfl nofun⟩
    | _ => exact known.next nofun nofun nofun
  | fromFile _ h =>
    cases h with
    | empty | close => exact resumed _
    | «open» => exact ⟨known.next nofun nofun nofun, Frame.logged_callee rfl nofun⟩
    | _ => exact known.next nofun nofun nofun
  | run _ h | owner _ h =>
    cases h
    all_goals first
      | trivial
      | exact known.next nofun nofun nofun
      | exact ⟨known.next nofun nofun nofun, Frame.logged_callee rfl nofun⟩
  | exiting => exact known.next nofun nofun nofun

theorem Frame.eq_of_resume_switch {value : Option Dconfig} {sig : Signal}
    (h : f.resume value = .signalHandler sig .switch) : f = .signalHandler sig .switch := by
  unfold resume at h
  split at h
  all_goals first | exact h | cases h

/-- A handler comes to its switch on the return of its message, with both locks free below it,
or finds itself there again behind an interruption. -/
theorem Moves.atSwitch {sig : Signal} {below : List Frame} (h : Moves w f l op move) (known : f.Logged rest)
    (after : move.apply rest = .signalHandler sig .switch :: below) : Daemonpp.locks below = [] := by
  have returned : ∀ value, move = .ret value → f.kind ≠ .lib → Daemonpp.locks below = [] := by
    rintro value rfl other
    cases rest with
    | nil => cases after
    | cons g below' =>
      obtain ⟨same, rfl⟩ := List.cons.inj after
      exact (Frame.atLog_iff other).1 (known.on sig _ (by rw [Frame.eq_of_resume_switch same]))
  have left : move = .leave → f.AtLog (Daemonpp.locks below) := by
    rintro rfl
    exact known.on sig below after
  cases h with
  | lib _ h =>
    cases h with
    | nil =>
      cases left rfl with
      | done free => exact free
    | acquire | finish => cases after
  | user h user =>
    cases h with
    | ret cb arg callback => exact returned _ rfl (callback ▸ nofun)
    | destroy => cases after
    | stop | run | setCwd | noSetCwd | setName | lib => cases after
    | _ =>
      obtain ⟨rfl, -⟩ := List.cons.inj after
      cases user
  | stop _ h =>
    cases h with
    | notify => exact returned _ rfl nofun
    | _ => cases after
  | daemonize _ h =>
    cases h with
    | closeLast => exact returned _ rfl nofun
    | _ => cases after
  | fromFile _ h =>
    cases h with
    | empty | close => exact returned _ rfl nofun
    | _ => cases after
  | run _ h | signalHandler _ h | owner _ h =>
    cases h
    all_goals first | exact left rfl | cases after
  | exiting => cases after

end Moves

section Run

variable {Dir File : Type} {fs : PathSpace Dir File} {s t : Proc Dir} {l : Label} {op : Op}

theorem locked_launch (obj : Object) (pid : Nat) (cwd : Dir) : Locked (Proc.launch obj pid cwd) where
  held := rfl
  logged := ⟨⟨nofun, nofun⟩, trivial⟩
  idle := nofun

theorem Locked.step (h : Locked s) (step : s.step fs l = some (op, t)) : Locked t := by
  obtain ⟨-, world, cases⟩ := step_cases step
  have held' : t.world.held = op.heldAfter (locks s.stack) := by rw [world, Op.apply_held, h.held]
  constructor
  · rw [held']
    cases cases with
    | move top moves after => rw [after, moves.locks, top]
    | signal _ performs _ after =>
      rw [after, performs]
      rfl
    | thread performs after =>
      rw [after]
      generalize t.threads = threads at performs
      cases performs <;> rfl
  · refine layered_step step h.logged ?_ ?_
    · intro f rest move top moves known
      exact moves.logged known (top ▸ h.held) fun sig same => h.idle sig rest (same ▸ top)
    · exact fun sig _ _ => ⟨fun sig' rest same => h.idle sig' rest same, nofun⟩
  · intro sig below top'
    cases cases with
    | signal _ _ _ after => cases after.symm.trans top'
    | thread _ after => exact h.idle sig below (after ▸ top')
    | move top moves after =>
      have known := h.logged
      rw [top] at known
      exact moves.atSwitch known.1 (after ▸ top')

/-- User code, and `run` itself, run with no lock taken. -/
theorem locks_of_user {f : Frame} {below : List Frame}
    (placed : Layered (fun f below => f.Proper ∧ f.On below) (f :: below))
    (logged : Layered Frame.Logged (f :: below)) (user : f.isUser = true ∨ f.kind = .run) :
    locks (f :: below) = [] := by
  induction below generalizing f with
  | nil =>
    refine locks_cons_of_none ?_ []
    cases f with
    | lib => rcases user with user | user <;> cases user
    | _ => rfl
  | cons g below ih =>
    have on : f.Sits g := placed.1.2
    cases f with
    | callback cb arg =>
      rcases Frame.awaits_callback on with ⟨argv, rfl⟩ | ⟨sig, rfl, rfl⟩
      · exact ih placed.2 logged.2 (.inr rfl)
      · exact logged.2.1.past rfl
    | run argv pc => exact ih placed.2 logged.2 (.inl on)
    | owner pc => cases on
    | _ => rcases user with user | user <;> cases user

/-- **User code never finds a lock of the C library taken.** -/
theorem Locked.free (h : Locked s) (stacked : WellStacked s.stack) {f : Frame} {below : List Frame}
    (top : s.stack = f :: below) (user : f.isUser = true ∨ f.kind = .run) : s.world.held = [] := by
  have placed := stacked.placed
  have logged := h.logged
  rw [top] at placed logged
  rw [h.held, top]
  exact locks_of_user placed logged user

end Run

end Daemonpp
