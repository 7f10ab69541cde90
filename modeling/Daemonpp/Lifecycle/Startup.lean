import Daemonpp.Lifecycle.Phase
import Daemonpp.Process.Daemonize

/-!
# The start-up of one process

The abstract model of what a process does about `fork`, `setsid` and `chdir` on its way to
`on_start`: `StartupStep`. A parent and a process in which one of the calls fails leave
through `std::exit` and do not come to `on_start`; a child does behind both of its calls
(`Startup.told`). A process in which `run` has been entered refines it, as long as nobody
calls `run` again (`startup_of_run`).
-/

namespace Daemonpp

open Lib (Layered Path)

inductive Startup where
  /-- Ahead of `fork`. -/
  | ahead
  | parent
  | child
  /-- A child behind `setsid`. -/
  | session
  /-- A child behind `chdir`, too. -/
  | placed
  | failed
  deriving DecidableEq, Repr

/-- The calls that a start-up depends on. -/
def Op.starts : Op → Bool
  | .fork _ _ | .setsid _ | .chdir _ _ => true
  | _ => false

inductive StartupStep : Startup → Op → Startup → Prop where
  | parent {result : Int} (positive : 0 < result) (pid : Nat) : StartupStep .ahead (.fork result pid) .parent
  | noFork {result : Int} (negative : result < 0) (pid : Nat) : StartupStep .ahead (.fork result pid) .failed
  | child (pid : Nat) : StartupStep .ahead (.fork 0 pid) .child
  | setsid (sid : Nat) : StartupStep .child (.setsid sid) .session
  | noSetsid : StartupStep .child (.setsid (-1)) .failed
  | chdir (path : Bytes) : StartupStep .session (.chdir path true) .placed
  | noChdir (path : Bytes) : StartupStep .session (.chdir path false) .failed
  | exitParent : StartupStep .parent (.exit EXIT_SUCCESS) .parent
  | exitFailed : StartupStep .failed (.exit EXIT_FAILURE) .failed
  | start : StartupStep .placed (.began .onStart) .placed
  | stay (st : Startup) {op : Op} (other : op.starts = false) (stays : ∀ code, op ≠ .exit code)
      (quiet : op ≠ .began .onStart) : StartupStep st op st

/-- The calls of a start-up, oldest first. -/
def startupCalls (ops : List Op) : List Op := ops.filter Op.starts

namespace Startup

/-- What a process has called by the time it is where it is. -/
def Called (calls : List Op) : Startup → Prop
  | .ahead => calls = []
  | .parent => ∃ result pid, 0 < result ∧ calls = [.fork result pid]
  | .child => ∃ pid, calls = [.fork 0 pid]
  | .session => ∃ pid sid, calls = [.fork 0 pid, .setsid (Int.ofNat sid)]
  | .placed => ∃ pid sid path, calls = [.fork 0 pid, .setsid (Int.ofNat sid), .chdir path true]
  | .failed => (∃ result pid, result < 0 ∧ calls = [.fork result pid]) ∨
      (∃ pid, calls = [.fork 0 pid, .setsid (-1)]) ∨
      ∃ pid sid path, calls = [.fork 0 pid, .setsid (Int.ofNat sid), .chdir path false]

/-- What the operations of a process tell about its start-up. -/
structure Told (ops : List Op) (st : Startup) : Prop where
  calls : st.Called (startupCalls ops)
  started : .began .onStart ∈ ops → st = .placed
  exits : ∀ code, .exit code ∈ ops → code = EXIT_SUCCESS ∧ st = .parent ∨ code = EXIT_FAILURE ∧ st = .failed

variable {st st' : Startup} {ops : List Op} {op : Op}

/-- A call moves on a process that has neither begun `on_start` nor left. -/
theorem Told.call (h : Told ops st) (starts : op.starts = true) (going : st ≠ .placed ∧ st ≠ .parent ∧ st ≠ .failed)
    (called : st'.Called (startupCalls ops ++ [op])) : Told (ops ++ [op]) st' where
  calls := by
    rw [startupCalls, List.filter_append, List.filter_singleton, starts]
    exact called
  started mem := by
    rcases List.mem_append.1 mem with before | now
    · exact absurd (h.started before) going.1
    · obtain rfl := List.mem_singleton.1 now
      cases starts
  exits code mem := by
    rcases List.mem_append.1 mem with before | now
    · exact (h.exits code before).elim (fun left => absurd left.2 going.2.1) fun left => absurd left.2 going.2.2
    · obtain rfl := List.mem_singleton.1 now
      cases starts

/-- What is no call leaves the process where it is. -/
theorem Told.other (h : Told ops st) (other : op.starts = false) (started : op = .began .onStart → st = .placed)
    (exits : ∀ code, op = .exit code → code = EXIT_SUCCESS ∧ st = .parent ∨ code = EXIT_FAILURE ∧ st = .failed) :
    Told (ops ++ [op]) st where
  calls := by
    rw [startupCalls, List.filter_append, List.filter_singleton, other]
    exact List.append_nil _ ▸ h.calls
  started mem := (List.mem_append.1 mem).elim h.started fun now => started (List.mem_singleton.1 now).symm
  exits code mem := (List.mem_append.1 mem).elim (h.exits code) fun now => exits code (List.mem_singleton.1 now).symm

theorem Told.step (h : Told ops st) (step : StartupStep st op st') : Told (ops ++ [op]) st' := by
  have calls := h.calls
  cases step with
  | parent positive pid => exact h.call rfl (by decide) ⟨_, pid, positive, by rw [calls]; rfl⟩
  | noFork negative pid => exact h.call rfl (by decide) (.inl ⟨_, pid, negative, by rw [calls]; rfl⟩)
  | child pid => exact h.call rfl (by decide) ⟨pid, by rw [calls]; rfl⟩
  | setsid sid =>
    obtain ⟨pid, calls⟩ := calls
    exact h.call rfl (by decide) ⟨pid, sid, by rw [calls]; rfl⟩
  | noSetsid =>
    obtain ⟨pid, calls⟩ := calls
    exact h.call rfl (by decide) (.inr (.inl ⟨pid, by rw [calls]; rfl⟩))
  | chdir path =>
    obtain ⟨pid, sid, calls⟩ := calls
    exact h.call rfl (by decide) ⟨pid, sid, path, by rw [calls]; rfl⟩
  | noChdir path =>
    obtain ⟨pid, sid, calls⟩ := calls
    exact h.call rfl (by decide) (.inr (.inr ⟨pid, sid, path, by rw [calls]; rfl⟩))
  | exitParent =>
    refine h.other rfl nofun ?_
    rintro code ⟨⟩
    exact .inl ⟨rfl, rfl⟩
  | exitFailed =>
    refine h.other rfl nofun ?_
    rintro code ⟨⟩
    exact .inr ⟨rfl, rfl⟩
  | start => exact h.other rfl (fun _ => rfl) nofun
  | stay _ other stays quiet =>
    exact h.other other (fun same => absurd same quiet) fun code same => absurd same (stays code)

/-- **The order of a start-up.** -/
theorem told (path : Path StartupStep .ahead ops st) : Told ops st := by
  have start : Told [] .ahead := ⟨rfl, nofun, nofun⟩
  exact path.invariant start fun _ => Told.step

end Startup

/-! ## The process -/

section Refinement

variable {Dir File : Type} {fs : PathSpace Dir File} {s t : Proc Dir} {l : Label} {op : Op} {st : Startup}

/-- What `daemonize` at a statement tells. -/
def Startup.Inside (st : Startup) : DaemonizePc → Prop
  | .fork => st = .ahead
  | .init | .setsid => st = .child
  | .sighup | .sigterm | .sigkill | .chdir => st = .session
  | .close _ => st = .placed
  | .exit code => code = EXIT_SUCCESS ∧ st = .parent ∨ code = EXIT_FAILURE ∧ st = .failed

/-- The start-up a state stands for. -/
structure StartsUp (st : Startup) (s : Proc Dir) : Prop where
  stacked : WellStacked s.stack
  single : Single s.stack
  within : ∀ f ∈ s.stack, f.Within (st = .ahead) st.Inside (st = .placed)

theorem Entered.startsUp {argv : List Bytes} (h : Entered argv s) : StartsUp .ahead s where
  stacked := h.lives.stacked
  single := h.lives.single
  within f mem := by
    rw [h] at mem
    rcases List.mem_cons.1 mem with rfl | mem
    · exact ⟨fun _ => rfl, nofun⟩
    · obtain rfl := List.mem_singleton.1 mem
      trivial

theorem Frame.awaits_daemonize {f : Frame} (h : f.awaits = some .daemonize) : ∃ argv, f = .run argv .daemonizing := by
  unfold Frame.awaits at h
  split at h
  all_goals cases h
  exact ⟨_, rfl⟩

/-- `daemonize` stands on the call of `run` that waits for it. -/
theorem Frame.on_daemonize {pc : DaemonizePc} {rest : List Frame} (on : (Frame.daemonize pc).On rest) :
    ∃ argv below, rest = .run argv .daemonizing :: below := by
  cases rest with
  | nil => cases on
  | cons g below =>
    obtain ⟨argv, rfl⟩ := Frame.awaits_daemonize on
    exact ⟨argv, below, rfl⟩

/-- Below `daemonize` no call of `run` is ahead of it or behind, and there is no other `daemonize`. -/
theorem within_below {pc : DaemonizePc} {rest : List Frame} {start done : Prop} {inside : DaemonizePc → Prop}
    (stacked : WellStacked s.stack) (single : Single s.stack) (top : s.stack = .daemonize pc :: rest) :
    ∀ f ∈ rest, f.Within start inside done := by
  have placed := stacked.placed
  unfold Single at single
  rw [top] at placed single
  obtain ⟨argv, below, rfl⟩ := Frame.on_daemonize placed.1.2
  have unrun : ∀ g ∈ below, g.kind ≠ .run := single.2.1 rfl
  intro f mem
  rcases List.mem_cons.1 mem with rfl | mem
  · exact ⟨nofun, nofun⟩
  · cases f with
    | run => exact absurd rfl (unrun _ mem)
    | daemonize pc' =>
      obtain ⟨above, below', rfl, -, on⟩ := placed.2.2.of_mem mem
      obtain ⟨argv', below, rfl⟩ := Frame.on_daemonize on
      exact absurd rfl (unrun (.run argv' .daemonizing) (by simp))
    | _ => trivial

/-- A statement of `daemonize` leaves what it knows where it leads. -/
theorem within_daemonize {pc : DaemonizePc} {rest : List Frame} {move : Move} {start done : Prop}
    {inside : DaemonizePc → Prop} (stacked : WellStacked s.stack) (single : Single s.stack)
    (top : s.stack = .daemonize pc :: rest) (after : t.stack = move.apply rest) (h : DaemonizeMove s.world pc op move)
    (target : move.Target inside done) : ∀ f ∈ t.stack, f.Within start inside done := by
  have below : ∀ f ∈ rest, f.Within start inside done := within_below stacked single top
  have on : (Frame.daemonize pc).On rest := (stacked.top top).2
  rw [after]
  cases h with
  | closeLast =>
    obtain ⟨argv, rest, rfl⟩ := Frame.on_daemonize on
    rintro f (_ | mem)
    · exact ⟨nofun, fun _ => target⟩
    · exact below f (List.mem_cons_of_mem _ (by assumption))
  | init | noSetsid | noChdir => exact List.forall_mem_cons.2 ⟨trivial, List.forall_mem_cons.2 ⟨target, below⟩⟩
  | exit => exact List.forall_mem_cons.2 ⟨trivial, below⟩
  | _ => exact List.forall_mem_cons.2 ⟨target, below⟩

/-- The calls of a start-up are those of `daemonize`. -/
theorem daemonize_of_starts (step : s.step fs l = some (op, t)) (starts : op.starts = true) :
    ∃ pc rest move, s.stack = .daemonize pc :: rest ∧ DaemonizeMove s.world pc op move ∧ t.stack = move.apply rest := by
  have own : op.performer? = some .daemonize := by
    cases op with
    | fork | setsid | chdir => rfl
    | _ => cases starts
  have ⟨_, rest, move, top, .daemonize _ h, after⟩ := performs_of_step step own
  exact ⟨_, rest, move, top, h, after⟩

/-- What is no call of a start-up does not move it on. -/
theorem startupStep_of_other (h : StartsUp st s) (step : s.step fs l = some (op, t)) (other : op.starts = false) :
    StartupStep st op st := by
  by_cases stays : (∀ code, op ≠ .exit code) ∧ op ≠ .began .onStart
  · exact .stay st other stays.1 stays.2
  · have main : op.ofMain = true := by
      by_contra
      cases op with
      | exit | began => contradiction
      | _ => exact stays ⟨nofun, nofun⟩
    obtain ⟨f, rest, move, top, moves, -⟩ := moves_of_step step main
    have within := h.within f (top ▸ List.mem_cons_self)
    cases moves with
    | daemonize _ moves =>
      cases moves with
      | exit code =>
        rcases within with ⟨rfl, rfl⟩ | ⟨rfl, rfl⟩
        · exact .exitParent
        · exact .exitFailed
      | parent | noFork | child | setsid | noSetsid | chdir | noChdir => cases other
      | _ => exact absurd ⟨nofun, nofun⟩ stays
    | run _ moves =>
      cases moves with
      | start =>
        obtain rfl : st = .placed := within.2 rfl
        exact .start
      | _ => exact absurd ⟨nofun, nofun⟩ stays
    | exiting => exact absurd ⟨nofun, nofun⟩ stays
    | user moves user =>
      cases moves with
      | _ => exact absurd ⟨nofun, nofun⟩ stays
    | stop _ moves | signalHandler _ moves | fromFile _ moves | lib _ moves | owner _ moves =>
      cases moves
      all_goals exact absurd ⟨nofun, nofun⟩ stays

/-- **Every step of the process is a step of its start-up.** -/
theorem startup_of_step (h : StartsUp st s) (quiet : l.callsRun = false) (step : s.step fs l = some (op, t)) :
    ∃ st', StartupStep st op st' ∧ StartsUp st' t := by
  have stacked := h.stacked.step step
  have single := h.single.step h.stacked quiet step
  cases starts : op.starts with
  | false =>
    refine ⟨st, startupStep_of_other h step starts, stacked, single, ?_⟩
    refine within_step h.stacked step h.within id (fun _ => id) id id ?_ ?_
    · intro loud
      rw [quiet] at loud
      cases loud
    · intro pc move moves inside
      cases moves with
      | parent | noFork | child | setsid | noSetsid | chdir | noChdir => cases starts
      | exit => trivial
      | _ => exact inside
  | true =>
    obtain ⟨pc, rest, move, top, moves, after⟩ := daemonize_of_starts step starts
    have inside : st.Inside pc := h.within (.daemonize pc) (top ▸ List.mem_cons_self)
    have arrives : ∀ {st' : Startup}, StartupStep st op st' → move.Target st'.Inside (st' = .placed) →
        ∃ st', StartupStep st op st' ∧ StartsUp st' t := fun {st'} moved target =>
      ⟨st', moved, stacked, single, within_daemonize h.stacked h.single top after moves target⟩
    cases moves with
    | parent result pid positive =>
      cases inside
      exact arrives (.parent positive pid) (.inl ⟨rfl, rfl⟩)
    | noFork result pid negative =>
      cases inside
      exact arrives (.noFork negative pid) (.inr ⟨rfl, rfl⟩)
    | child pid =>
      cases inside
      exact arrives (.child pid) rfl
    | setsid =>
      cases inside
      exact arrives (.setsid _) rfl
    | noSetsid =>
      cases inside
      exact arrives .noSetsid (.inr ⟨rfl, rfl⟩)
    | chdir =>
      cases inside
      exact arrives (.chdir _) rfl
    | noChdir =>
      cases inside
      exact arrives (.noChdir _) (.inr ⟨rfl, rfl⟩)
    | _ => cases starts

/-- **A run of the process is a start-up**, as long as nobody calls `run`. -/
theorem startup_of_run {argv : List Bytes} {ops : List Op} (entered : Entered argv s)
    (run : (process fs).Run (fun _ l => l.callsRun = false) s ops t) :
    ∃ st, Path StartupStep .ahead ops st ∧ StartsUp st t :=
  Path.simulate (R := (process fs).Steps fun _ l => l.callsRun = false) entered.startsUp
    (fun starts ⟨_, quiet, step⟩ => startup_of_step starts quiet step) run

end Refinement

end Daemonpp
