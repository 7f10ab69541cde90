import Daemonpp.Process.Locks

/-!
# `run` inside `run`

`run` refuses to be called again by a test of `m_is_running`, which is false before
it sets it and after any `stop`, although it has not returned. A call of `run` made
inside another one is without effect as long as its test finds the flag set
(`nested_refused`); behind a `stop` it is not, and forks the daemon once more
(`nested_forks`).
-/

namespace Daemonpp

open Lib (Layered)

/-- A call of `run` that is made inside another one finds `m_is_running` set. -/
def guarded {Dir : Type} (s : Proc Dir) : Label → Bool
  | .main _ => match s.stack with
    | .run _ .guard :: below => s.world.obj.isRunning || !below.any fun g => g.kind == .run
    | _ => true
  | _ => true

/-- The innermost frame is that of a call of `run` inside another one, or of its message. -/
def Nested : List Frame → Prop
  | .run _ _ :: below => ∃ g ∈ below, g.kind = .run
  | .lib _ _ :: .run _ _ :: below => ∃ g ∈ below, g.kind = .run
  | _ => False

/-- A call of `run` inside another one is at its test, or about to return. -/
def Frame.Parked (f : Frame) (below : List Frame) : Prop :=
  ∀ argv pc, f = .run argv pc → (∃ g ∈ below, g.kind = .run) → pc = .guard ∨ pc = .ret

/-- An operation that forks nothing, calls nobody and leaves the object as it is. -/
def Op.silent : Op → Bool
  | .tau | .acquire _ | .finish _ _ => true
  | _ => false

section Run

variable {Dir File : Type} {fs : PathSpace Dir File} {s t : Proc Dir} {l : Label} {op : Op} {ops : List Op}

/-- Calls of `run` made inside another one have no effect. -/
structure NestedRefused (fs : PathSpace Dir File) (s : Proc Dir) : Prop where
  parked : Layered Frame.Parked s.stack
  silent : Nested s.stack → ∀ r op t, s.step fs (.main r) = some (op, t) →
    op.silent = true ∧ t.world.obj = s.world.obj
  returns : ∀ argv below, s.stack = .run argv .guard :: below → s.world.status = .alive →
    s.world.obj.isRunning = true → ∃ ops t, (process fs).Run (fun s l => guarded s l = true) s ops t ∧
      t.stack = below ∧ t.world.obj = s.world.obj

/-! ## A refused call returns -/

theorem Op.apply_of_silent (fs : PathSpace Dir File) (w : World Dir) {op : Op} (silent : op.silent = true) :
    (op.apply fs w).obj = w.obj ∧ (op.apply fs w).status = w.status := by
  rw [op.apply_eq]
  cases op with
  | tau | acquire | finish => exact ⟨rfl, rfl⟩
  | _ => cases silent

theorem guarded_of_lib {calls : List LibCall} {inside : Bool} {rest : List Frame} (r : Reply)
    (top : s.stack = .lib calls inside :: rest) : guarded s (.main r) = true := by
  simp only [guarded, top]

/-- Library calls return when no lock is taken. -/
theorem lib_returns (fs : PathSpace Dir File) (calls : List LibCall) {rest : List Frame}
    (top : s.stack = .lib calls false :: rest) (alive : s.world.status = .alive) (free : s.world.held = []) :
    ∃ ops t, (process fs).Run (fun s l => guarded s l = true) s ops t ∧ t.stack = rest ∧
      t.world.obj = s.world.obj ∧ t.world.status = .alive := by
  induction calls generalizing s with
  | nil =>
    have step := step_of_next fs (r := .done) alive top rfl
    exact ⟨_, _, .snoc .start ⟨_, guarded_of_lib _ top, step⟩, rfl, rfl, alive⟩
  | cons call calls ih =>
    have enters : Frame.next s.world (.lib (call :: calls) false) .done =
        some (.acquire call, .goto (.lib (call :: calls) true)) := by
      simp [Frame.next, libNext, free]
    have taken := Op.apply_of_silent fs s.world (show (Op.acquire call).silent = true from rfl)
    have given := Op.apply_of_silent fs ((Op.acquire call).apply fs s.world)
      (show (Op.finish call .ok).silent = true from rfl)
    have take := step_of_next fs alive top enters
    have give := step_of_next fs (r := .ok true)
      (s := ⟨.lib (call :: calls) true :: rest, (Op.acquire call).apply fs s.world, s.threads⟩)
      (taken.2.trans alive) rfl rfl
    have free' : ((Op.finish call .ok).apply fs ((Op.acquire call).apply fs s.world)).held = [] := by
      rw [Op.apply_held, Op.apply_held, free]
      simp [Op.heldAfter]
    obtain ⟨ops, t, run, stack, obj, status⟩ := ih
      (s := ⟨.lib calls false :: rest, (Op.finish call .ok).apply fs ((Op.acquire call).apply fs s.world), s.threads⟩)
      rfl ((given.2.trans taken.2).trans alive) free'
    refine ⟨_, t, .trans (.snoc (.snoc .start ⟨_, guarded_of_lib _ top, take⟩) ⟨_, guarded_of_lib _ rfl, give⟩) run,
      stack, ?_, status⟩
    rw [obj, given.1, taken.1]

/-- A call of `run` that finds the flag set logs and returns. -/
theorem refused_returns (fs : PathSpace Dir File) {argv : List Bytes} {below : List Frame}
    (top : s.stack = .run argv .guard :: below) (alive : s.world.status = .alive)
    (up : s.world.obj.isRunning = true) (free : s.world.held = []) :
    ∃ ops t, (process fs).Run (fun s l => guarded s l = true) s ops t ∧
      t.stack = below ∧ t.world.obj = s.world.obj := by
  have refuses : Frame.next s.world (.run argv .guard) .done =
      some (.tau, .call (.run argv .ret) (.lib logCalls false)) := by
    simp [Frame.next, runNext, up]
  have refuse := step_of_next fs alive top refuses
  have allowed : guarded s (.main .done) = true := by simp [guarded, top, up]
  obtain ⟨ops, t, run, stack, obj, status⟩ := lib_returns fs logCalls
    (s := ⟨.lib logCalls false :: .run argv .ret :: below, s.world, s.threads⟩) rfl alive free
  have return' := step_of_next fs (r := .done) status stack rfl
  refine ⟨_, _, .snoc (.trans (.snoc .start ⟨_, allowed, refuse⟩) run) ⟨.main .done, ?_, return'⟩, rfl, obj⟩
  simp [guarded, stack]

/-! ## Every call that finds the flag set is refused -/

theorem Frame.Parked.resume {f : Frame} {below : List Frame} (value : Option Dconfig) (parked : f.Parked below) :
    (f.resume value).Parked below := by
  intro argv pc same inside
  cases f using Frame.resume_cases with
  | stays f stays => exact parked argv pc ((stays value).symm.trans same) inside
  | stopped | loaded | reloaded => cases same
  | _ => rcases parked _ _ rfl inside with waits | waits <;> cases waits

/-- What is not `run` waits for no test. -/
theorem Frame.parked_of_kind {f : Frame} {below : List Frame} (other : f.kind ≠ .run) : f.Parked below := by
  rintro argv pc rfl
  exact absurd rfl other

/-- A call of `run` inside another one that is refused stays without effect. -/
theorem RunMove.parked {w : World Dir} {argv : List Bytes} {pc : RunPc} {move : Move} {rest : List Frame}
    (h : RunMove w argv pc op move) (parked : Frame.Parked (.run argv pc) rest)
    (quiet : pc = .guard → (∃ g ∈ rest, g.kind = .run) → w.obj.isRunning = true) : move.Keeps Frame.Parked rest := by
  have next : ∀ pc', (pc = .guard → w.obj.isRunning = false) → pc ≠ .ret → Frame.Parked (.run argv pc') rest := by
    intro pc' down stays argv' pc'' same inside
    rcases parked _ _ rfl inside with rfl | rfl
    · cases (quiet rfl inside).symm.trans (down rfl)
    · exact absurd rfl stays
  cases h with
  | refuse =>
    refine ⟨?_, Frame.parked_of_kind nofun⟩
    rintro _ _ ⟨⟩ -
    exact .inr rfl
  | guard down => exact next _ (fun _ => down) nofun
  | ret => trivial
  | found | missing | daemonize | config | start | started | update | stop =>
    exact ⟨next _ nofun nofun, Frame.parked_of_kind nofun⟩
  | _ => exact next _ nofun nofun

/-- `run` is called at its test. -/
theorem Moves.call_run {w : World Dir} {f f' : Frame} {argv : List Bytes} {pc : RunPc}
    (h : Moves w f l op (.call f' (.run argv pc))) : pc = .guard := by
  cases h with
  | user h =>
    cases h with
    | run => rfl
  | run _ h | daemonize _ h | stop _ h | signalHandler _ h | fromFile _ h | lib _ h | owner _ h => cases h

theorem parked_step (h : Layered Frame.Parked s.stack) (stacked : WellStacked s.stack) (quiet : guarded s l = true)
    (step : s.step fs l = some (op, t)) : Layered Frame.Parked t.stack := by
  refine layered_step step h ?_ fun sig _ _ => Frame.parked_of_kind nofun
  intro f rest move top moves parked
  by_cases kind : f.kind = .run
  · cases moves with
    | run r h =>
      refine h.parked parked fun at' inside => ?_
      obtain ⟨g, mem, run⟩ := inside
      subst at'
      have refused : s.world.obj.isRunning = true ∨ ∀ g ∈ rest, g.kind ≠ .run := by
        simpa [guarded, top] using quiet
      exact refused.resolve_right fun none => none g mem run
    | @user f _ _ _ _ user =>
      cases f with
      | run => cases user
      | _ => cases kind
    | _ => cases kind
  · have kinds := moves.ofKind (stacked.top top).1
    cases move with
    | goto f' =>
      refine Frame.parked_of_kind ?_
      rcases kinds with same | rfl
      · exact same ▸ kind
      · nofun
    | call f' g =>
      refine ⟨Frame.parked_of_kind (kinds.1 ▸ kind), ?_⟩
      rintro argv pc rfl -
      exact .inl moves.call_run
    | ret value => exact fun g below _ parked => parked.resume value
    | leave => trivial

/-- The statements of a refused call. -/
theorem silent_of_parked (h : Layered Frame.Parked s.stack) (nested : Nested s.stack) {r : Reply}
    (step : s.step fs (.main r) = some (op, t)) : op.silent = true ∧ t.world.obj = s.world.obj := by
  obtain ⟨-, world, cases⟩ := step_cases step
  suffices silent : op.silent = true from ⟨silent, by rw [world, (Op.apply_of_silent fs s.world silent).1]⟩
  cases cases with
  | signal label => cases label
  | thread _ _ label => rcases label with ⟨_, same⟩ | ⟨_, same⟩ <;> cases same
  | move top moves after =>
    rw [top] at h nested
    cases moves with
    | run _ move =>
      rcases h.1 _ _ rfl nested with rfl | rfl <;> cases move <;> rfl
    | lib _ move => cases move <;> rfl
    | _ => cases nested

/-- **A call of `run` inside another one has no effect** and returns, in every run in which
each such call finds `m_is_running` set. -/
theorem nested_refused {obj : Object} {pid : Nat} {cwd : Dir}
    (run : (process fs).Run (fun s l => guarded s l = true) (Proc.launch obj pid cwd) ops t) :
    NestedRefused fs t := by
  have known : WellStacked t.stack ∧ Locked t ∧ Layered Frame.Parked t.stack := by
    refine run.always (I := fun t => WellStacked t.stack ∧ Locked t ∧ Layered Frame.Parked t.stack)
      ⟨stacked_launch obj pid cwd, locked_launch obj pid cwd, Frame.parked_of_kind nofun, trivial⟩ ?_
    rintro u op v ⟨stacked, locked, parked⟩ ⟨l, quiet, step⟩
    exact ⟨stacked.step step, locked.step step, parked_step parked stacked quiet step⟩
  obtain ⟨stacked, locked, parked⟩ := known
  exact ⟨parked, fun nested r op v step => silent_of_parked parked nested step,
    fun argv below top alive up => refused_returns fs top alive up (locked.free stacked top (.inr rfl))⟩

end Run

/-- `on_start` calls `run` while the service is running. -/
def runInStart : List Label :=
  List.flatten [[.user (.run [])], bootHandlers, bootDone, bootStart,
    [.user (.run [bytes "--config", bytes "/etc/other"])]]

theorem nested_refused_runInStart : ∃ ops t,
    (process lexical).Run (fun s l => guarded s l = true) fresh ops t ∧ t.stack.length = 4 ∧
      NestedRefused lexical t := by
  obtain ⟨ops, t, run, deep⟩ := (process lexical).exists_run (C := fun s l => guarded s l = true)
    (P := fun _ t => t.stack.length = 4) runInStart (s := fresh) rfl
  exact ⟨ops, t, run, of_decide_eq_true deep, nested_refused run⟩

/-- `on_start` calls `stop` and then `run`, which forks; its parent exits. -/
def stopAndRun : List Label :=
  List.flatten [[.user (.run [])], bootHandlers, bootDone, bootStart, [.user (.stop EXIT_SUCCESS)], statements 3,
    [.user (.run [])], statements 3, [.main (.fork 3 3)], statements 1]

/-- **A second daemon**: behind a `stop` in `on_start`, a call of `run` forks again, and the
process that was running exits without `on_stop`. -/
theorem nested_forks : ∃ ops t, (process lexical).Run (fun _ _ => True) fresh ops t ∧
    .fork 0 2 ∈ ops ∧ .fork 3 3 ∈ ops ∧ .exit EXIT_SUCCESS ∈ ops ∧ .began .onStop ∉ ops ∧
      ¬ NestedRefused lexical t := by
  obtain ⟨ops, t, run, all⟩ := (process lexical).exists_run (C := fun _ _ => True)
    (P := fun ops t => .fork 0 2 ∈ ops ∧ .fork 3 3 ∈ ops ∧ .exit EXIT_SUCCESS ∈ ops ∧ .began .onStop ∉ ops ∧
      t.stack =
        [.exiting, .run [] .daemonizing, .callback .onStart (some {}), .run [] (.called .onStart), .owner .live])
    stopAndRun (s := fresh) rfl
  obtain ⟨first, second, exits, none, stack⟩ := of_decide_eq_true all
  refine ⟨ops, t, run, first, second, exits, none, fun refused => ?_⟩
  have parked := refused.parked
  rw [stack] at parked
  rcases parked.2.1 [] .daemonizing rfl ⟨.run [] (.called .onStart), by simp, rfl⟩ with waits | waits <;> cases waits

end Daemonpp
