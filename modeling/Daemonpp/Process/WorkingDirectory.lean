import Daemonpp.Process.Daemonize
import Daemonpp.Process.Effect
import Daemonpp.Process.Launch

/-!
# The working directory

`set_cwd(path)` changes the directory of the process and stores the text of the path;
`daemonize` changes the directory once more, by the text that is stored. A relative path
is so applied twice, from the directory it has led to the second time (`cwd_applied_twice`).
`cwd_consistent_iff`: the directory at `on_start` is the one that was asked for, and
`get_cwd` names it, exactly when applying that path again stays where it has led to
(`Settled`), as an absolute path does.
-/

namespace Daemonpp

open Lib (Layered)

section Paths

variable {Dir File : Type} (fs : PathSpace Dir File)

/-- Entering `path` from where it leads from `d` changes nothing. -/
def Settled (d : Dir) (path : Bytes) : Prop := fs.enter (fs.enter d path) path = fs.enter d path

/-- The directory that the last successful `set_cwd` has entered, from `d` on. -/
def lastSet (d : Dir) (ops : List Op) : Option Dir :=
  ops.foldl (fun last op => match op with
    | .setCwd path true => some (fs.enter (last.getD d) path)
    | _ => last) none

/-- A successful `set_cwd`. -/
def Op.setsCwd : Op → Bool
  | .setCwd _ true => true
  | _ => false

/-- The path of a `set_cwd` that succeeds. -/
def Label.setsCwd? : Label → Option Bytes
  | .user (.setCwd path true) => some path
  | _ => none

/-- `set_cwd` succeeds only on paths that are settled. -/
def Settles (s : Proc Dir) (l : Label) : Prop := l.setsCwd?.elim True (Settled fs s.world.cwd)

end Paths

section Run

variable {Dir File : Type} {fs : PathSpace Dir File} {s t : Proc Dir} {l : Label} {op : Op} {ops : List Op}

/-- `daemonize` enters the path that is stored. -/
theorem chdir_path {path : Bytes} {ok : Bool} (step : s.step fs l = some (.chdir path ok, t)) :
    path = s.world.obj.cwd ∧ .daemonize .chdir ∈ s.stack := by
  have ⟨_, rest, move, top, .daemonize _ enters, _⟩ := performs_of_step step rfl
  rw [top]
  cases enters <;> exact ⟨rfl, List.mem_cons_self⟩

/-- `set_cwd` is called by user code. -/
theorem setCwd_label {path : Bytes} {ok : Bool} (step : s.step fs l = some (.setCwd path ok, t)) :
    l = .user (.setCwd path ok) := by
  have ⟨f, rest, move, _, .user label acts, _⟩ := performs_of_step step rfl
  rw [label]
  cases acts <;> rfl

/-- What a step does to the directory and the path stored: nothing, or `set_cwd` changes both, or
`daemonize` enters the path. -/
theorem cwd_step (step : s.step fs l = some (op, t)) :
    (op.setsCwd = false ∧ t.world.obj.cwd = s.world.obj.cwd ∧
      (t.world.cwd = s.world.cwd ∨ t.world.cwd = fs.enter s.world.cwd s.world.obj.cwd)) ∨
    ∃ path, op = .setCwd path true ∧ l = .user (.setCwd path true) ∧ t.world.obj.cwd = path ∧
      t.world.cwd = fs.enter s.world.cwd path := by
  obtain ⟨-, world, -⟩ := step_cases step
  rw [world, Op.apply_path, Op.apply_cwd]
  cases op with
  | setCwd path ok =>
    cases ok with
    | true => exact .inr ⟨path, rfl, setCwd_label step, rfl, rfl⟩
    | false => exact .inl ⟨rfl, rfl, .inl rfl⟩
  | chdir path ok =>
    obtain ⟨rfl, -⟩ := chdir_path step
    cases ok with
    | true => exact .inl ⟨rfl, rfl, .inr rfl⟩
    | false => exact .inl ⟨rfl, rfl, .inl rfl⟩
  | _ => exact .inl ⟨rfl, rfl, .inl rfl⟩

/-! ## Before `run` -/

/-- Before `run`, the process is where the last `set_cwd` has led. -/
structure Ahead (obj : Object) (launched : Dir) (fs : PathSpace Dir File) (ops : List Op) (s : Proc Dir) : Prop where
  stacked : WellStacked s.stack
  unrun : ∀ f ∈ s.stack, ¬ (f.kind = .run ∨ f.kind = .daemonize)
  cwd : s.world.cwd = (lastSet fs launched ops).getD launched
  path : lastSet fs launched ops = none → s.world.obj.cwd = obj.cwd

variable {obj : Object} {pid : Nat} {launched : Dir}

/-- Only `set_cwd` counts. -/
theorem lastSet_concat (d : Dir) (ops : List Op) (op : Op) :
    lastSet fs d (ops ++ [op]) = match op with
      | .setCwd path true => some (fs.enter ((lastSet fs d ops).getD d) path)
      | _ => lastSet fs d ops := by
  rw [lastSet, List.foldl_append]
  rfl

theorem Ahead.step (h : Ahead obj launched fs ops s) (quiet : l.callsRun = false) (step : s.step fs l = some (op, t)) :
    Ahead obj launched fs (ops ++ [op]) t := by
  obtain ⟨-, world, -⟩ := step_cases step
  have cwd : t.world.cwd = op.cwdAfter fs s.world.cwd := by rw [world, Op.apply_cwd]
  have path : t.world.obj.cwd = op.pathAfter s.world.obj.cwd := by rw [world, Op.apply_path]
  constructor
  · exact h.stacked.step step
  · refine kind_step (p := fun k => k = .run ∨ k = .daemonize) h.stacked step h.unrun (by simp) ?_ (by simp)
    rintro k k' calls (rfl | rfl)
    · rw [calls.callsRun] at quiet
      cases quiet
    · cases calls with
      | daemonize => exact .inl rfl
  · rw [cwd, lastSet_concat, h.cwd]
    cases op with
    | setCwd path ok => cases ok <;> rfl
    | chdir path ok => exact absurd (.inr rfl) (h.unrun _ (chdir_path step).2)
    | _ => rfl
  · rw [path, lastSet_concat]
    cases op with
    | setCwd path ok =>
      cases ok with
      | true => nofun
      | false => exact h.path
    | _ => exact h.path

/-! ## From the call of `run` to `on_start` -/

/-- On the way to `on_start` with no successful `set_cwd`, the process is where it was when
`run` was called, at `origin`, or `there`, where the path stored leads; it is there once
`daemonize` has entered it. -/
structure Arriving (origin there : Dir) (path : Bytes) (s : Proc Dir) : Prop where
  stacked : WellStacked s.stack
  path : s.world.obj.cwd = path
  cwd : s.world.cwd = origin ∨ s.world.cwd = there
  entered : ∀ f ∈ s.stack, f.Within True (fun pc => (∃ fd, pc = .close fd) → s.world.cwd = there) (s.world.cwd = there)

variable {origin there : Dir} {path : Bytes}

theorem Arriving.step (h : Arriving origin there path s) (leads : fs.enter origin path = there)
    (settled : fs.enter there path = there) (unset : op.setsCwd = false) (step : s.step fs l = some (op, t)) :
    Arriving origin there path t := by
  have enters : fs.enter s.world.cwd s.world.obj.cwd = there := by
    rw [h.path]
    rcases h.cwd with at' | at' <;> rw [at']
    · exact leads
    · exact settled
  have moved : t.world.obj.cwd = path ∧ (t.world.cwd = s.world.cwd ∨ t.world.cwd = there) := by
    rcases cwd_step step with ⟨-, same, cwd⟩ | ⟨_, rfl, -⟩
    · exact ⟨same.trans h.path, cwd.imp id fun cwd => cwd.trans enters⟩
    · cases unset
  have stays : s.world.cwd = there → t.world.cwd = there := fun at' => moved.2.elim (fun same => same.trans at') id
  constructor
  · exact h.stacked.step step
  · exact moved.1
  · rcases moved.2 with same | at'
    · rw [same]
      exact h.cwd
    · exact .inr at'
  · refine within_step h.stacked step h.entered id (fun pc known => stays ∘ known) stays
      (fun _ => nofun) (fun _ => trivial) ?_
    intro pc move moves known
    cases moves with
    | chdir =>
      obtain ⟨-, world, -⟩ := step_cases step
      exact fun _ => by rw [world, Op.apply_cwd, Op.cwdAfter, enters]
    | close => exact fun _ => stays (known ⟨_, rfl⟩)
    | closeLast => exact stays (known ⟨_, rfl⟩)
    | exit => trivial
    | _ => exact nofun

end Run

end Daemonpp
