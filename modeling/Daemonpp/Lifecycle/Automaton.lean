import Daemonpp.Process.World
import Daemonpp.Lib.Path

/-!
# The life of a service

The abstract model of one call of `run`: a phase and the flag `m_is_running`, and
a step relation on the operations of the process that says what a service may do
next. Its traces are what the callbacks promise: the callbacks begun are a prefix
of `on_start`, any number of `on_update`, `on_stop` (`Life.shape`); `on_stop` only
follows a `stop` (`Life.stopped_of_onStop`); behind a `stop` that comes once the
flag was set, the flag stays down and at most one `on_update` is begun
(`Life.updates_behind_stop`). `Daemonpp.Lifecycle.Phase` shows that the process refines it.
-/

namespace Daemonpp

open Lib (Path)

inductive Phase where
  /-- Up to `m_is_running = true`. -/
  | prep
  | ready
  | inStart
  /-- Between `on_start` or an `on_update` and the next test of the flag. -/
  | idle
  /-- The test found the flag up. -/
  | go
  | inUpdate
  /-- The test found it down. -/
  | leaving
  | inStop
  /-- `run` has returned or never will. -/
  | ended
  deriving DecidableEq, Repr

structure Life where
  phase : Phase
  running : Bool
  deriving DecidableEq, Repr

/-- An operation that neither writes the flag nor belongs to a callback of the
main thread. -/
def Op.neutral : Op → Bool
  | .setRunning | .clearRunning _ => false
  | .began cb | .returned cb => cb == .onReload
  | _ => true

inductive LifeStep : Life → Op → Life → Prop where
  | set (up : Bool) : LifeStep ⟨.prep, up⟩ .setRunning ⟨.ready, true⟩
  | start (up : Bool) : LifeStep ⟨.ready, up⟩ (.began .onStart) ⟨.inStart, up⟩
  | started (up : Bool) : LifeStep ⟨.inStart, up⟩ (.returned .onStart) ⟨.idle, up⟩
  | again : LifeStep ⟨.idle, true⟩ .tau ⟨.go, true⟩
  | finish : LifeStep ⟨.idle, false⟩ .tau ⟨.leaving, false⟩
  | update (up : Bool) : LifeStep ⟨.go, up⟩ (.began .onUpdate) ⟨.inUpdate, up⟩
  | updated (up : Bool) : LifeStep ⟨.inUpdate, up⟩ (.returned .onUpdate) ⟨.idle, up⟩
  | stop (up : Bool) : LifeStep ⟨.leaving, up⟩ (.began .onStop) ⟨.inStop, up⟩
  | stopped (up : Bool) : LifeStep ⟨.inStop, up⟩ (.returned .onStop) ⟨.ended, up⟩
  | clear (phase : Phase) (up : Bool) (code : Int) :
      LifeStep ⟨phase, up⟩ (.clearRunning code) ⟨phase, false⟩
  | stay (phase : Phase) (up : Bool) {op : Op} (neutral : op.neutral = true) :
      LifeStep ⟨phase, up⟩ op ⟨phase, up⟩
  | quit (phase : Phase) (up : Bool) {op : Op} (neutral : op.neutral = true) :
      LifeStep ⟨phase, up⟩ op ⟨.ended, up⟩

/-! ## The callbacks begun -/

/-- The callback of the main thread an operation begins. -/
def Op.begins : Op → Option Callback
  | .began .onReload => none
  | .began cb => some cb
  | _ => none

/-- The callbacks of the main thread begun in a run. -/
def begun (ops : List Op) : List Callback := ops.filterMap Op.begins

@[simp] theorem begun_concat (ops : List Op) (op : Op) :
    begun (ops ++ [op]) = begun ops ++ op.begins.toList := by
  unfold begun
  rw [List.filterMap_append]
  cases h : op.begins <;> simp [h]

theorem Op.begins_of_neutral {op : Op} (neutral : op.neutral = true) : op.begins = none := by
  unfold begins
  split
  · rfl
  · rename_i cb other
    exact absurd (eq_of_beq neutral) other
  · rfl

/-- A whole life with `n` updates. -/
def lifecycle (n : Nat) : List Callback := .onStart :: (List.replicate n .onUpdate ++ [.onStop])

/-- What has been begun by the time a phase is reached. -/
def Shape (callbacks : List Callback) : Phase → Prop
  | .prep | .ready => callbacks = []
  | .inStart => callbacks = [.onStart]
  | .idle | .go | .inUpdate | .leaving => ∃ n, callbacks = .onStart :: List.replicate n .onUpdate
  | .inStop => ∃ n, callbacks = lifecycle n
  | .ended => ∃ n, callbacks <+: lifecycle n

theorem Shape.isPrefix {callbacks : List Callback} {phase : Phase} (h : Shape callbacks phase) :
    ∃ n, callbacks <+: lifecycle n := by
  have loop : (∃ n, callbacks = .onStart :: List.replicate n .onUpdate) → ∃ n, callbacks <+: lifecycle n := by
    rintro ⟨n, rfl⟩
    exact ⟨n, [.onStop], rfl⟩
  cases phase with
  | prep | ready => exact ⟨0, h ▸ List.nil_prefix⟩
  | inStart => exact loop ⟨0, h⟩
  | idle | go | inUpdate | leaving => exact loop h
  | inStop =>
    obtain ⟨n, rfl⟩ := h
    exact ⟨n, List.prefix_rfl⟩
  | ended => exact h

theorem Shape.step {callbacks : List Callback} {life life' : Life} {op : Op} (h : Shape callbacks life.phase)
    (step : LifeStep life op life') : Shape (callbacks ++ op.begins.toList) life'.phase := by
  cases step with
  | set | clear | again | finish | updated =>
    show Shape (callbacks ++ []) _
    rw [List.append_nil]
    exact h
  | start =>
    cases h
    rfl
  | started =>
    cases h
    exact ⟨0, rfl⟩
  | update =>
    obtain ⟨n, rfl⟩ := h
    refine ⟨n + 1, ?_⟩
    show _ :: (List.replicate n Callback.onUpdate ++ [Callback.onUpdate]) = _
    rw [List.replicate_succ']
  | stop =>
    obtain ⟨n, rfl⟩ := h
    exact ⟨n, rfl⟩
  | stopped =>
    obtain ⟨n, rfl⟩ := h
    exact ⟨n, by simp [Op.begins]⟩
  | stay _ _ neutral => simpa [Op.begins_of_neutral neutral] using h
  | quit _ _ neutral =>
    rw [Op.begins_of_neutral neutral, Option.toList_none, List.append_nil]
    exact h.isPrefix

/-- `stop` has stored `false` since `run` stored `true`. -/
def StoppedSince (ops : List Op) : Prop :=
  ∃ before after code, ops = before ++ .setRunning :: after ∧ .clearRunning code ∈ after

theorem StoppedSince.snoc {ops : List Op} (h : StoppedSince ops) (op : Op) : StoppedSince (ops ++ [op]) := by
  obtain ⟨before, after, code, rfl, mem⟩ := h
  exact ⟨before, after ++ [op], code, by simp, List.mem_append_left _ mem⟩

theorem stoppedSince_clear {ops : List Op} (set : .setRunning ∈ ops) (code : Int) :
    StoppedSince (ops ++ [.clearRunning code]) := by
  obtain ⟨before, after, rfl⟩ := List.append_of_mem set
  exact ⟨before, after ++ [.clearRunning code], code, by simp, by simp⟩

namespace Life

variable {p : Phase} {up : Bool} {ops : List Op} {life : Life}

/-- **The callbacks of a life**. -/
theorem shape (path : Path LifeStep ⟨.prep, up⟩ ops life) : Shape (begun ops) life.phase := by
  have start : Shape (begun []) (Life.mk .prep up).phase := show begun [] = [] from rfl
  refine path.invariant (I := fun ops life => Shape (begun ops) life.phase) start ?_
  intro ops life op life' _ shape step
  rw [begun_concat]
  exact shape.step step

/-! ## The flag -/

/-- What the flag tells about the past of a life. -/
structure Flagged (ops : List Op) (life : Life) : Prop where
  set : life.phase ≠ .prep → life.phase ≠ .ended → .setRunning ∈ ops
  down : life.phase ≠ .prep → life.phase ≠ .ended → life.running = false → StoppedSince ops
  leaving : life.phase = .leaving → life.running = false

theorem Flagged.of_ended (ended : life.phase = .ended) : Flagged ops life :=
  ⟨fun _ going => absurd ended going, fun _ going => absurd ended going,
    fun leaving => by rw [ended] at leaving; cases leaving⟩

theorem Flagged.step {life' : Life} {op : Op} (h : Flagged ops life) (step : LifeStep life op life') :
    Flagged (ops ++ [op]) life' := by
  -- a phase inside the loop inherits the past of the phase it comes from
  have inherit : ∀ q, life.phase ≠ .prep → life.phase ≠ .ended → (q = .leaving → life.running = false) →
      Flagged (ops ++ [op]) ⟨q, life.running⟩ := by
    intro q begun going leaving
    exact ⟨fun _ _ => List.mem_append_left _ (h.set begun going),
      fun _ _ down => (h.down begun going down).snoc op, leaving⟩
  cases step with
  | set => exact ⟨fun _ _ => by simp, fun _ _ up => (nomatch up), fun same => (nomatch same)⟩
  | start | started | again | update | updated => exact inherit _ nofun nofun nofun
  | finish => exact inherit _ nofun nofun fun _ => rfl
  | stop => exact inherit _ nofun nofun nofun
  | stopped => exact Flagged.of_ended rfl
  | clear phase up code =>
    exact ⟨fun begun going => List.mem_append_left _ (h.set begun going),
      fun begun going _ => stoppedSince_clear (h.set begun going) code, fun _ => rfl⟩
  | stay phase up neutral =>
    exact ⟨fun begun going => List.mem_append_left _ (h.set begun going),
      fun begun going down => (h.down begun going down).snoc op, h.leaving⟩
  | quit => exact Flagged.of_ended rfl

theorem flagged (path : Path LifeStep ⟨.prep, up⟩ ops life) : Flagged ops life := by
  have start : Flagged [] ⟨.prep, up⟩ :=
    ⟨fun begun => absurd rfl begun, fun begun => absurd rfl begun, fun same => by cases same⟩
  exact path.invariant start fun _ => Flagged.step

/-- **`on_stop` is begun behind a `stop` only**. -/
theorem stopped_of_onStop {before after : List Op}
    (path : Path LifeStep ⟨.prep, up⟩ (before ++ .began .onStop :: after) life) : StoppedSince before := by
  obtain ⟨s, t, first, step, -⟩ := path.cut
  have flags := flagged first
  cases step with
  | stop => exact flags.down nofun nofun (flags.leaving rfl)
  | stay _ _ neutral | quit _ _ neutral => cases neutral

/-- The phases behind `m_is_running = true` do not lead back. -/
theorem begun_of_step {life' : Life} {op : Op} (step : LifeStep life op life') (begun : life.phase ≠ .prep) :
    life'.phase ≠ .prep ∧ op ≠ .setRunning := by
  cases step with
  | set => exact absurd rfl begun
  | clear => exact ⟨begun, nofun⟩
  | stay _ _ neutral => exact ⟨begun, fun same => by cases same; cases neutral⟩
  | quit _ _ neutral => exact ⟨nofun, fun same => by cases same; cases neutral⟩
  | _ => exact ⟨nofun, nofun⟩

theorem begun_of_path {life₀ : Life} (path : Path LifeStep life₀ ops life) (begun : life₀.phase ≠ .prep) :
    life.phase ≠ .prep ∧ .setRunning ∉ ops := by
  refine path.invariant (I := fun ops life => life.phase ≠ .prep ∧ .setRunning ∉ ops) ⟨begun, nofun⟩ ?_
  intro ops life op life' _ ih step
  obtain ⟨begun', other⟩ := begun_of_step step ih.1
  exact ⟨begun', by simpa [ih.2] using other.symm⟩

/-- Once the flag is down behind `m_is_running = true`, it stays down. -/
theorem down_of_path {life₀ : Life} (path : Path LifeStep life₀ ops life) (begun : life₀.phase ≠ .prep)
    (down : life₀.running = false) : life.running = false := by
  refine (path.invariant (I := fun _ life => life.phase ≠ .prep ∧ life.running = false) ⟨begun, down⟩ ?_).2
  intro ops life op life' _ ih step
  refine ⟨(begun_of_step step ih.1).1, ?_⟩
  cases step with
  | set => exact absurd rfl ih.1
  | again => exact ih.2
  | finish | clear => rfl
  | _ => exact ih.2

/-- The update that is due: the test has found the flag up. -/
def due : Phase → Nat
  | .go => 1
  | _ => 0

/-- With the flag down, the update that was due is the last. -/
theorem updates_of_path {life₀ : Life} (path : Path LifeStep life₀ ops life) (begun : life₀.phase ≠ .prep)
    (down : life₀.running = false) :
    ops.count (.began .onUpdate) + due life.phase ≤ due life₀.phase := by
  refine path.invariant (I := fun ops life => ops.count (.began .onUpdate) + due life.phase ≤ due life₀.phase)
    (by simp) ?_
  intro ops life op life' before ih step
  have low := down_of_path before begun down
  rw [List.count_append]
  cases step with
  | again => cases low
  | stay phase up neutral =>
    have other : op ≠ .began .onUpdate := by rintro rfl; cases neutral
    rw [List.count_singleton]
    simpa [other] using ih
  | quit phase up neutral =>
    have other : op ≠ .began .onUpdate := by rintro rfl; cases neutral
    rw [List.count_singleton]
    simp only [beq_eq_false_iff_ne.2 other, Bool.false_eq_true, if_false]
    exact Nat.le_trans (Nat.add_le_add_left (Nat.zero_le _) _) ih
  | _ => simpa [due, List.count_singleton] using ih

/-- Until `on_start` returns no update is due. -/
theorem not_due_of_path (path : Path LifeStep ⟨.ready, up⟩ ops life) (open' : .returned .onStart ∉ ops) :
    life.phase = .ready ∨ life.phase = .inStart ∨ life.phase = .ended := by
  refine path.invariant (I := fun ops life => .returned .onStart ∉ ops →
    life.phase = .ready ∨ life.phase = .inStart ∨ life.phase = .ended) (fun _ => .inl rfl) ?_ open'
  intro ops life op life' _ ih step open'
  rw [List.mem_append, not_or] at open'
  have now := ih open'.1
  cases step with
  | start => exact .inr (.inl rfl)
  | started => simp at open'
  | clear | stay => exact now
  | quit => exact .inr (.inr rfl)
  | _ => simp at now

/-- **Updates behind a `stop`**: at most one is begun behind a `stop` that comes
once the flag was set, and none when `on_start` had not returned. -/
theorem updates_behind_stop {before between after : List Op} {code : Int}
    (path : Path LifeStep ⟨.prep, up⟩
      (before ++ .setRunning :: (between ++ .clearRunning code :: after)) life) :
    after.count (.began .onUpdate) ≤ 1 ∧
      (.returned .onStart ∉ between → after.count (.began .onUpdate) = 0) := by
  obtain ⟨_, _, -, set, rest⟩ := path.cut
  obtain ⟨_, _, middle, clear, last⟩ := rest.cut
  cases set with
  | stay _ _ neutral | quit _ _ neutral => cases neutral
  | set =>
    cases clear with
    | stay _ _ neutral | quit _ _ neutral => cases neutral
    | clear phase =>
      have begun := (begun_of_path middle nofun).1
      have bound : after.count (.began .onUpdate) + due life.phase ≤ due phase :=
        updates_of_path last begun rfl
      have one : due phase ≤ 1 := by
        unfold due
        split <;> omega
      refine ⟨by omega, fun open' => ?_⟩
      have none : due phase = 0 := by
        rcases not_due_of_path middle open' with h | h | h <;> cases h <;> rfl
      omega

end Life

end Daemonpp
