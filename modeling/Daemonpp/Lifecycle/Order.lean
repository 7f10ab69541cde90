import Daemonpp.Lifecycle.Phase

/-!
# The order of the callbacks

`callbacks_inOrder`: whatever the callbacks do short of calling `run`, and
whenever signals arrive and other threads call `stop`, the callbacks of one call
of `run` are begun in the order `on_start`, `on_update` any number of times,
`on_stop`. The process is a life (`life_of_run`), and a life has the order.
-/

namespace Daemonpp

/-- The order of the callbacks of one call of `run`, and what a `stop` does to it. -/
structure InOrder (ops : List Op) : Prop where
  /-- The callbacks begun are a prefix of a whole life. -/
  callbacks : ∃ n, begun ops <+: lifecycle n
  /-- `on_stop` is begun behind a `stop` that came once the flag was set. -/
  stop : ∀ before after, ops = before ++ .began .onStop :: after → StoppedSince before
  /-- Behind such a `stop` at most one `on_update` is begun, and none if
  `on_start` had not returned. -/
  updates : ∀ before between after code,
    ops = before ++ .setRunning :: (between ++ .clearRunning code :: after) →
      after.count (.began .onUpdate) ≤ 1 ∧
        (.returned .onStart ∉ between → after.count (.began .onUpdate) = 0)

theorem inOrder_of_life {up : Bool} {ops : List Op} {life : Life}
    (path : Lib.Path LifeStep ⟨.prep, up⟩ ops life) : InOrder ops := by
  refine ⟨(Life.shape path).isPrefix, ?_, ?_⟩
  · rintro before after rfl
    exact Life.stopped_of_onStop path
  · rintro before between after code rfl
    exact Life.updates_behind_stop path

/-- **The callbacks of a call of `run` are begun in order.** -/
theorem callbacks_inOrder {Dir File : Type} {fs : PathSpace Dir File} {argv : List Bytes} {s t : Proc Dir}
    {ops : List Op} (entered : Entered argv s)
    (run : (process fs).Run (fun _ l => l.callsRun = false) s ops t) : InOrder ops := by
  obtain ⟨path, -⟩ := life_of_run (fun _ _ quiet => quiet) entered.lives run
  exact inOrder_of_life path

/-- A whole life: one update, and SIGTERM while `run` waits for the next. -/
def wholeLife : List Label :=
  List.flatten [bootHandlers, bootDone, bootStart, startReturns, statements 2, [.user .ret], statements 3,
    handleTerm, [.main .notified], statements 4, [.user .ret], statements 1]

theorem callbacks_inOrder_wholeLife :
    ∃ ops t, (process lexical).Run (fun _ l => l.callsRun = false) entry ops t ∧
      begun ops = [.onStart, .onUpdate, .onStop] ∧ InOrder ops := by
  obtain ⟨ops, t, run, all⟩ := (process lexical).exists_run (C := fun _ l => l.callsRun = false)
    (P := fun ops _ => begun ops = lifecycle 1) wholeLife (s := entry) rfl
  exact ⟨ops, t, run, of_decide_eq_true all, callbacks_inOrder (show Entered [] entry from rfl) run⟩

end Daemonpp
