import Daemonpp.Process.Effect
import Daemonpp.Process.Launch

/-!
# The wakeup at `stop`

`wait_for` tests its predicate, blocks, and tests it again when it is woken up;
`stop` stores `false` and notifies without taking `m_mutex`. If it does both between
the test and the block, nobody is there to be notified, and the main thread sleeps
although the stop is complete (`wakeup_lost`). It never does when no notification
falls into that gap and `run` does not overwrite the flag (`no_lost_wakeup`): behind a
notification no wait begins, and those in progress are due to end (`Notified`).
-/

namespace Daemonpp

/-- Between the test of the predicate and the block. -/
def Frame.blocking : Frame → Bool
  | .run _ .block => true
  | _ => false

/-- A step that notifies finds nobody between the test of the predicate and the block. -/
def notifiesApart {Dir : Type} (s : Proc Dir) (l : Label) : Bool :=
  match s.control l with
  | some (.notifyAll _, _) => !s.stack.any Frame.blocking
  | _ => true

/-- A stop has stored `false`. -/
def Lowered (ops : List Op) : Prop := ∃ code, .clearRunning code ∈ ops

def Op.lowers : Op → Bool
  | .clearRunning _ => true
  | _ => false

/-- `run` sets the flag ahead of every stop that lowers it. -/
def SetFirst (ops : List Op) : Prop :=
  ops.Pairwise fun earlier later => ¬ (earlier.lowers = true ∧ later = .setRunning)

instance (ops : List Op) : Decidable (SetFirst ops) := inferInstanceAs (Decidable (List.Pairwise _ ops))

/-- A stop has completed its `notify_all`. -/
def Stopped (ops : List Op) : Prop := ∃ handler, .notifyAll handler ∈ ops

/-- The main thread is blocked in the wait, and no wakeup is due to it. -/
def Proc.Asleep {Dir : Type} (s : Proc Dir) : Prop :=
  (∃ argv rest, s.stack = .run argv .blocked :: rest) ∧ s.world.waiters.head? = some false

section Run

variable {Dir File : Type} {fs : PathSpace Dir File} {s t : Proc Dir} {l : Label} {op : Op} {ops : List Op}

/-- What a run tells about the stops in it. -/
structure Notified (ops : List Op) (s : Proc Dir) : Prop where
  /-- A `stop` notifies behind storing `false`. -/
  frames : ∀ handler code, .stop handler code .notify ∈ s.stack → Lowered ops
  threads : ∀ code, (code, .notify) ∈ s.threads → Lowered ops
  lowered : Stopped ops → Lowered ops
  down : Lowered ops → s.world.obj.isRunning = false
  /-- Behind a notification nobody blocks any more, and who is blocked is woken up. -/
  clear : Stopped ops → ∀ f ∈ s.stack, f.blocking = false
  due : Stopped ops → ∀ woken ∈ s.world.waiters, woken = true

theorem notified_launch (obj : Object) (pid : Nat) (cwd : Dir) : Notified [] (Proc.launch obj pid cwd) where
  frames _ _ mem := by simp [Proc.launch] at mem
  threads := nofun
  lowered := nofun
  down := nofun
  clear := nofun
  due := nofun

/-- Nobody comes to the block but by the test that finds the flag up. -/
theorem blocking_step (step : s.step fs l = some (op, t)) (down : s.world.obj.isRunning = false)
    (here : ∀ f ∈ s.stack, f.blocking = false) : ∀ f ∈ t.stack, f.blocking = false := by
  intro f mem
  unfold Frame.blocking
  split
  · rename_i argv
    cases run_origin step mem with
    | before mem => exact here _ mem
    | goto mem moves =>
      cases moves with
      | sleep up => cases up.symm.trans down
    | call _ moves => cases moves
    | @back pc _ value mem resumes =>
      cases pc with
      | called cb => cases cb <;> cases resumes
      | block => exact here _ mem
      | _ => cases resumes
  · rfl

/-- A step that blocks is that of a frame at the block. -/
theorem blocking_of_wait (step : s.step fs l = some (.wait, t)) : ∃ f ∈ s.stack, f.blocking = true := by
  have ⟨_, rest, move, top, .run _ blocks, _⟩ := performs_of_step step rfl
  cases blocks with
  | block => exact ⟨_, top ▸ List.mem_cons_self, rfl⟩

/-- A notification comes from a `stop` that was about to notify, with nobody at the block. -/
theorem notify_from {handler : Bool} (step : s.step fs l = some (.notifyAll handler, t)) :
    (∃ handler code, .stop handler code .notify ∈ s.stack) ∨ ∃ code, (code, .notify) ∈ s.threads := by
  obtain ⟨-, -, cases⟩ := step_cases step
  cases cases with
  | signal _ performs => cases performs
  | thread performs =>
    generalize t.threads = threads at performs
    cases performs with
    | notify at' => exact .inr ⟨_, List.mem_of_getElem? at'⟩
  | move top moves =>
    rw [top]
    cases moves with
    | @stop handler code _ _ _ _ h =>
      cases h with
      | notify => exact .inl ⟨handler, code, List.mem_cons_self⟩
    | run _ h | daemonize _ h | signalHandler _ h | fromFile _ h | lib _ h | owner _ h | user h => cases h

theorem notifiesApart_iff {handler : Bool} (step : s.step fs l = some (.notifyAll handler, t)) :
    notifiesApart s l = true ↔ ∀ f ∈ s.stack, f.blocking = false := by
  unfold Proc.step at step
  split at step
  · obtain ⟨⟨op, stack, threads⟩, control, same⟩ := Option.map_eq_some_iff.1 step
    cases same
    simp [notifiesApart, control]
  · cases step

theorem Lowered.snoc (h : Lowered ops) (op : Op) : Lowered (ops ++ [op]) := h.imp fun _ => List.mem_append_left _

theorem Notified.step (h : Notified ops s) (apart : notifiesApart s l = true)
    (first : op = .setRunning → ¬ Lowered ops) (step : s.step fs l = some (op, t)) : Notified (ops ++ [op]) t := by
  obtain ⟨-, world, -⟩ := step_cases step
  -- a notification falls on nobody at the block, and behind one nobody is there
  have stopped : Stopped (ops ++ [op]) → Lowered ops ∧ ∀ f ∈ s.stack, f.blocking = false := by
    rintro ⟨handler, mem⟩
    rcases List.mem_append.1 mem with mem | now
    · exact ⟨h.lowered ⟨handler, mem⟩, h.clear ⟨handler, mem⟩⟩
    · obtain rfl := List.mem_singleton.1 now
      refine ⟨?_, (notifiesApart_iff step).1 apart⟩
      rcases notify_from step with ⟨handler, code, mem⟩ | ⟨code, mem⟩
      · exact h.frames handler code mem
      · exact h.threads code mem
  constructor
  · intro handler code mem
    cases stop_origin step mem with
    | before mem => exact (h.frames handler code mem).snoc op
    | lowered performs => exact ⟨code, List.mem_append_right _ (List.mem_singleton.2 performs.symm)⟩
  · intro code mem
    cases thread_origin step mem with
    | before mem => exact (h.threads code mem).snoc op
    | lowered performs => exact ⟨code, List.mem_append_right _ (List.mem_singleton.2 performs.symm)⟩
  · exact fun notified => (stopped notified).1.snoc op
  · rintro ⟨code, mem⟩
    rw [world, Op.apply_isRunning]
    rcases List.mem_append.1 mem with before | now
    · unfold Op.isRunning
      split
      · exact absurd ⟨code, before⟩ (first rfl)
      · rfl
      · exact h.down ⟨code, before⟩
    · obtain rfl := List.mem_singleton.1 now
      rfl
  · intro notified
    obtain ⟨lowered, clear⟩ := stopped notified
    exact blocking_step step (h.down lowered) clear
  · intro notified woken mem
    obtain ⟨-, clear⟩ := stopped notified
    have earlier : (∀ handler, op ≠ .notifyAll handler) → Stopped ops := by
      rintro other
      obtain ⟨handler, mem⟩ := notified
      rcases List.mem_append.1 mem with before | now
      · exact ⟨handler, before⟩
      · exact absurd (List.mem_singleton.1 now).symm (other handler)
    rw [world, Op.apply_waiters] at mem
    unfold Op.waitersAfter at mem
    split at mem
    · obtain ⟨_, -, rfl⟩ := List.mem_map.1 mem
      rfl
    · obtain ⟨f, at', blocks⟩ := blocking_of_wait step
      rw [clear f at'] at blocks
      cases blocks
    · exact h.due (earlier nofun) woken (List.mem_of_mem_tail mem)
    · rename_i other _ _
      exact h.due (earlier other) woken mem

/-- **No wakeup is lost** in a run in which no stop notifies between the test of the
predicate and the block, and `run` sets the flag ahead of the stops: once a stop has
completed its notification, the main thread does not sleep. -/
theorem no_lost_wakeup {obj : Object} {pid : Nat} {cwd : Dir}
    (run : (process fs).Run (fun s l => notifiesApart s l = true) (Proc.launch obj pid cwd) ops t)
    (first : SetFirst ops) (stopped : Stopped ops) : ¬ t.Asleep := by
  have notified : Notified ops t := by
    refine run.invariant (I := fun ops t => SetFirst ops → Notified ops t)
      (fun _ => notified_launch obj pid cwd) ?_ first
    rintro ops u op v - ih ⟨l, apart, step⟩ first
    obtain ⟨earlier, -, last⟩ := List.pairwise_append.1 first
    refine (ih earlier).step apart ?_ step
    rintro rfl ⟨code, lowers⟩
    exact last _ lowers _ (List.mem_singleton_self _) ⟨rfl, rfl⟩
  rintro ⟨-, asleep⟩
  have woken := notified.due stopped false (List.mem_of_mem_head? asleep)
  cases woken

end Run

/-- `run` up to where the loop has found the predicate false, ahead of its block. -/
def toBlock : List Label :=
  List.flatten [[.user (.run [])], bootHandlers, bootDone, bootStart, startReturns, statements 2, [.user .ret],
    statements 2]

/-- The loop is blocked, and another thread calls `stop`. -/
def stopAsleep : List Label :=
  List.flatten [toBlock, statements 1, [.enter EXIT_SUCCESS, .thread 0, .thread 0, .thread 0]]

theorem no_lost_wakeup_stopAsleep : ∃ ops t,
    (process lexical).Run (fun s l => notifiesApart s l = true) fresh ops t ∧
      t.stack = [.run [] .blocked, .owner .live] ∧ Stopped ops ∧ ¬ t.Asleep := by
  obtain ⟨ops, t, run, all⟩ := (process lexical).exists_run (C := fun s l => notifiesApart s l = true)
    (P := fun ops t => t.stack = [.run [] .blocked, .owner .live] ∧ .notifyAll false ∈ ops ∧ SetFirst ops)
    stopAsleep (s := fresh) rfl
  obtain ⟨stack, notified, first⟩ := of_decide_eq_true all
  exact ⟨ops, t, run, stack, ⟨false, notified⟩, no_lost_wakeup run first ⟨false, notified⟩⟩

/-- **A lost wakeup**: a stop, by SIGTERM or by another thread, that falls between the test of
the predicate and the block is complete, and the main thread sleeps. -/
theorem wakeup_lost :
    (∃ ops t, (process lexical).Run (fun _ _ => True) fresh ops t ∧ .notifyAll true ∈ ops ∧ t.Asleep) ∧
      ∃ ops t, (process lexical).Run (fun _ _ => True) fresh ops t ∧ .notifyAll false ∈ ops ∧ t.Asleep := by
  constructor
  · obtain ⟨ops, t, run, all⟩ := (process lexical).exists_run (C := fun _ _ => True)
      (P := fun ops t => .notifyAll true ∈ ops ∧ t.stack = [.run [] .blocked, .owner .live] ∧
        t.world.waiters.head? = some false)
      (toBlock ++ handleTerm ++ statements 1) (s := fresh) rfl
    obtain ⟨notified, stack, asleep⟩ := of_decide_eq_true all
    exact ⟨ops, t, run, notified, ⟨_, _, stack⟩, asleep⟩
  · obtain ⟨ops, t, run, all⟩ := (process lexical).exists_run (C := fun _ _ => True)
      (P := fun ops t => .notifyAll false ∈ ops ∧ t.stack = [.run [] .blocked, .owner .live] ∧
        t.world.waiters.head? = some false)
      (toBlock ++ [.enter EXIT_SUCCESS, .thread 0, .thread 0, .thread 0] ++ statements 1) (s := fresh) rfl
    obtain ⟨notified, stack, asleep⟩ := of_decide_eq_true all
    exact ⟨ops, t, run, notified, ⟨_, _, stack⟩, asleep⟩

end Daemonpp
