import Daemonpp.Process.Effect
import Daemonpp.Process.Launch

/-!
# The standard descriptors

`daemonize` closes descriptors 0, 1 and 2 and opens nothing in their place, and
`open` and `socket` return the lowest descriptor that is free. So the first file
or socket that is opened once `daemonize` has returned gets one of these numbers,
and what the program writes to its standard output or error may end up in it
(`stream_taken`). That holds for the socket of `syslog`, too, each time it is
connected. The streams stay apart exactly when nothing is opened any more
(`streams_apart_iff`).
-/

namespace Daemonpp

theorem lowestFree_spec (fds : List Nat) : lowestFree fds ∉ fds ∧ ∀ k < lowestFree fds, k ∈ fds := by
  have free : ((List.range (fds.length + 1)).find? (· ∉ fds)).isSome := by
    rw [List.find?_isSome]
    by_contra all
    have subset : List.range (fds.length + 1) ⊆ fds := fun k mem => by
      by_contra free
      exact all ⟨k, mem, by simpa using free⟩
    have few := (List.nodup_range.subperm subset).length_le
    rw [List.length_range] at few
    omega
  obtain ⟨fd, found⟩ := Option.isSome_iff_exists.1 free
  unfold lowestFree
  rw [found, Option.getD_some]
  obtain ⟨holds, -, least⟩ := List.find?_range_eq_some.1 found
  exact ⟨by simpa using holds, fun k below => by simpa using least k below⟩

section Effect

variable {Dir File : Type} (fs : PathSpace Dir File) (w : World Dir) (op : Op)

theorem World.disconnectLog_fds : w.disconnectLog.fds = w.logFd.toList.foldl List.erase w.fds := by
  unfold World.disconnectLog
  split <;> simp [World.close, *]

theorem World.disconnectLog_logFd : w.disconnectLog.logFd = none := by
  unfold World.disconnectLog
  split <;> simp [*]

theorem World.disconnectLog_sublist : w.disconnectLog.fds.Sublist w.fds := by
  rw [World.disconnectLog_fds]
  cases w.logFd with
  | none => exact .refl _
  | some fd => exact List.erase_sublist

/-- Whether `syslog` connects a socket when it sends a message. -/
def World.connects (w : World Dir) : Answer → Bool
  | .ok => !w.connected
  | .reconnected => true
  | .failed => false

/-- What becomes of the descriptors when `syslog` sends a message: it connects a socket in the place of the
one it had, keeps that one, or is left without. -/
theorem Op.apply_syslog (answer : Answer) :
    w.connects answer = true ∧
        ((Op.finish .syslog answer).apply fs w).fds = lowestFree w.disconnectLog.fds :: w.disconnectLog.fds ∧
        ((Op.finish .syslog answer).apply fs w).logFd = some (lowestFree w.disconnectLog.fds) ∨
      w.connects answer = false ∧
        (((Op.finish .syslog answer).apply fs w).fds = w.fds ∧
            ((Op.finish .syslog answer).apply fs w).logFd = w.logFd ∨
          ((Op.finish .syslog answer).apply fs w).fds = w.disconnectLog.fds ∧
            ((Op.finish .syslog answer).apply fs w).logFd = none) := by
  -- the lock that is released makes no difference to the descriptors
  let held := { w with held := w.held.erase .syslog }
  have sends : (Op.finish .syslog answer).apply fs w = held.sendLog answer := rfl
  have closed : held.disconnectLog.fds = w.disconnectLog.fds := by
    rw [World.disconnectLog_fds, World.disconnectLog_fds]
  have reconnects : held.disconnectLog.connectLog.fds = lowestFree w.disconnectLog.fds :: w.disconnectLog.fds ∧
      held.disconnectLog.connectLog.logFd = some (lowestFree w.disconnectLog.fds) := by
    rw [World.connectLog, closed]
    exact ⟨rfl, rfl⟩
  rw [sends]
  cases answer with
  | ok =>
    by_cases connected : w.connected = true
    · have keeps : held.sendLog .ok = held := if_pos connected
      exact .inr ⟨by rw [World.connects, connected]; rfl, .inl ⟨by rw [keeps], by rw [keeps]⟩⟩
    · have again : held.sendLog .ok = held.disconnectLog.connectLog := if_neg connected
      exact .inl ⟨by simpa [World.connects] using connected, again ▸ reconnects⟩
  | reconnected => exact .inl ⟨rfl, reconnects⟩
  | failed => exact .inr ⟨rfl, .inr ⟨closed, World.disconnectLog_logFd _⟩⟩

-- descriptor 0 was the socket and has been closed: the next message opens it again
example : ((Op.finish .syslog .ok).apply lexical
    { obj := .unknown, pid := 1, cwd := bytes "/", fds := [1, 2], logFd := some 0 }).fds = [0, 1, 2] := by decide

/-- The descriptor an operation opens. -/
def Op.opened : Op → Option Nat
  | .openConfig _ fd => fd
  | .openFd fd => some fd
  | .finish .syslog answer => if w.connects answer then some (lowestFree w.disconnectLog.fds) else none
  | _ => none

/-- The descriptors that a list of operations opens, oldest first. -/
def opened : World Dir → List Op → List Nat
  | _, [] => []
  | w, op :: ops => (op.opened w).toList ++ opened (op.apply fs w) ops

/-- The shared data behind a list of operations. -/
def worldAfter (w : World Dir) (ops : List Op) : World Dir := ops.foldl (fun w op => op.apply fs w) w

theorem opened_concat (ops : List Op) :
    opened fs w (ops ++ [op]) = opened fs w ops ++ (op.opened (worldAfter fs w ops)).toList := by
  induction ops generalizing w with
  | nil => simp [opened, worldAfter]
  | cons first ops ih =>
    rw [List.cons_append, opened, opened, ih, List.append_assoc]
    rfl

end Effect

section Run

variable {Dir File : Type} {fs : PathSpace Dir File} {r s t : Proc Dir} {l : Label} {op : Op} {ops : List Op}

theorem world_of_run {C : Proc Dir → Label → Prop} (run : (process fs).Run C s ops t) :
    t.world = worldAfter fs s.world ops := by
  refine run.invariant (I := fun ops t => t.world = worldAfter fs s.world ops) rfl ?_
  rintro ops u op v - same ⟨l, -, step⟩
  obtain ⟨-, world, -⟩ := step_cases step
  rw [world, same, worldAfter, worldAfter, List.foldl_append]
  rfl

/-- **The lowest free descriptor** is what a step opens, if it opens any: an operation adds the one it
opens, and may drop others. -/
theorem opens_lowest (step : s.step fs l = some (op, t)) :
    (∃ fds, fds.Sublist s.world.fds ∧ op.opened s.world = some (lowestFree fds) ∧
      t.world.fds = lowestFree fds :: fds) ∨
    op.opened s.world = none ∧ t.world.fds.Sublist s.world.fds := by
  obtain ⟨-, world, -⟩ := step_cases step
  rw [world]
  cases op with
  | openFd fd =>
    have ⟨f, rest, move, _, .user _ acts, _⟩ := performs_of_step step rfl
    cases acts with
    | openFile => exact .inl ⟨_, .refl _, rfl, rfl⟩
  | openConfig path fd =>
    have ⟨_, rest, move, _, .fromFile _ reads, _⟩ := performs_of_step step rfl
    cases reads with
    | «open» _ ifs _ _ lowest =>
      rw [lowest]
      split
      · exact .inr ⟨rfl, .refl _⟩
      · exact .inl ⟨_, .refl _, rfl, rfl⟩
  | closeFd fd => exact .inr ⟨rfl, List.erase_sublist⟩
  | closeConfig fd =>
    cases fd with
    | some fd => exact .inr ⟨rfl, List.erase_sublist⟩
    | none => exact .inr ⟨rfl, .refl _⟩
  | finish call answer =>
    cases call with
    | syslog =>
      rcases Op.apply_syslog fs s.world answer with ⟨connects, more, -⟩ | ⟨apart, ⟨same, -⟩ | ⟨fewer, -⟩⟩
      · exact .inl ⟨_, s.world.disconnectLog_sublist, if_pos connects, more⟩
      · exact .inr ⟨if_neg (ne_true_of_eq_false apart), by rw [same]⟩
      · exact .inr ⟨if_neg (ne_true_of_eq_false apart), fewer ▸ s.world.disconnectLog_sublist⟩
    | closelog => exact .inr ⟨rfl, World.disconnectLog_sublist _⟩
    | heap | openlog => exact .inr ⟨rfl, .refl _⟩
  | install sig | chdir path ok | setCwd path ok =>
    refine .inr ⟨rfl, ?_⟩
    unfold Op.apply
    dsimp only
    split <;> exact .refl _
  | _ => exact .inr ⟨rfl, .refl _⟩

/-- A descriptor is open once. -/
theorem nodup_step (nodup : s.world.fds.Nodup) (step : s.step fs l = some (op, t)) : t.world.fds.Nodup := by
  rcases opens_lowest step with ⟨fds, fewer, -, more⟩ | ⟨-, fewer⟩
  · rw [more]
    exact List.nodup_cons.2 ⟨(lowestFree_spec fds).1, nodup.sublist fewer⟩
  · exact nodup.sublist fewer

theorem nodup_of_run {obj : Object} {pid : Nat} {cwd : Dir} {C : Proc Dir → Label → Prop}
    (run : (process fs).Run C (Proc.launch obj pid cwd) ops t) : t.world.fds.Nodup :=
  run.always (I := fun t => t.world.fds.Nodup) (show [0, 1, 2].Nodup by decide)
    fun nodup ⟨_, _, step⟩ => nodup_step nodup step

/-- The last statement of `daemonize`, which closes STDERR_FILENO, takes `r` to `s`. -/
def DaemonizeReturns (fs : PathSpace Dir File) (r s : Proc Dir) : Prop :=
  (∃ rest, r.stack = .daemonize (.close 2) :: rest) ∧ r.step fs (.main .done) = some (.closeFd 2, s)

theorem DaemonizeReturns.stderr_free (returns : DaemonizeReturns fs r s) (nodup : r.world.fds.Nodup) :
    2 ∉ s.world.fds := by
  obtain ⟨-, world, -⟩ := step_cases returns.2
  rw [world]
  exact fun mem => ((List.Nodup.mem_erase_iff nodup).1 mem).1 rfl

/-- **Whether the standard streams stay apart**: no descriptor that is opened once `daemonize`
has returned is a standard one if, and only if, none is opened at all. -/
theorem streams_apart_iff {obj : Object} {pid : Nat} {cwd : Dir} {before : List Op}
    (launched : (process fs).Run (fun _ _ => True) (Proc.launch obj pid cwd) before r)
    (returns : DaemonizeReturns fs r s) (run : (process fs).Run (fun _ _ => True) s ops t) :
    (∀ fd ∈ opened fs s.world ops, 3 ≤ fd) ↔ opened fs s.world ops = [] := by
  have free := returns.stderr_free (nodup_of_run launched)
  -- until something is opened descriptor 2 is free, and so the first one opened is at most 2
  have first : opened fs s.world ops = [] ∧ 2 ∉ t.world.fds ∨ ∃ fd ∈ opened fs s.world ops, fd ≤ 2 := by
    refine run.invariant (I := fun ops t => opened fs s.world ops = [] ∧ 2 ∉ t.world.fds ∨
      ∃ fd ∈ opened fs s.world ops, fd ≤ 2) (.inl ⟨rfl, free⟩) ?_
    rintro ops u op v path (⟨none, free⟩ | ⟨fd, mem, low⟩) ⟨l, -, step⟩
    · rw [opened_concat, ← world_of_run path, none, List.nil_append]
      rcases opens_lowest step with ⟨fds, fewer, opens, -⟩ | ⟨nothing, fewer⟩
      · refine .inr ⟨lowestFree fds, by rw [opens]; exact List.mem_singleton_self _, ?_⟩
        by_contra high
        exact free (fewer.mem ((lowestFree_spec fds).2 2 (by omega)))
      · rw [nothing]
        exact .inl ⟨rfl, fun mem => free (fewer.mem mem)⟩
    · rw [opened_concat]
      exact .inr ⟨fd, List.mem_append_left _ mem, low⟩
  constructor
  · intro high
    rcases first with ⟨none, -⟩ | ⟨fd, mem, low⟩
    · exact none
    · have high := high fd mem
      omega
  · intro none
    rw [none]
    exact nofun

end Run

/-- `daemonize`, about to close STDERR_FILENO. -/
def closingStderr : Proc Bytes where
  stack := [.daemonize (.close 2), .run [] .daemonizing, .owner .live]
  world := { obj := { fresh.world.obj with pid := some 0, sid := some 2 }, pid := 2, cwd := bytes "/",
             handled := [.SIGTERM, .SIGHUP], fds := [2] }

/-- `daemonize` has returned. -/
def daemonized : Proc Bytes where
  stack := [.run [] .running, .owner .live]
  world := closingStderr.world.close 2

theorem daemonized_returns : DaemonizeReturns lexical closingStderr daemonized := ⟨⟨_, rfl⟩, rfl⟩

theorem closingStderr_reached : ∃ before, (process lexical).Run (fun _ _ => True) fresh before closingStderr :=
  ⟨_, (process lexical).path_of_replay (show (process lexical).replay _ (List.flatten
    [[.user (.run [])], bootHandlers, [.main (.ok true)], statements 2]) fresh = _ from rfl)⟩

/-- A start that opens nothing. -/
theorem streams_apart_quietStart : ∃ before ops t,
    (process lexical).Run (fun _ _ => True) fresh before closingStderr ∧
      DaemonizeReturns lexical closingStderr daemonized ∧ (process lexical).Run (fun _ _ => True) daemonized ops t ∧
      .began .onStart ∈ ops ∧
      ((∀ fd ∈ opened lexical daemonized.world ops, 3 ≤ fd) ↔ opened lexical daemonized.world ops = []) := by
  obtain ⟨before, launched⟩ := closingStderr_reached
  obtain ⟨ops, t, run, started⟩ := (process lexical).exists_run (C := fun _ _ => True)
    (P := fun ops _ => .began .onStart ∈ ops) bootStart (s := daemonized) rfl
  exact ⟨before, ops, t, launched, daemonized_returns, run, of_decide_eq_true started,
    streams_apart_iff launched daemonized_returns run⟩

/-- `on_start` logs a message and opens a file. -/
def logAndOpen : List Label := List.flatten [bootStart, [.user (.lib logCalls)], libCalls 3, [.user .openFile]]

/-- **The standard output is a file** that `on_start` has opened behind its first message. -/
theorem stream_taken : ∃ before ops t, (process lexical).Run (fun _ _ => True) fresh before closingStderr ∧
    DaemonizeReturns lexical closingStderr daemonized ∧ (process lexical).Run (fun _ _ => True) daemonized ops t ∧
    ¬ ∀ fd ∈ opened lexical daemonized.world ops, 3 ≤ fd := by
  obtain ⟨before, launched⟩ := closingStderr_reached
  obtain ⟨ops, t, run, both⟩ := (process lexical).exists_run (C := fun _ _ => True)
    (P := fun ops _ => opened lexical daemonized.world ops = [0, 1]) logAndOpen (s := daemonized) rfl
  refine ⟨before, ops, t, launched, daemonized_returns, run, fun high => ?_⟩
  have three := high 1 (by rw [of_decide_eq_true both]; decide)
  omega

end Daemonpp
