import Daemonpp.Lifecycle.Startup

/-!
# The launched process and its child

The processes of a launch, which take their steps in any order. A `fork` that returns a
positive id adds the child: the same process, in which it returns 0. Process 0 is the
launched one, process 1 its child. Only the child comes to `on_start`, behind a `setsid` and a
`chdir(m_cwd)` that have succeeded (`startup_agrees`). The launched process leaves with
`EXIT_SUCCESS` as soon as it has forked, whatever becomes of the child
(`parent_reports_early`).
-/

namespace Daemonpp

open Lib (Layered Path)

section Family

variable {Dir File : Type} (fs : PathSpace Dir File)

/-- One step of the `i`-th process. -/
def familyStep (procs : List (Proc Dir)) (l : Nat × Label) : Option ((Nat × Op) × List (Proc Dir)) :=
  match procs[l.1]? with
  | none => none
  | some s => match s.step fs l.2 with
    | none => none
    | some (op, t) => match op with
      | .fork result _ =>
        -- `fork` returns 0 in the child only
        if result = 0 then none
        else if 0 < result then (s.step fs (.main (.fork 0 result.toNat))).map fun child =>
          ((l.1, op), procs.set l.1 t ++ [child.2])
        else some ((l.1, op), procs.set l.1 t)
      | _ => some ((l.1, op), procs.set l.1 t)

/-- The processes as a system. -/
def family : Lib.System (List (Proc Dir)) (Nat × Label) (Nat × Op) := ⟨familyStep fs⟩

end Family

/-- What the `i`-th process has done itself. -/
def own (i : Nat) (events : List (Nat × Op)) : List Op :=
  events.filterMap fun event => if event.1 = i then some event.2 else none

/-- The `m_cwd` of each process behind an event: a child begins with its parent's. -/
def followCwd (cwds : List Bytes) : Nat × Op → List Bytes
  | (i, .fork result _) => if 0 < result then cwds ++ cwds[i]?.toList else cwds
  | (i, op) => cwds.modify i fun old => op.pathAfter old

/-- The `m_cwd` of each process behind the events of a launch, which began with `cwd`. -/
def cwds (cwd : Bytes) (events : List (Nat × Op)) : List Bytes := events.foldl followCwd [cwd]

/-- The `i`-th process has called `chdir(m_cwd)`, with the path it held then. -/
def Chdirs (cwd : Bytes) (events : List (Nat × Op)) (i : Nat) (ok : Bool) : Prop :=
  ∃ early path late, events = early ++ (i, .chdir path ok) :: late ∧ (cwds cwd early)[i]? = some path

section Run

variable {Dir File : Type} {fs : PathSpace Dir File} {procs procs' : List (Proc Dir)} {s t : Proc Dir}
variable {i : Nat} {l : Label} {op : Op} {events : List (Nat × Op)}

theorem mem_own : op ∈ own i events ↔ (i, op) ∈ events := by
  simp [own]

theorem own_concat (j : Nat) : own j (events ++ [(i, op)]) = own j events ++ if i = j then [op] else [] := by
  rw [own, own, List.filterMap_append]
  split <;> simp [*]

/-- The two kinds of step: a process moves, or it forks a child. -/
inductive FamilyCase (fs : PathSpace Dir File) (procs : List (Proc Dir)) (i : Nat) (l : Label) (op : Op)
    (procs' : List (Proc Dir)) : Prop where
  | moves {s t : Proc Dir} (at' : procs[i]? = some s) (step : s.step fs l = some (op, t))
      (own : ∀ result pid, op = .fork result pid → result < 0) (after : procs' = procs.set i t)
  | forks {s t child : Proc Dir} {result : Int} {pid : Nat} (at' : procs[i]? = some s)
      (performs : op = .fork result pid) (positive : 0 < result)
      (step : s.step fs l = some (op, t))
      (born : s.step fs (.main (.fork 0 result.toNat)) = some (.fork 0 result.toNat, child))
      (after : procs' = procs.set i t ++ [child])

/-- Where `fork` can return one result, it can return 0 as well. -/
theorem fork_child {result : Int} {pid n : Nat} (step : s.step fs l = some (.fork result pid, t)) :
    ∃ child, s.step fs (.main (.fork 0 n)) = some (.fork 0 n, child) := by
  obtain ⟨alive, -, -⟩ := step_cases step
  obtain ⟨pc, rest, move, top, moves, -⟩ := daemonize_of_starts step rfl
  cases moves with
  | parent | noFork | child => exact ⟨_, step_of_next fs alive top rfl⟩

theorem family_cases {event : Nat × Op} (step : familyStep fs procs (i, l) = some (event, procs')) :
    event.1 = i ∧ FamilyCase fs procs i l event.2 procs' := by
  unfold familyStep at step
  split at step
  · cases step
  · rename_i s at'
    split at step
    · cases step
    · rename_i op t moved
      split at step
      · rename_i result pid
        split at step
        · cases step
        · rename_i other
          split at step
          · rename_i positive
            obtain ⟨child, born⟩ := fork_child (n := result.toNat) moved
            rw [born] at step
            cases step
            exact ⟨rfl, .forks at' rfl positive moved born rfl⟩
          · rename_i negative
            cases step
            refine ⟨rfl, .moves at' moved ?_ rfl⟩
            rintro _ _ ⟨⟩
            omega
      · rename_i other
        cases step
        exact ⟨rfl, .moves at' moved (fun result pid same => absurd same (other result pid)) rfl⟩

/-! ## The directory of a process -/

/-- A process sets its own `m_cwd`, and no other. -/
theorem modify_cwds (at' : procs[i]? = some s) (step : s.step fs l = some (op, t)) :
    (procs.map fun s => s.world.obj.cwd).modify i (fun old => op.pathAfter old) =
      (procs.set i t).map fun s => s.world.obj.cwd := by
  obtain ⟨-, world, -⟩ := step_cases step
  have path : t.world.obj.cwd = op.pathAfter s.world.obj.cwd := by rw [world, Op.apply_path]
  refine List.ext_getElem? fun j => ?_
  rw [List.getElem?_modify, List.getElem?_map, List.getElem?_map, List.getElem?_set]
  by_cases same : i = j
  · subst same
    obtain ⟨bound, there⟩ := List.getElem?_eq_some_iff.1 at'
    simp [bound, there, path]
  · simp [same]

theorem cwds_of_run {C : List (Proc Dir) → Nat × Label → Prop} {s₀ : Proc Dir}
    (run : (family fs).Run C [s₀] events procs) :
    cwds s₀.world.obj.cwd events = procs.map fun s => s.world.obj.cwd := by
  refine run.invariant (I := fun events procs => cwds s₀.world.obj.cwd events = procs.map fun s => s.world.obj.cwd)
    rfl ?_
  rintro events procs ⟨i, op⟩ procs' - same ⟨⟨j, l⟩, -, step⟩
  obtain ⟨rfl, cases⟩ := family_cases step
  have follow : cwds s₀.world.obj.cwd (events ++ [(i, op)]) =
      followCwd (procs.map fun s => s.world.obj.cwd) (i, op) := by
    rw [← same, cwds, cwds, List.foldl_append]
    rfl
  rw [follow]
  cases cases with
  | moves at' step own after =>
    rw [after, ← modify_cwds at' step]
    cases op with
    | fork result pid =>
      have negative := own result pid rfl
      rw [followCwd, if_neg (by omega)]
      exact (List.modify_id _ _).symm
    | _ => rfl
  | @forks s t child result pid at' performs positive step born after =>
    subst performs
    obtain ⟨-, world, -⟩ := step_cases born
    have inherits : child.world.obj.cwd = s.world.obj.cwd := by rw [world, Op.apply_path]; rfl
    rw [after, List.map_append, ← modify_cwds at' step, followCwd, if_pos positive, List.getElem?_map, at']
    have stays : (procs.map fun s => s.world.obj.cwd).modify i (fun old => (Op.fork result pid).pathAfter old) = _ :=
      List.modify_id _ _
    rw [stays]
    simp [inherits]

/-- `daemonize` changes to `m_cwd`. -/
theorem chdir_cwd {path : Bytes} {ok : Bool} (step : s.step fs l = some (.chdir path ok, t)) :
    path = s.world.obj.cwd := by
  obtain ⟨pc, rest, move, top, moves, -⟩ := daemonize_of_starts step rfl
  cases moves with
  | chdir | noChdir => rfl

theorem chdirs_of_run {C : List (Proc Dir) → Nat × Label → Prop} {s₀ : Proc Dir} {path : Bytes} {ok : Bool}
    (run : (family fs).Run C [s₀] events procs) (mem : (i, .chdir path ok) ∈ events) :
    Chdirs s₀.world.obj.cwd events i ok := by
  obtain ⟨early, late, rfl⟩ := List.append_of_mem mem
  obtain ⟨procs₁, procs₂, first, ⟨⟨j, l⟩, -, step⟩, -⟩ := run.cut
  obtain ⟨rfl, cases⟩ := family_cases step
  cases cases with
  | moves at' step =>
    refine ⟨early, path, late, rfl, ?_⟩
    rw [cwds_of_run first, List.getElem?_map, at', chdir_cwd step]
    rfl
  | forks _ performs => cases performs

theorem Chdirs.mem {cwd : Bytes} {ok : Bool} (h : Chdirs cwd events i ok) : ∃ path, (i, .chdir path ok) ∈ events := by
  obtain ⟨early, path, late, rfl, -⟩ := h
  exact ⟨path, List.mem_append_right _ List.mem_cons_self⟩

/-! ## The history of a process -/

/-- The `i`-th process has a history from `s₀`: its own steps, behind those it inherits from its
parent if it is a child. -/
def Member (fs : PathSpace Dir File) (s₀ : Proc Dir) (events : List (Nat × Op)) (i : Nat) (s : Proc Dir) : Prop :=
  ∃ inherited, (process fs).Run (fun _ l => l.callsRun = false) s₀ (inherited ++ own i events) s ∧
    (i = 0 ∧ inherited = [] ∨ 0 < i ∧ ∃ before pid, inherited = before ++ [.fork 0 pid])

theorem Member.idle {s₀ : Proc Dir} {j : Nat} (h : Member fs s₀ events j s) (other : i ≠ j) :
    Member fs s₀ (events ++ [(i, op)]) j s := by
  unfold Member
  rw [own_concat, if_neg other, List.append_nil]
  exact h

theorem Member.step {s₀ : Proc Dir} (h : Member fs s₀ events i s) (quiet : l.callsRun = false)
    (step : s.step fs l = some (op, t)) : Member fs s₀ (events ++ [(i, op)]) i t := by
  obtain ⟨inherited, run, origin⟩ := h
  refine ⟨inherited, ?_, origin⟩
  rw [own_concat, if_pos rfl, ← List.append_assoc]
  exact .snoc run ⟨l, quiet, step⟩

def Op.forks : Op → Bool
  | .fork _ _ => true
  | _ => false

/-- A start-up begins with its only `fork`. -/
theorem Startup.Called.head {st : Startup} {calls : List Op} (h : st.Called calls) :
    calls = [] ∨ ∃ result pid rest, calls = .fork result pid :: rest ∧ ∀ op ∈ rest, op.forks = false := by
  cases st with
  | ahead => exact .inl h
  | parent =>
    obtain ⟨result, pid, -, rfl⟩ := h
    exact .inr ⟨result, pid, [], rfl, nofun⟩
  | child =>
    obtain ⟨pid, rfl⟩ := h
    exact .inr ⟨0, pid, [], rfl, nofun⟩
  | session =>
    obtain ⟨pid, sid, rfl⟩ := h
    exact .inr ⟨0, pid, _, rfl, by simp [Op.forks]⟩
  | placed =>
    obtain ⟨pid, sid, path, rfl⟩ := h
    exact .inr ⟨0, pid, _, rfl, by simp [Op.forks]⟩
  | failed =>
    rcases h with ⟨result, pid, -, rfl⟩ | ⟨pid, rfl⟩ | ⟨pid, sid, path, rfl⟩
    · exact .inr ⟨result, pid, [], rfl, nofun⟩
    · exact .inr ⟨0, pid, _, rfl, by simp [Op.forks]⟩
    · exact .inr ⟨0, pid, _, rfl, by simp [Op.forks]⟩

/-- What is behind a `fork` is all that a process has called but for it. -/
theorem Startup.Told.behind_fork {st : Startup} {before after : List Op} {result : Int} {pid : Nat}
    (h : Told (before ++ .fork result pid :: after) st) :
    startupCalls before = [] ∧ st.Called (.fork result pid :: startupCalls after) := by
  have called := h.calls
  rw [startupCalls, List.filter_append, List.filter_cons_of_pos rfl] at called
  rcases called.head with none | ⟨result', pid', rest, same, unforked⟩
  · simp at none
  · have first : startupCalls before = [] := by
      cases calls : before.filter Op.starts with
      | nil => exact calls
      | cons op ops =>
        rw [calls, List.cons_append] at same
        have mem : .fork result pid ∈ rest := by
          rw [← (List.cons.inj same).2]
          simp
        cases unforked _ mem
    refine ⟨first, ?_⟩
    rw [show before.filter Op.starts = [] from first] at called
    exact called

/-- The processes of a launch: at most two, the second one once the first has forked. -/
structure Launched (fs : PathSpace Dir File) (s₀ : Proc Dir) (events : List (Nat × Op)) (procs : List (Proc Dir)) :
    Prop where
  members : ∀ i s, procs[i]? = some s → Member fs s₀ events i s
  known : ∀ i op, (i, op) ∈ events → i < procs.length
  parents : ∀ i pid, (i, .fork 0 pid) ∉ events
  few : procs.length = 1 ∨ procs.length = 2 ∧ ∃ result pid, 0 < result ∧ (0, .fork result pid) ∈ events

variable {s₀ : Proc Dir} {argv : List Bytes}

theorem launched_start (s₀ : Proc Dir) : Launched fs s₀ [] [s₀] where
  members i s at' := by
    cases i with
    | zero =>
      cases at'
      exact ⟨[], .start, .inl ⟨rfl, rfl⟩⟩
    | succ i => simp at at'
  known := nofun
  parents := nofun
  few := .inl rfl

/-- Only the launched process forks, and once. -/
theorem Launched.parent_forks {result : Int} {pid : Nat} (h : Launched fs s₀ events procs) (entered : Entered argv s₀)
    (at' : procs[i]? = some s) (quiet : l.callsRun = false) (step : s.step fs l = some (.fork result pid, t)) :
    i = 0 ∧ procs.length = 1 := by
  obtain ⟨inherited, run, origin⟩ := h.members i s at'
  obtain ⟨st, path, -⟩ := startup_of_run entered (.snoc run ⟨l, quiet, step⟩)
  have none : ∀ op ∈ inherited ++ own i events, op.forks = false := by
    intro op mem
    by_contra forks
    have call : op ∈ startupCalls (inherited ++ own i events) := by
      refine List.mem_filter.2 ⟨mem, ?_⟩
      cases op <;> first | rfl | exact absurd rfl forks
    rw [(Startup.told path).behind_fork.1] at call
    cases call
  rcases origin with ⟨rfl, rfl⟩ | ⟨-, before, pid', rfl⟩
  · refine ⟨rfl, h.few.resolve_right ?_⟩
    rintro ⟨-, result', pid', -, mem⟩
    cases none _ (List.mem_append_right _ (mem_own.2 mem))
  · cases none (.fork 0 pid') (by simp)

/-- A step of a process that does not fork. -/
theorem Launched.moves (h : Launched fs s₀ events procs) (quiet : l.callsRun = false) (at' : procs[i]? = some s)
    (step : s.step fs l = some (op, t)) (own : ∀ result pid, op = .fork result pid → result < 0) :
    Launched fs s₀ (events ++ [(i, op)]) (procs.set i t) := by
  have bound : i < procs.length := (List.getElem?_eq_some_iff.1 at').1
  constructor
  · intro j s' there
    by_cases same : i = j
    · subst same
      rw [List.getElem?_set_self bound] at there
      cases there
      exact (h.members i s at').step quiet step
    · rw [List.getElem?_set_ne same] at there
      exact (h.members j s' there).idle same
  · intro j op' mem
    rw [List.length_set]
    rcases List.mem_append.1 mem with before | now
    · exact h.known j op' before
    · cases List.mem_singleton.1 now
      exact bound
  · intro j pid mem
    rcases List.mem_append.1 mem with before | now
    · exact h.parents j pid before
    · cases List.mem_singleton.1 now
      exact absurd (own 0 pid rfl) (by omega)
  · rw [List.length_set]
    refine h.few.imp id (.imp id ?_)
    rintro ⟨result, pid, positive, mem⟩
    exact ⟨result, pid, positive, List.mem_append_left _ mem⟩

/-- A process that is not there yet has done nothing. -/
theorem Launched.unborn (h : Launched fs s₀ events procs) (unknown : procs.length ≤ i) : own i events = [] := by
  refine List.eq_nil_iff_forall_not_mem.2 fun op mem => ?_
  have known := h.known i op (mem_own.1 mem)
  omega

/-- The launched process forks, and the child has its history. -/
theorem Launched.forks {first child : Proc Dir} {result : Int} {pid : Nat} (h : Launched fs s₀ events [first])
    (quiet : l.callsRun = false) (positive : 0 < result) (step : first.step fs l = some (.fork result pid, t))
    (born : first.step fs (.main (.fork 0 result.toNat)) = some (.fork 0 result.toNat, child)) :
    Launched fs s₀ (events ++ [(0, .fork result pid)]) [t, child] := by
  have unborn : own 1 events = [] := h.unborn (Nat.le_refl 1)
  constructor
  · intro j s' there
    match j with
    | 0 =>
      cases there
      exact (h.members 0 first rfl).step quiet step
    | 1 =>
      cases there
      obtain ⟨inherited, run, origin⟩ := h.members 0 first rfl
      obtain rfl : inherited = [] := origin.elim (fun own => own.2) fun child => absurd child.1 (by omega)
      refine ⟨own 0 events ++ [.fork 0 result.toNat], ?_, .inr ⟨by omega, _, _, rfl⟩⟩
      rw [own_concat, if_neg (by omega), unborn]
      simpa using Path.snoc run ⟨.main (.fork 0 result.toNat), rfl, born⟩
    | j + 2 => simp at there
  · intro j op' mem
    rcases List.mem_append.1 mem with before | now
    · have known := h.known j op' before
      simp at known ⊢
      omega
    · cases List.mem_singleton.1 now
      simp
  · intro j pid' mem
    rcases List.mem_append.1 mem with before | now
    · exact h.parents j pid' before
    · cases List.mem_singleton.1 now
      omega
  · exact .inr ⟨rfl, result, pid, positive, List.mem_append_right _ (List.mem_singleton_self _)⟩

theorem Launched.step (h : Launched fs s₀ events procs) (entered : Entered argv s₀) (quiet : l.callsRun = false)
    (step : FamilyCase fs procs i l op procs') : Launched fs s₀ (events ++ [(i, op)]) procs' := by
  cases step with
  | moves at' step own after =>
    subst after
    exact h.moves quiet at' step own
  | forks at' performs positive step born after =>
    subst performs after
    obtain ⟨rfl, alone⟩ := h.parent_forks entered at' quiet step
    obtain ⟨first, rfl⟩ := List.length_eq_one_iff.1 alone
    cases at'
    exact h.forks quiet positive step born

theorem launched_of_run (entered : Entered argv s₀)
    (run : (family fs).Run (fun _ l => l.2.callsRun = false) [s₀] events procs) : Launched fs s₀ events procs := by
  refine run.invariant (launched_start s₀) ?_
  rintro events procs ⟨i, op⟩ procs' - launched ⟨⟨j, l⟩, quiet, step⟩
  obtain ⟨rfl, step⟩ := family_cases step
  exact launched.step entered quiet step

/-! ## Start-up and exit status -/

/-- The child's `setsid` or its `chdir(m_cwd)` has failed. -/
def ChildFailed (cwd : Bytes) (events : List (Nat × Op)) : Prop :=
  (1, .setsid (-1)) ∈ events ∨ Chdirs cwd events 1 false

/-- The start-up of the service and what the processes report about it; `cwd` is the `m_cwd` of the
object that `run` is called on. -/
structure StartupAgrees (cwd : Bytes) (events : List (Nat × Op)) : Prop where
  /-- Only the forked child comes to `on_start`. -/
  child : ∀ i, (i, .began .onStart) ∈ events → i = 1 ∧ ∃ result pid, 0 < result ∧ (0, .fork result pid) ∈ events
  /-- It does so behind a `setsid` and a `chdir(m_cwd)` that have succeeded. -/
  behind : ∀ before i after, events = before ++ (i, .began .onStart) :: after →
    (∃ sid : Nat, (i, .setsid sid) ∈ before) ∧ Chdirs cwd before i true
  /-- The launched process reports whether it could fork. -/
  parent : ∀ code, (0, .exit code) ∈ events →
    code = EXIT_SUCCESS ∧ (∃ result pid, 0 < result ∧ (0, .fork result pid) ∈ events) ∨
      code = EXIT_FAILURE ∧ ∃ result pid, result < 0 ∧ (0, .fork result pid) ∈ events
  /-- The child leaves `daemonize` only to report that one of its calls has failed. -/
  status : ∀ code, (1, .exit code) ∈ events → code = EXIT_FAILURE ∧ ChildFailed cwd events
  failed : ChildFailed cwd events → ∀ i, (i, .began .onStart) ∉ events

/-- Where the start-up of the process that performs an operation has come. -/
theorem Launched.told (h : Launched fs s₀ events procs) (entered : Entered argv s₀) (mem : (i, op) ∈ events) :
    ∃ st, (i = 0 ∧ Startup.Told (own 0 events) st) ∨
      (0 < i ∧ ∃ before pid, Startup.Told (before ++ .fork 0 pid :: own i events) st) := by
  obtain ⟨inherited, run, origin⟩ := h.members i _ (List.getElem?_eq_getElem (h.known i op mem))
  obtain ⟨st, path, -⟩ := startup_of_run entered run
  have told := Startup.told path
  refine ⟨st, ?_⟩
  rcases origin with ⟨rfl, rfl⟩ | ⟨positive, before, pid, rfl⟩
  · exact .inl ⟨rfl, told⟩
  · rw [List.append_assoc] at told
    exact .inr ⟨positive, before, pid, told⟩

/-- A call of the start-up is one of the process. -/
theorem mem_of_called {calls : List Op} (same : startupCalls (own i events) = calls) (mem : op ∈ calls) :
    (i, op) ∈ events := by
  rw [← same] at mem
  exact mem_own.1 (List.mem_of_mem_filter mem)

/-- What the process that comes to `on_start` has done. -/
theorem Launched.started (h : Launched fs s₀ events procs) (entered : Entered argv s₀)
    (mem : (i, .began .onStart) ∈ events) :
    0 < i ∧ ∃ sid path, startupCalls (own i events) = [.setsid (Int.ofNat sid), .chdir path true] := by
  obtain ⟨st, ⟨rfl, told⟩ | ⟨positive, before, pid, told⟩⟩ := h.told entered mem
  · -- the launched process does not return 0 from `fork`
    obtain rfl := told.started (mem_own.2 mem)
    obtain ⟨pid, sid, path, calls⟩ := told.calls
    exact absurd (mem_of_called calls List.mem_cons_self) (h.parents 0 pid)
  · obtain rfl := told.started (List.mem_append_right _ (List.mem_cons_of_mem _ (mem_own.2 mem)))
    obtain ⟨pid', sid, path, calls⟩ := told.behind_fork.2
    exact ⟨positive, sid, path, (List.cons.inj calls).2⟩

/-- Only the forked child comes to `on_start`. -/
theorem Launched.child (h : Launched fs s₀ events procs) (entered : Entered argv s₀)
    (mem : (i, .began .onStart) ∈ events) : i = 1 ∧ ∃ result pid, 0 < result ∧ (0, .fork result pid) ∈ events := by
  have positive := (h.started entered mem).1
  have known := h.known i _ mem
  rcases h.few with one | ⟨two, forked⟩
  · omega
  · exact ⟨by omega, forked⟩

/-- The launched process leaves `daemonize` with what its `fork` was. -/
theorem Launched.parent_exits {code : Int} (h : Launched fs s₀ events procs) (entered : Entered argv s₀)
    (mem : (0, .exit code) ∈ events) :
    code = EXIT_SUCCESS ∧ (∃ result pid, 0 < result ∧ (0, .fork result pid) ∈ events) ∨
      code = EXIT_FAILURE ∧ ∃ result pid, result < 0 ∧ (0, .fork result pid) ∈ events := by
  obtain ⟨st, ⟨-, told⟩ | ⟨positive, -⟩⟩ := h.told entered mem
  · rcases told.exits code (mem_own.2 mem) with ⟨rfl, rfl⟩ | ⟨rfl, rfl⟩
    · obtain ⟨result, pid, positive, calls⟩ := told.calls
      exact .inl ⟨rfl, result, pid, positive, mem_of_called calls List.mem_cons_self⟩
    · refine .inr ⟨rfl, ?_⟩
      rcases told.calls with ⟨result, pid, negative, calls⟩ | ⟨pid, calls⟩ | ⟨pid, sid, path, calls⟩
      · exact ⟨result, pid, negative, mem_of_called calls List.mem_cons_self⟩
      · exact absurd (mem_of_called calls List.mem_cons_self) (h.parents 0 pid)
      · exact absurd (mem_of_called calls List.mem_cons_self) (h.parents 0 pid)
  · omega

/-- The child leaves `daemonize` behind a call that has failed. -/
theorem Launched.child_exits {code : Int} (h : Launched fs s₀ events procs) (entered : Entered argv s₀)
    (mem : (1, .exit code) ∈ events) :
    code = EXIT_FAILURE ∧ ((1, .setsid (-1)) ∈ events ∨ ∃ path, (1, .chdir path false) ∈ events) := by
  obtain ⟨st, ⟨none, -⟩ | ⟨-, before, pid, told⟩⟩ := h.told entered mem
  · cases none
  have exits := told.exits code (List.mem_append_right _ (List.mem_cons_of_mem _ (mem_own.2 mem)))
  have called := told.behind_fork.2
  rcases exits with ⟨-, rfl⟩ | ⟨rfl, rfl⟩
  · obtain ⟨result, pid', positive, same⟩ := called
    cases (List.cons.inj same).1
    omega
  · refine ⟨rfl, ?_⟩
    rcases called with ⟨result, pid', negative, same⟩ | ⟨pid', same⟩ | ⟨pid', sid, path, same⟩
    · cases (List.cons.inj same).1
      omega
    · exact .inl (mem_of_called (List.cons.inj same).2 (by simp))
    · exact .inr ⟨path, mem_of_called (List.cons.inj same).2 (by simp)⟩

/-- No process comes to `on_start` when a call of the child has failed. -/
theorem Launched.not_started (h : Launched fs s₀ events procs) (entered : Entered argv s₀)
    (failed : (1, .setsid (-1)) ∈ events ∨ ∃ path, (1, .chdir path false) ∈ events) :
    (i, .began .onStart) ∉ events := by
  intro mem
  obtain ⟨rfl, -⟩ := h.child entered mem
  obtain ⟨-, sid, path, calls⟩ := h.started entered mem
  -- what has failed would be among the calls
  have among : ∀ op, op.starts = true → (1, op) ∈ events → op = .setsid (Int.ofNat sid) ∨ op = .chdir path true := by
    intro op starts mem
    have mem := List.mem_filter.2 ⟨mem_own.2 mem, starts⟩
    rw [show (own 1 events).filter Op.starts = _ from calls] at mem
    simpa using mem
  rcases failed with mem | ⟨path', mem⟩
  · rcases among _ rfl mem with same | same
    · cases same
    · cases same
  · rcases among _ rfl mem with same | same
    · cases same
    · cases same

/-- **Start-up and exit status agree**, in whatever order the processes take their steps: only the
forked child comes to `on_start`, behind its `setsid` and `chdir(m_cwd)`; the launched process
leaves with `EXIT_SUCCESS` once it has forked; and a child in which a call fails leaves with
`EXIT_FAILURE`. -/
theorem startup_agrees (entered : Entered argv s₀)
    (run : (family fs).Run (fun _ l => l.2.callsRun = false) [s₀] events procs) :
    StartupAgrees s₀.world.obj.cwd events := by
  have launched := launched_of_run entered run
  constructor
  · exact fun i mem => launched.child entered mem
  · rintro before i after rfl
    obtain ⟨procs', procs'', first, step, -⟩ := run.cut
    have launched := launched_of_run entered (.snoc first step)
    obtain ⟨-, sid, path, calls⟩ := launched.started entered (List.mem_append_right _ (List.mem_singleton_self _))
    have session : (i, .setsid (Int.ofNat sid)) ∈ before ++ [(i, .began .onStart)] := mem_of_called calls (by simp)
    have placed : (i, .chdir path true) ∈ before ++ [(i, .began .onStart)] := mem_of_called calls (by simp)
    have changed : (i, .chdir path true) ∈ before := by simpa using placed
    exact ⟨⟨sid, by simpa using session⟩, chdirs_of_run first changed⟩
  · exact fun code mem => launched.parent_exits entered mem
  · exact fun code mem => (launched.child_exits entered mem).imp_right
      (Or.imp_right fun ⟨_, mem⟩ => chdirs_of_run run mem)
  · exact fun failed i => launched.not_started entered (failed.imp_right Chdirs.mem)

end Run

/-- Each process of a launch takes its labels in turn. -/
def turns (i : Nat) (labels : List Label) : List (Nat × Label) := labels.map fun l => (i, l)

/-- The parent forks and leaves, and the child comes to `on_start`. -/
def launchSucceeds : List (Nat × Label) :=
  List.flatten [turns 0 (statements 3), turns 0 [.main (.fork 2 2), .main .done],
    turns 1 (List.flatten [statements 1, libCalls 2, [.main (.ok true)], statements 3, bootDone, bootStart])]

theorem startup_agrees_launchSucceeds : ∃ events procs,
    (family lexical).Run (fun _ l => l.2.callsRun = false) [entry] events procs ∧
      (0, .exit EXIT_SUCCESS) ∈ events ∧ (1, .began .onStart) ∈ events ∧
      StartupAgrees entry.world.obj.cwd events := by
  obtain ⟨events, procs, run, all⟩ := (family lexical).exists_run (C := fun _ l => l.2.callsRun = false)
    (P := fun events _ => (0, .exit EXIT_SUCCESS) ∈ events ∧ (1, .began .onStart) ∈ events)
    launchSucceeds (s := [entry]) rfl
  obtain ⟨left, started⟩ := of_decide_eq_true all
  exact ⟨events, procs, run, left, started, startup_agrees (show Entered [] entry from rfl) run⟩

/-- `run` has just been entered by the owner of an object whose directory does not exist. -/
def misplaced : Proc Bytes :=
  { Proc.launch (.construct (bytes "service") (bytes "/missing")) 1 (bytes "/") with
    stack := [.run [] .guard, .owner .live] }

/-- The parent forks and leaves, and the child cannot enter its directory. -/
def launchFails : List (Nat × Label) :=
  List.flatten [turns 0 (statements 3), turns 0 [.main (.fork 2 2), .main .done],
    turns 1 (List.flatten [statements 1, libCalls 2, [.main (.ok true)], statements 3, [.main (.ok false)],
      libCalls 3, statements 1])]

/-- **The launcher reports too early**: it has left with `EXIT_SUCCESS`, and the child leaves with
`EXIT_FAILURE`, since its `chdir` has failed. -/
theorem parent_reports_early : ∃ events procs, Entered [] misplaced ∧
    (family lexical).Run (fun _ l => l.2.callsRun = false) [misplaced] events procs ∧
      (0, .exit EXIT_SUCCESS) ∈ events ∧ (1, .chdir (bytes "/missing") false) ∈ events ∧
        (1, .exit EXIT_FAILURE) ∈ events ∧ ∀ i, (i, .began .onStart) ∉ events := by
  obtain ⟨events, procs, run, all⟩ := (family lexical).exists_run (C := fun _ l => l.2.callsRun = false)
    (P := fun events _ => (0, .exit EXIT_SUCCESS) ∈ events ∧ (1, .chdir (bytes "/missing") false) ∈ events ∧
      (1, .exit EXIT_FAILURE) ∈ events ∧ .began .onStart ∉ events.map Prod.snd)
    launchFails (s := [misplaced]) rfl
  obtain ⟨left, failed, exits, none⟩ := of_decide_eq_true all
  exact ⟨events, procs, rfl, run, left, failed, exits, fun i mem => none (List.mem_map_of_mem mem)⟩

end Daemonpp
