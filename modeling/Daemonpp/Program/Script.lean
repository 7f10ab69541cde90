import Daemonpp.Lifecycle.Startup
import Daemonpp.Log.Tag

/-!
# Programs

A program is what a user writes: `main`, which constructs an object, sets it up and
calls `run`, and the callbacks. `Program.scripted` is the process of a program: user
code executes the statements of its text, one after the other, and no other thread
calls `stop`. What is left of the text of each function on the stack follows the
process as a ghost.

The programs of the repository only set up their object and call `run`, and their
callbacks log and work on what is theirs (`Program.Serves`). `main` of such a program
is alone with its object until it calls `run`, and from there on user code logs, works
and returns (`running_of_run`).
-/

namespace Daemonpp

/-- The statements of user code. -/
inductive Stmt where
  | setName (name : Bytes)
  | setUpdateDuration (duration : Int)
  | setCwd (path : Bytes)
  /-- `run(argc, argv)`, with the arguments of `main`. -/
  | run
  | stop (code : Int)
  /-- A call of `dlog`. -/
  | log (message : Message)
  /-- A call of `dlog` with one of these priorities, whose text comes from elsewhere. -/
  | report (priorities : List Priority)
  /-- Code that uses neither the object nor `dlog`. -/
  | work
  deriving DecidableEq

structure Program where
  /-- The object that `main` constructs. -/
  obj : Object
  main : List Stmt
  onStart : Dconfig → List Stmt
  onUpdate : List Stmt
  onStop : List Stmt
  onReload : Dconfig → List Stmt

/-- User code neither calls the library nor uses the object: it has files and strings of its own. -/
def Act.works : Act → Bool
  | .openFile | .closeFile _ => true
  | .lib calls => calls.filter (· ≠ .heap) = []
  | _ => false

/-- A call of `dlog`, for which strings may be built and freed. -/
def Act.logs : Act → Bool
  | .lib calls => calls.filter (· ≠ .heap) = [.syslog]
  | _ => false

/-- What a statement may log. -/
def Stmt.admits (said : Message) : Stmt → Bool
  | .log message => said = message
  | .report priorities => said.priority ∈ priorities && cStr said.text = said.text
  | _ => false

/-- What user code does in a statement; `said` is what it passes to `dlog`. -/
def Stmt.does (argv : List Bytes) (said : Message) (stmt : Stmt) (a : Act) : Bool :=
  match stmt, a with
  | .setName name, .setName name' => name' = name
  | .setUpdateDuration duration, .setUpdateDuration duration' => duration' = duration
  | .setCwd path, .setCwd path' _ => path' = path
  | .run, .run argv' => argv' = argv
  | .stop code, .stop code' => code' = code
  | .log _, a | .report _, a => a.logs && stmt.admits said
  | _, _ => false

/-- What is left of a text behind what user code does. A text ends in a return, that of `main` in
the destruction of the object. -/
def perform (argv : List Bytes) (said : Message) (a : Act) : List Stmt → Option (List Stmt)
  | [] => if a = .ret ∨ a = .destroy then some [] else none
  -- it is up to the environment how much work there is
  | .work :: text => if a.works then some (.work :: text) else perform argv said a text
  | stmt :: text => if stmt.does argv said a then some text else none

namespace Program

variable {Dir File : Type} (P : Program)

/-- The text of a callback that is called with `arg`. -/
def body (cb : Callback) (arg : Option Dconfig) : List Stmt :=
  match cb with
  | .onStart => P.onStart (arg.getD {})
  | .onUpdate => P.onUpdate
  | .onStop => P.onStop
  | .onReload => P.onReload (arg.getD {})

/-- The text of the function that has just been called. -/
def text : List Frame → List Stmt
  | .callback cb arg :: _ => P.body cb arg
  | _ => []

/-- What is left of the texts on the stack behind a choice of the environment, if user code does
what its text says next. -/
def executes (argv : List Bytes) (l : Label × Message) (todo : List (List Stmt)) : Option (List (List Stmt)) :=
  match l.1, todo with
  | .user a, text :: texts => (perform argv l.2 a text).map (· :: texts)
  | .user _, [] | .enter _, _ => none
  | _, _ => some todo

/-- The texts behind a step: a call adds one, a return takes one away. -/
def follow (argv : List Bytes) (x : Proc Dir × Journal) (l : Label × Message) (_op : Op) (y : Proc Dir × Journal)
    (todo : List (List Stmt)) : Option (List (List Stmt)) :=
  (executes argv l todo).map fun todo =>
    if x.1.stack.length < y.1.stack.length then P.text y.1.stack :: todo
    else if y.1.stack.length < x.1.stack.length then todo.tail
    else todo

/-- The process of the program, with its journal. -/
def scripted (argv : List Bytes) (fs : PathSpace Dir File) :
    Lib.System ((Proc Dir × Journal) × List (List Stmt)) (Label × Message) Op :=
  (journaled fs).ghost (P.follow argv)

/-- `main` behind the construction of its object. -/
def start (pid : Nat) (cwd : Dir) : (Proc Dir × Journal) × List (List Stmt) :=
  ((Proc.launch P.obj pid cwd, .empty), [P.main])

end Program

/-! ## The programs of the repository -/

/-- `"version"`. -/
def version : Bytes := bytes "version"

/-- `my_daemon`. -/
def myDaemon : Program where
  obj := .unknown
  main := [.setName (bytes "my_daemon"), .setUpdateDuration 3000000000, .setCwd (bytes "/"), .run]
  onStart cfg := [.log (Dlog.info
    (bytes "my_daemon::on_start(): my_daemon version: " ++ cfg.get version ++ bytes " started successfully!"))]
  onUpdate := [.log (Dlog.info (bytes "my_daemon::on_update()"))]
  onStop := [.log (Dlog.info (bytes "my_daemon::on_stop()"))]
  onReload cfg := [.log (Dlog.info
    (bytes "my_daemon::on_reload(): new daemon version from updated config: " ++ cfg.get version))]

/-- `temperatured`. Its callbacks keep a file; what they write to it is not followed. -/
def temperatured : Program where
  obj := .unknown
  main := [.setName (bytes "temperatured"), .setUpdateDuration 1000000000, .setCwd (bytes "/tmp"), .run]
  onStart cfg :=
    [.log (Dlog.info (bytes "on_start: temperatured started: version=" ++ cfg.get version)), .work]
  onUpdate := [.work]
  onStop := [.work, .log (Dlog.info (bytes "on_stop: temperatured stopped."))]
  onReload cfg := [.log (Dlog.info (bytes "on_reload: temperatured reloaded: version=" ++ cfg.get version))]

/-- `httpreqd`. `on_update` logs the answer to its request, or the error behind which it gives up. -/
def httpreqd : Program where
  obj := .unknown
  main := [.setName (bytes "httpreqd"), .setUpdateDuration 60000000000, .setCwd (bytes "/"), .run]
  onStart _ := [.log (Dlog.info (bytes "httpreqd::on_start()"))]
  onUpdate := [.work, .report [.LOG_INFO, .LOG_ERR], .work]
  onStop := [.log (Dlog.info (bytes "httpreqd::on_stop()"))]
  onReload _ := [.log (Dlog.info (bytes "httpreqd::on_reload()"))]

/-- `main` may set up its object with these. -/
def Stmt.sets : Stmt → Bool
  | .setName _ | .setUpdateDuration _ | .setCwd _ => true
  | _ => false

/-- A statement that logs a line. -/
def Stmt.logs : Stmt → Bool
  | .log _ | .report _ => true
  | _ => false

/-- The lines that `cb` logs. -/
def Program.lines (P : Program) (cb : Callback) : Nat := (P.body cb none).countP Stmt.logs

/-- `main` sets up its object and calls `run`, and the callbacks log and work, as many lines for each
configuration. -/
structure Program.Serves (P : Program) : Prop where
  fresh : P.obj.isRunning = false
  main : ∃ settings, P.main = settings ++ [.run] ∧ ∀ stmt ∈ settings, stmt.sets = true
  callbacks : ∀ cb arg, ∀ stmt ∈ P.body cb arg, stmt = .work ∨ stmt.logs = true
  lines : ∀ cb arg, (P.body cb arg).countP Stmt.logs = P.lines cb

theorem serves_myDaemon : myDaemon.Serves where
  fresh := rfl
  main := ⟨[_, _, _], rfl, by simp [Stmt.sets]⟩
  callbacks cb arg := by cases cb <;> simp [Program.body, myDaemon, Stmt.logs]
  lines cb arg := by cases cb <;> rfl

theorem serves_temperatured : temperatured.Serves where
  fresh := rfl
  main := ⟨[_, _, _], rfl, by simp [Stmt.sets]⟩
  callbacks cb arg := by cases cb <;> simp [Program.body, temperatured, Stmt.logs]
  lines cb arg := by cases cb <;> rfl

theorem serves_httpreqd : httpreqd.Serves where
  fresh := rfl
  main := ⟨[_, _, _], rfl, by simp [Stmt.sets]⟩
  callbacks cb arg := by cases cb <;> simp [Program.body, httpreqd, Stmt.logs]
  lines cb arg := by cases cb <;> rfl

/-- `m_name` behind a statement. -/
def Stmt.nameAfter (old : Bytes) : Stmt → Bytes
  | .setName name => name
  | _ => old

/-- The name that `main` gives its object. -/
def Program.name (P : Program) : Bytes := P.main.foldl Stmt.nameAfter P.obj.name

/-- What user code of such a program does once it has called `run`. -/
def Label.serves : Label → Bool
  | .user .ret | .user .destroy => true
  | .user a => a.works || a.logs
  | .enter _ => false
  | _ => true

theorem Label.serves_of_act {a : Act} (serves : a.works = true ∨ a.logs = true) : (Label.user a).serves = true := by
  cases a with
  | ret | destroy => rfl
  | _ => exact Bool.or_eq_true_iff.2 serves

theorem Label.keepsLog_of_serves {l : Label} (serves : l.serves = true) : l.keepsLog = true := by
  cases l with
  | user a =>
    cases a with
    | run => cases serves
    | lib calls =>
      have only : ∀ call ∈ calls, call = .heap ∨ call = .syslog := by
        intro call mem
        by_cases heap : call = .heap
        · exact .inl heap
        · have kept : call ∈ calls.filter (· ≠ .heap) := List.mem_filter.2 ⟨mem, by simpa using heap⟩
          rcases Bool.or_eq_true_iff.1 serves with works | logs
          · rw [of_decide_eq_true works] at kept
            cases kept
          · rw [of_decide_eq_true logs] at kept
            exact .inr (List.mem_singleton.1 kept)
      simp only [Label.keepsLog, Bool.and_eq_true, decide_eq_true_eq]
      exact ⟨fun mem => by simpa using only _ mem, fun mem => by simpa using only _ mem⟩
    | _ => rfl
  | _ => rfl

section Run

variable {Dir File : Type} {fs : PathSpace Dir File} {s t : Proc Dir} {j j' : Journal} {l : Label} {said : Message}
variable {op : Op} {ops : List Op} {P : Program} {argv : List Bytes} {todo todo' : List (List Stmt)} {rest : List Stmt}

theorem step_scripted : (P.scripted argv fs).step ((s, j), todo) (l, said) = some (op, (t, j'), todo') ↔
    (s.step fs l = some (op, t) ∧ j' = j.follow s (l, said) op t) ∧
      P.follow argv (s, j) (l, said) op (t, j') todo = some todo' := by
  unfold Program.scripted
  rw [Lib.System.step_ghost, step_journaled]

/-! ## Up to the call of `run` -/

/-- The operations with which `main` sets up its object. -/
def Op.settles : Op → Bool
  | .tau | .setName _ | .setUpdateDuration _ | .setCwd _ _ | .acquire _ | .finish _ _ => true
  | _ => false

/-- `main` has still to execute `rest` and to call `run`. -/
structure SettingUp (P : Program) (rest : List Stmt) (ops : List Op) (s : Proc Dir) (j : Journal) : Prop where
  sets : ∀ stmt ∈ rest, stmt.sets = true
  named : rest.foldl Stmt.nameAfter s.world.obj.name = P.name
  handled : s.world.handled = []
  down : s.world.obj.isRunning = false
  alive : s.world.status = .alive
  threads : s.threads = []
  noted : Noted s.stack j.notes
  untagged : j.tag = none
  authors : ∀ record ∈ j.records, record.author = some .owner
  /-- The start-up is still to come. -/
  calls : startupCalls ops = []
  begun : begun ops = []

/-- Where `main` is: between two of its statements, or in the library calls of one. -/
inductive InMain (rest : List Stmt) : List Frame → List (List Stmt) → Prop where
  | live : InMain rest [.owner .live] [rest ++ [.run]]
  | lib {calls : List LibCall} {inside : Bool} (logs : calls <:+ logCalls) :
      InMain rest [.lib calls inside, .owner .live] [[], rest ++ [.run]]

/-- `main` has called `run`, and since then user code has logged and returned only. -/
def Running (P : Program) (argv : List Bytes) (fs : PathSpace Dir File) (ops : List Op) (s : Proc Dir) (j : Journal) :
    Prop :=
  ∃ before after s₀ j₀, ops = before ++ after ∧ SettingUp P [] before s₀ j₀ ∧ Entered argv s₀ ∧
    (journaled fs).Run (fun _ l => l.1.serves = true) (s₀, j₀) after (s, j)

/-- What setting up an object leaves alone. -/
structure Op.Settles (op : Op) : Prop where
  handled : ∀ handled, op.handledAfter handled = handled
  running : ∀ up, op.isRunning up = up
  status : ∀ status, op.statusAfter status = status
  threads : ∀ threads, op.survivors threads = threads
  starts : op.starts = false
  begins : op.begins = none

theorem Op.settles_after {op : Op} (settles : op.settles = true) : op.Settles := by
  cases op with
  | tau | setName | setUpdateDuration | setCwd | acquire | finish =>
    exact ⟨fun _ => rfl, fun _ => rfl, fun _ => rfl, fun _ => rfl, rfl, rfl⟩
  | _ => cases settles

/-- An operation with which `main` sets up its object. -/
theorem SettingUp.step (said : Message) (h : SettingUp P rest ops s j) (stacked : WellStacked s.stack)
    (step : s.step fs l = some (op, t)) (settles : op.settles = true) (threads : t.threads = op.survivors s.threads)
    {rest' : List Stmt} (sets : ∀ stmt ∈ rest', stmt.sets = true)
    (named : rest'.foldl Stmt.nameAfter (op.nameAfter s.world.obj.name) = P.name)
    (tag : op.tagAfter j.notes.head? j.tag = none)
    (author : ∀ answer, op = .finish .syslog answer → s.stack.tail.head?.map Frame.kind = some .owner) :
    SettingUp P rest' (ops ++ [op]) t (j.follow s (l, said) op t) := by
  have after := Op.settles_after settles
  obtain ⟨-, world, -⟩ := step_cases step
  constructor
  · exact sets
  · rw [world, Op.apply_name, named]
  · rw [world, Op.apply_handled, after.handled, h.handled]
  · rw [world, Op.apply_isRunning, after.running, h.down]
  · rw [world, Op.apply_status, after.status, h.alive]
  · rw [threads, after.threads, h.threads]
  · exact noted_step stacked h.noted step
  · exact tag
  · rcases follow_cases said h.noted step with ⟨message, answer, writes, -, records⟩ | ⟨records, -⟩
    · rw [records, author answer writes]
      intro record mem
      rcases List.mem_append.1 mem with before | now
      · exact h.authors record before
      · rw [List.mem_singleton.1 now]
    · rw [records]
      exact h.authors
  · have calls := h.calls
    rw [startupCalls] at calls ⊢
    rw [List.filter_append, calls, List.filter_singleton, after.starts]
    rfl
  · rw [begun_concat, h.begun, after.begins]
    rfl

/-- User code of which a text is left does the next statement of the text. -/
theorem executes_cons {stmt : Stmt} {text : List Stmt} {texts todo₁ : List (List Stmt)} {a : Act} (busy : stmt ≠ .work)
    (executed : Program.executes argv (.user a, said) ((stmt :: text) :: texts) = some todo₁) :
    stmt.does argv said a = true ∧ todo₁ = text :: texts := by
  obtain ⟨text₁, performed, rfl⟩ := Option.map_eq_some_iff.1 executed
  rw [perform.eq_3 argv said a stmt text busy] at performed
  split at performed
  · rename_i does
    cases performed
    exact ⟨does, rfl⟩
  · cases performed

/-- What `main` does in a statement that sets up its object. -/
theorem ActMove.sets {w : World Dir} {a : Act} {move : Move} {stmt : Stmt} (h : ActMove w (.owner .live) a op move)
    (does : stmt.does argv said a = true) (sets : stmt.sets = true) :
    op.settles = true ∧ (∀ old, op.nameAfter old = stmt.nameAfter old) ∧ (∀ note tag, op.tagAfter note tag = tag) ∧
      (∀ answer, op ≠ .finish .syslog answer) ∧ (move = .goto (.owner .live) ∨
        ∃ calls, calls <:+ logCalls ∧ move = .call (.owner .live) (.lib calls false)) := by
  cases stmt with
  | setName name =>
    cases h with
    | setName name' =>
      obtain rfl : name' = name := of_decide_eq_true does
      exact ⟨rfl, fun _ => rfl, fun _ _ => rfl, by simp, .inr ⟨[.heap], ⟨[.heap, .syslog], rfl⟩, rfl⟩⟩
    | _ => cases does
  | setUpdateDuration duration =>
    cases h with
    | setUpdateDuration => exact ⟨rfl, fun _ => rfl, fun _ _ => rfl, by simp, .inl rfl⟩
    | _ => cases does
  | setCwd path =>
    cases h with
    | setCwd => exact ⟨rfl, fun _ => rfl, fun _ _ => rfl, by simp, .inr ⟨[.heap], ⟨[.heap, .syslog], rfl⟩, rfl⟩⟩
    | noSetCwd => exact ⟨rfl, fun _ => rfl, fun _ _ => rfl, by simp, .inr ⟨logCalls, List.suffix_refl _, rfl⟩⟩
    | _ => cases does
  | _ => cases sets

theorem SettingUp.moves (h : SettingUp P rest ops s j) (main : InMain rest s.stack todo) (stacked : WellStacked s.stack)
    (step : (P.scripted argv fs).step ((s, j), todo) (l, said) = some (op, (t, j'), todo')) :
    (∃ rest', SettingUp P rest' (ops ++ [op]) t j' ∧ InMain rest' t.stack todo') ∨
      SettingUp P [] (ops ++ [op]) t j' ∧ Entered argv t ∧ todo' = [[], []] := by
  obtain ⟨⟨moved, rfl⟩, followed⟩ := step_scripted.1 step
  obtain ⟨todo₁, executed, same⟩ := Option.map_eq_some_iff.1 followed
  obtain ⟨-, -, cases⟩ := step_cases moved
  cases cases with
  | thread performs after label =>
    rcases label with ⟨code, rfl⟩ | ⟨i, rfl⟩
    · cases executed
    · simp [Proc.step, Proc.control, h.threads] at moved
  | @signal sig _ _ ready =>
    rw [Proc.deliverable, h.handled] at ready
    cases ready
  | @move f below move top moves after survive =>
    have next := h.step said stacked moved
    rw [top] at main
    generalize texts : todo = texts at main
    cases main with
    | live =>
      cases moves with
      | owner _ h' => cases h'
      | @user _ a _ _ h' =>
        subst texts
        cases rest with
        | nil =>
          -- `run`
          obtain ⟨does, rfl⟩ := executes_cons (by simp) executed
          cases h' with
          | run argv' =>
            obtain rfl : argv' = argv := of_decide_eq_true does
            rw [after] at same
            refine .inr ⟨next rfl survive (by simp) h.named h.untagged (by simp), after, ?_⟩
            rw [← same, top]
            rfl
          | _ => cases does
        | cons stmt rest =>
          have busy : stmt ≠ .work := by
            rintro rfl
            cases h.sets _ List.mem_cons_self
          obtain ⟨does, rfl⟩ := executes_cons busy executed
          have sets : ∀ stmt ∈ rest, stmt.sets = true := fun stmt mem => h.sets stmt (List.mem_cons_of_mem _ mem)
          obtain ⟨settles, name, tag, quiet, goes⟩ := h'.sets does (h.sets stmt List.mem_cons_self)
          have named : rest.foldl Stmt.nameAfter (op.nameAfter s.world.obj.name) = P.name := by
            rw [name]
            exact h.named
          have setting : SettingUp P rest (ops ++ [op]) t (j.follow s (.user a, said) op t) :=
            next settles survive sets named ((tag _ _).trans h.untagged)
              fun answer writes => absurd writes (quiet answer)
          refine .inl ⟨rest, setting, ?_⟩
          rw [← same, after, top]
          rcases goes with rfl | ⟨calls, logs, rfl⟩
          · exact .live
          · exact .lib logs
    | lib logs =>
      cases moves with
      | lib _ h' =>
        subst texts
        cases executed
        rw [after] at same ⊢
        rw [top] at same
        rw [← same]
        cases h' with
        | nil => exact .inl ⟨rest, next rfl survive h.sets h.named h.untagged (by simp), .live⟩
        | acquire => exact .inl ⟨rest, next rfl survive h.sets h.named h.untagged (by simp), .lib logs⟩
        | finish =>
          exact .inl ⟨rest, next rfl survive h.sets h.named ((tagAfter_of_log logs).trans h.untagged)
            fun _ _ => by rw [top]; rfl, .lib ((List.suffix_cons _ _).trans logs)⟩
      | user _ user => cases user

/-! ## From there on -/

/-- All that is left to execute is logging and work. -/
def ServesOnly (todo : List (List Stmt)) : Prop := ∀ text ∈ todo, ∀ stmt ∈ text, stmt = .work ∨ stmt.logs = true

/-- What a text that only logs and works has user code do, and what is left of it. -/
inductive Acts (said : Message) (text : List Stmt) (a : Act) : List Stmt → Prop where
  | ends (last : a = .ret ∨ a = .destroy) (quiet : text.countP Stmt.logs = 0) : Acts said text a []
  | works {text₁ : List Stmt} (works : a.works = true) (left : text₁ <:+ text)
      (same : text.countP Stmt.logs = text₁.countP Stmt.logs) : Acts said text a text₁
  | logs {text₁ : List Stmt} {stmt : Stmt} (logs : a.logs = true) (mem : stmt ∈ text) (admits : stmt.admits said = true)
      (left : text₁ <:+ text) (one : text.countP Stmt.logs = text₁.countP Stmt.logs + 1) : Acts said text a text₁

theorem acts_of_perform {a : Act} {text text₁ : List Stmt} (serves : ∀ stmt ∈ text, stmt = .work ∨ stmt.logs = true)
    (performed : perform argv said a text = some text₁) : Acts said text a text₁ := by
  induction text with
  | nil =>
    rw [perform] at performed
    split at performed <;> cases performed
    exact .ends ‹_› rfl
  | cons stmt text ih =>
    rcases serves stmt List.mem_cons_self with rfl | logs
    · have idle : (Stmt.work :: text).countP Stmt.logs = text.countP Stmt.logs :=
        List.countP_cons_of_neg (by simp [Stmt.logs])
      rw [perform] at performed
      split at performed
      · cases performed
        exact .works ‹_› (List.suffix_refl _) rfl
      · -- the work is done
        cases ih (fun stmt mem => serves stmt (List.mem_cons_of_mem _ mem)) performed with
        | ends last quiet => exact .ends last (idle.trans quiet)
        | works works left same => exact .works works (left.trans (List.suffix_cons _ _)) (idle.trans same)
        | logs logs mem admits left one =>
          exact .logs logs (List.mem_cons_of_mem _ mem) admits (left.trans (List.suffix_cons _ _)) (idle.trans one)
    · have busy : stmt ≠ .work := by
        rintro rfl
        cases logs
      rw [perform.eq_3 argv said a stmt text busy] at performed
      split at performed
      · rename_i does
        cases performed
        have both : a.logs = true ∧ stmt.admits said = true := by
          cases stmt with
          | log | report => exact Bool.and_eq_true_iff.1 does
          | _ => cases logs
        exact .logs both.1 List.mem_cons_self both.2 (List.suffix_cons _ _) (List.countP_cons_of_pos logs)
      · cases performed

/-- User code whose texts only log and work does nothing else. -/
theorem ServesOnly.executes (h : ServesOnly todo) {todo₁ : List (List Stmt)}
    (executed : Program.executes argv (l, said) todo = some todo₁) : l.serves = true ∧ ServesOnly todo₁ := by
  cases l with
  | user a =>
    cases todo with
    | nil => cases executed
    | cons text texts =>
      obtain ⟨text₁, performed, rfl⟩ := Option.map_eq_some_iff.1 executed
      have only := h text List.mem_cons_self
      have below : ServesOnly texts := fun text mem => h text (List.mem_cons_of_mem _ mem)
      have behind : text₁ <:+ text → ServesOnly (text₁ :: texts) := by
        intro left text' mem
        rcases List.mem_cons.1 mem with rfl | mem
        · exact fun stmt mem => only stmt (left.subset mem)
        · exact below text' mem
      cases acts_of_perform only performed with
      | ends last =>
        refine ⟨?_, behind List.nil_suffix⟩
        rcases last with rfl | rfl
        · rfl
        · rfl
      | works works left => exact ⟨Label.serves_of_act (.inl works), behind left⟩
      | logs logs _ _ left => exact ⟨Label.serves_of_act (.inr logs), behind left⟩
  | enter => cases executed
  | main | signal | thread =>
    cases executed
    exact ⟨rfl, h⟩

theorem servesOnly_text (serves : P.Serves) (stack : List Frame) :
    ∀ stmt ∈ P.text stack, stmt = .work ∨ stmt.logs = true := by
  unfold Program.text
  split
  · exact serves.callbacks _ _
  · nofun

theorem ServesOnly.step (h : ServesOnly todo) (serves : P.Serves)
    (step : (P.scripted argv fs).step ((s, j), todo) (l, said) = some (op, (t, j'), todo')) :
    l.serves = true ∧ ServesOnly todo' := by
  obtain ⟨-, followed⟩ := step_scripted.1 step
  obtain ⟨todo₁, executed, same⟩ := Option.map_eq_some_iff.1 followed
  obtain ⟨serving, logs⟩ := h.executes executed
  refine ⟨serving, ?_⟩
  rw [← same]
  dsimp only
  split
  · exact fun text mem => (List.mem_cons.1 mem).elim (fun same => same ▸ servesOnly_text serves _) (logs text)
  · split
    · exact fun text mem => logs text (List.mem_of_mem_tail mem)
    · exact logs

/-- **A serving program is alone with its object until `main` calls `run`**, and from there on its
user code logs, works and returns. -/
theorem running_of_run {pid : Nat} {cwd : Dir} (serves : P.Serves)
    (run : (P.scripted argv fs).Run (fun _ _ => True) (P.start pid cwd) ops ((s, j), todo)) :
    (∃ rest, SettingUp P rest ops s j ∧ InMain rest s.stack todo) ∨ Running P argv fs ops s j ∧ ServesOnly todo := by
  obtain ⟨settings, main, sets⟩ := serves.main
  have start : SettingUp P settings [] (Proc.launch P.obj pid cwd) .empty := by
    refine ⟨sets, ?_, rfl, serves.fresh, rfl, rfl, .cons trivial .nil, rfl, nofun, rfl, rfl⟩
    rw [Program.name, main, List.foldl_append]
    rfl
  refine (run.invariant (I := fun ops x => WellStacked x.1.1.stack ∧
    ((∃ rest, SettingUp P rest ops x.1.1 x.1.2 ∧ InMain rest x.1.1.stack x.2) ∨
      Running P argv fs ops x.1.1 x.1.2 ∧ ServesOnly x.2)) ⟨stacked_launch _ pid cwd, .inl ⟨settings, start, ?_⟩⟩ ?_).2
  · rw [Program.start, main]
    exact .live
  · rintro ops ⟨⟨s, j⟩, todo⟩ op ⟨⟨t, j'⟩, todo'⟩ - ⟨stacked, stage⟩ ⟨⟨l, said⟩, -, step⟩
    obtain ⟨⟨moved, same⟩, -⟩ := step_scripted.1 step
    refine ⟨stacked.step moved, ?_⟩
    rcases stage with ⟨rest, setting, inMain⟩ | ⟨⟨before, after, s₀, j₀, rfl, setting, entered, running⟩, logs⟩
    · rcases setting.moves inMain stacked step with stays | ⟨settled, entered, rfl⟩
      · exact .inl stays
      · exact .inr ⟨⟨_, [], t, j', (List.append_nil _).symm, settled, entered, .start⟩, by simp [ServesOnly]⟩
    · obtain ⟨serving, logs⟩ := logs.step serves step
      refine .inr ⟨⟨before, after ++ [op], s₀, j₀, List.append_assoc _ _ _, setting, entered, ?_⟩, logs⟩
      exact running.snoc ⟨(l, said), serving, step_journaled.2 ⟨moved, same⟩⟩

end Run

end Daemonpp
