import Daemonpp.Log.Reports
import Daemonpp.Process.Delivery
import Daemonpp.Program.Outcome

/-!
# What a serving program writes in the log

Each callback of a serving program writes the lines of its text: no callback writes
more, one that has returned has written them all (`lines_counted`), each line is one
of the text of the call that writes it, for the configuration which that call was handed,
and it is tagged with the name that `main` gave the object (`lines_told`). `Written`
follows the stack together with the notes of the journal and what is left of the texts.
-/

namespace Daemonpp

/-- The callbacks that are handed a configuration. -/
def Callback.configured : Callback → Bool
  | .onStart | .onReload => true
  | .onUpdate | .onStop => false

/-- A message of the text of `cb`. -/
def Program.Admits (P : Program) (cb : Callback) (arg : Option Dconfig) (message : Message) : Prop :=
  ∃ stmt ∈ P.body cb arg, stmt.admits message = true

/-- What is known of a frame, its note and what is left of its text: a callback is somewhere in its
text, and the library calls above it are about one of its lines, if any. -/
def Program.Writes (P : Program) (note : Note) (text : List Stmt) (f : Frame) (below : List Frame) : Prop :=
  match f, below with
  | .callback cb arg, _ => arg.isSome = cb.configured ∧ text <:+ P.body cb arg
  | .lib calls _, .callback cb arg :: _ => .syslog ∈ calls →
      calls.count .syslog = 1 ∧ ∃ message, P.Admits cb arg message ∧ note = .message message
  | _, _ => True

/-- The stack, the notes of the journal and what is left of the texts, frame by frame. -/
inductive Written (P : Program) : List Frame → List Note → List (List Stmt) → Prop where
  | nil : Written P [] [] []
  | cons {f : Frame} {below : List Frame} {note : Note} {notes : List Note} {text : List Stmt}
      {texts : List (List Stmt)} (writes : P.Writes note text f below) (written : Written P below notes texts) :
      Written P (f :: below) (note :: notes) (text :: texts)

/-- Nothing is known of the frames of other functions. -/
def Kind.writes : Kind → Bool
  | .callback _ | .lib => true
  | _ => false

section Run

variable {Dir File : Type} {fs : PathSpace Dir File} {s t : Proc Dir} {j j' : Journal} {l : Label} {said : Message}
variable {op : Op} {P : Program} {argv : List Bytes} {todo todo' : List (List Stmt)} {f : Frame} {rest : List Frame}
variable {note : Note} {notes : List Note} {text : List Stmt} {texts : List (List Stmt)} {move : Move}

theorem Program.writes_of_kind (other : f.kind.writes = false) : P.Writes note text f rest := by
  cases f with
  | callback | lib => cases other
  | _ => trivial

theorem Program.Writes.resume (h : P.Writes note text f rest) (value : Option Dconfig) :
    P.Writes note text (f.resume value) rest := by
  cases f with
  | callback | lib => exact h
  | _ => exact Program.writes_of_kind (by rw [Frame.kind_resume]; rfl)

theorem Program.Writes.acquire {calls : List LibCall} {inside inside' : Bool}
    (h : P.Writes note text (.lib calls inside) rest) : P.Writes note text (.lib calls inside') rest := by
  cases rest with
  | nil => trivial
  | cons g below =>
    cases g with
    | callback => exact h
    | _ => trivial

/-- The calls of a callback that are still to be made are about its line. -/
theorem Program.Writes.finish {call : LibCall} {calls : List LibCall} {inside : Bool}
    (h : P.Writes note text (.lib (call :: calls) inside) rest) :
    P.Writes note text (.lib calls false) rest := by
  cases rest with
  | nil => trivial
  | cons g below =>
    cases g with
    | callback cb arg =>
      intro mem
      obtain ⟨one, line⟩ := h (List.mem_cons_of_mem _ mem)
      have some : 0 < calls.count .syslog := List.count_pos_iff.2 mem
      rw [List.count_cons] at one
      exact ⟨by omega, line⟩
    | _ => trivial

/-- What user code in a callback of a serving program does. -/
inductive CallbackActs (P : Program) (cb : Callback) (arg : Option Dconfig) (l : Label × Message) (text : List Stmt) :
    List Stmt → Move → Prop where
  | ends (quiet : text.countP Stmt.logs = 0) : CallbackActs P cb arg l text [] (.ret none)
  | works {text₁ : List Stmt} (left : text₁ <:+ text) (same : text.countP Stmt.logs = text₁.countP Stmt.logs) :
      CallbackActs P cb arg l text text₁ (.goto (.callback cb arg))
  | builds {text₁ : List Stmt} {calls : List LibCall} (left : text₁ <:+ text)
      (same : text.countP Stmt.logs = text₁.countP Stmt.logs) (quiet : .syslog ∉ calls) :
      CallbackActs P cb arg l text text₁ (.call (.callback cb arg) (.lib calls false))
  | logs {text₁ : List Stmt} {calls : List LibCall} (left : text₁ <:+ text)
      (one : text.countP Stmt.logs = text₁.countP Stmt.logs + 1) (called : l.1 = .user (.lib calls))
      (once : calls.count .syslog = 1) (admits : P.Admits cb arg l.2) :
      CallbackActs P cb arg l text text₁ (.call (.callback cb arg) (.lib calls false))

/-- The calls of `syslog` are among those that do not only use the heap. -/
theorem count_filter_heap (calls : List LibCall) :
    calls.count .syslog = (calls.filter (· ≠ .heap)).count .syslog :=
  (List.count_filter (by decide)).symm

/-- User code in a callback ends, works, or logs a line of its text. -/
theorem callback_acts {cb : Callback} {arg : Option Dconfig} {todo₁ : List (List Stmt)} (serves : P.Serves)
    (writes : P.Writes note text (.callback cb arg) rest)
    (executed : Program.executes argv (l, said) (text :: texts) = some todo₁)
    (moves : Moves s.world (.callback cb arg) l op move) :
    ∃ text₁, todo₁ = text₁ :: texts ∧ CallbackActs P cb arg (l, said) text text₁ move := by
  cases moves with
  | @user _ a _ _ h user =>
    obtain ⟨text₁, performed, rfl⟩ := Option.map_eq_some_iff.1 executed
    refine ⟨text₁, rfl, ?_⟩
    have only := fun stmt mem => serves.callbacks cb arg stmt (writes.2.subset mem)
    cases acts_of_perform only performed with
    | ends last quiet =>
      cases h with
      | ret => exact .ends quiet
      | destroy live => cases live
      | _ => simp at last
    | works works left same =>
      cases h with
      | openFile | closeFile => exact .works left same
      | lib calls =>
        refine .builds left same fun mem => ?_
        have none : calls.count .syslog = 0 := by
          rw [count_filter_heap, of_decide_eq_true works]
          rfl
        exact absurd (List.count_pos_iff.2 mem) (by omega)
      | _ => cases works
    | logs logs mem admits left one =>
      cases h with
      | lib calls =>
        refine .logs left one rfl ?_ ⟨_, writes.2.subset mem, admits⟩
        rw [count_filter_heap, of_decide_eq_true logs]
        rfl
      | _ => cases logs

/-- What is left of the text of the innermost function is all that changes. -/
theorem executes_texts {todo₁ : List (List Stmt)}
    (executed : Program.executes argv (l, said) (text :: texts) = some todo₁) : ∃ text₁, todo₁ = text₁ :: texts := by
  cases l with
  | user a =>
    obtain ⟨text₁, -, rfl⟩ := Option.map_eq_some_iff.1 executed
    exact ⟨text₁, rfl⟩
  | enter => cases executed
  | main | signal | thread =>
    cases executed
    exact ⟨text, rfl⟩

/-- Another thread has no text to execute. -/
theorem executes_thread {todo₁ : List (List Stmt)} (label : (∃ code, l = .enter code) ∨ ∃ i, l = .thread i)
    (executed : Program.executes argv (l, said) todo = some todo₁) : todo₁ = todo := by
  rcases label with ⟨code, rfl⟩ | ⟨i, rfl⟩
  · cases executed
  · exact (Option.some.inj executed).symm

/-- A callback is begun with what it is due. -/
theorem Moves.handed {w : World Dir} {f' : Frame} {cb : Callback} {arg : Option Dconfig}
    (moves : Moves w f l op (.call f' (.callback cb arg))) : arg.isSome = cb.configured := by
  cases moves with
  | run _ h | signalHandler _ h =>
    cases h
    all_goals rfl
  | daemonize _ h | stop _ h | fromFile _ h | lib _ h | owner _ h | user h => cases h

/-- A library call that no callback makes. -/
theorem Program.writes_lib {calls : List LibCall} {inside : Bool} {f' : Frame} (other : f'.kind.writes = false) :
    P.Writes note text (.lib calls inside) (f' :: rest) := by
  cases f' with
  | callback | lib => cases other
  | _ => trivial

theorem Written.ret (written : Written P rest notes texts) (value : Option Dconfig) :
    Written P (Move.apply rest (.ret value)) notes texts := by
  cases written with
  | nil => exact .nil
  | cons writes written => exact .cons (writes.resume value) written

/-- The frames of the functions whose lines are not the program's. -/
theorem Written.other (written : Written P rest notes texts) (other : f.kind.writes = false)
    (kinds : move.OfKind l f.kind) (moves : Moves s.world f l op move) (new : Note) {text₁ : List Stmt} :
    Written P (move.apply rest) (move.beside new (note :: notes))
      (move.beside (P.text (move.apply rest)) (text₁ :: texts)) := by
  cases move with
  | goto f' =>
    refine .cons ?_ written
    rcases kinds with same | rfl
    · exact Program.writes_of_kind ((congrArg Kind.writes same).trans other)
    · trivial
  | call f' g =>
    have caller : f'.kind.writes = false := (congrArg Kind.writes kinds.1).trans other
    refine .cons ?_ (.cons (Program.writes_of_kind caller) written)
    cases g with
    | callback cb arg => exact ⟨moves.handed, List.suffix_refl _⟩
    | lib => exact Program.writes_lib caller
    | _ => trivial
  | ret value => exact written.ret value
  | leave => exact written

theorem written_step (serves : P.Serves) (stacked : WellStacked s.stack) (written : Written P s.stack j.notes todo)
    (step : (P.scripted argv fs).step ((s, j), todo) (l, said) = some (op, (t, j'), todo')) :
    Written P t.stack j'.notes todo' := by
  obtain ⟨⟨moved, rfl⟩, followed⟩ := step_scripted.1 step
  obtain ⟨todo₁, executed, same⟩ := Option.map_eq_some_iff.1 followed
  have notes : (j.follow s (l, said) op t).notes = j.notesAfter s t said l := rfl
  rw [notes, ← same]
  unfold Journal.notesAfter
  dsimp only
  obtain ⟨-, -, cases⟩ := step_cases moved
  cases cases with
  | thread _ after label =>
    obtain rfl := executes_thread label executed
    rw [after, if_neg (Nat.lt_irrefl _), if_neg (Nat.lt_irrefl _), if_neg (Nat.lt_irrefl _), if_neg (Nat.lt_irrefl _)]
    exact written
  | signal label _ _ after =>
    subst label
    cases executed
    rw [after, List.length_cons, if_pos (Nat.lt_succ_self _), if_pos (Nat.lt_succ_self _)]
    exact .cons trivial written
  | @move f rest move top moves after =>
    rw [beside_move _ _ top after, beside_move _ _ top after, after]
    have kinds := moves.ofKind (stacked.top top).1
    rw [top] at written
    generalize j.notes = list at written
    generalize whole : todo = stmts at written
    cases written with
    | @cons _ _ note list text texts writes written =>
      subst whole
      cases f with
      | callback cb arg =>
        obtain ⟨text₁, rfl, acts⟩ := callback_acts serves writes executed moves
        have behind : text₁ <:+ text → P.Writes note text₁ (.callback cb arg) rest :=
          fun left => ⟨writes.1, left.trans writes.2⟩
        cases acts with
        | ends => exact written.ret none
        | works left => exact .cons (behind left) written
        | builds left _ quiet => exact .cons (fun mem => absurd mem quiet) (.cons (behind left) written)
        | logs left _ called once admits =>
          cases called
          refine .cons (fun _ => ⟨once, said, admits, ?_⟩) (.cons (behind left) written)
          unfold Proc.note
          rw [top]
          rfl
      | lib calls inside =>
        cases moves with
        | lib _ h =>
          cases executed
          cases h with
          | nil => exact written
          | acquire => exact .cons writes.acquire written
          | finish => exact .cons writes.finish written
        | user _ user => cases user
      | _ =>
        obtain ⟨text₁, rfl⟩ := executes_texts executed
        exact written.other rfl kinds moves _

/-! ## Whose line it is -/

/-- A line that a callback writes. -/
theorem Written.line (written : Written P s.stack j.notes todo) {calls : List LibCall}
    (top : s.stack = .lib (.syslog :: calls) true :: rest) {record : Record} (mem : record ∈ j.line s) {cb : Callback}
    (author : record.author = some (.callback cb)) :
    ∃ arg below, rest = .callback cb arg :: below ∧ P.Admits cb arg record.message ∧ arg.isSome = cb.configured := by
  unfold Journal.line at mem
  rw [top] at written mem
  generalize j.notes = notes at written mem
  cases written with
  | cons writes written =>
    cases written with
    | nil =>
      split at mem
      · obtain rfl := List.mem_singleton.1 mem
        cases author
      · cases mem
    | @cons g below note' notes' text' texts' writes' written =>
      split at mem
      · obtain rfl := List.mem_singleton.1 mem
        have kind : g.kind = .callback cb := Option.some.inj author
        cases g with
        | callback cb' arg =>
          cases kind
          rename_i same
          obtain ⟨-, message, admits, rfl⟩ := writes List.mem_cons_self
          cases same
          exact ⟨arg, below, rfl, admits, writes'.1⟩
        | _ => cases kind
      · cases mem

/-- The steps of the process among those of a program. -/
def processSteps (events : List ((Label × Message) × Op)) : List Traced := events.map fun event => (event.1.1, event.2)

/-- A call of `cb` that was handed `arg` is in its call of `syslog`, which writes `record`: a line of its
text, for a configuration that was read, and for `on_reload` since the last SIGHUP. -/
structure WritesLine (P : Program) (path : Bytes) (events : List Traced) (s : Proc Dir) (j : Journal)
    (record : Record) (cb : Callback) (arg : Option Dconfig) : Prop where
  writer : ∃ calls below, s.stack = .lib (.syslog :: calls) true :: .callback cb arg :: below
  line : record ∈ j.line s
  admits : P.Admits cb arg record.message
  handed : arg.isSome = cb.configured
  loaded : ∀ cfg, arg = some cfg → Loaded (if cb = .onReload then sinceReload events else events) path cfg

/-- In a run of the program, a step of `syslog` has written `record` for a call of `cb`. -/
def Program.Wrote (P : Program) (argv : List Bytes) (fs : PathSpace Dir File) (pid : Nat) (cwd : Dir) (path : Bytes)
    (events : List ((Label × Message) × Op)) (record : Record) (cb : Callback) : Prop :=
  ∃ early late l answer s j todo arg, events = early ++ (l, .finish .syslog answer) :: late ∧
    (P.scripted argv fs).traced.Run (fun _ _ => True) (P.start pid cwd) early ((s, j), todo) ∧
    WritesLine P path (processSteps early) s j record cb arg

theorem Program.Wrote.snoc {pid : Nat} {cwd : Dir} {path : Bytes} {events : List ((Label × Message) × Op)}
    {record : Record} {cb : Callback} (h : P.Wrote argv fs pid cwd path events record cb)
    (event : (Label × Message) × Op) : P.Wrote argv fs pid cwd path (events ++ [event]) record cb := by
  obtain ⟨early, late, l, answer, s, j, todo, arg, rfl, run, writes⟩ := h
  exact ⟨early, late ++ [event], l, answer, s, j, todo, arg, by simp, run, writes⟩

/-- What a run of the program has delivered and written. -/
structure Lined (P : Program) (argv : List Bytes) (path : Bytes) (events : List Traced) (s : Proc Dir) (j : Journal)
    (todo : List (List Stmt)) : Prop where
  delivers : Delivers argv path events s
  written : Written P s.stack j.notes todo

/-- A program calls `run` with the arguments of `main`. -/
theorem run_of_perform {argv' : List Bytes} {text₁ : List Stmt}
    (performed : perform argv said (.run argv') text = some text₁) : argv' = argv := by
  induction text with
  | nil => cases performed
  | cons stmt text ih =>
    cases stmt with
    | work => exact ih performed
    | run =>
      rw [perform.eq_3 argv said _ .run text (by simp)] at performed
      split at performed
      · exact of_decide_eq_true ‹_›
      · cases performed
    | _ => cases performed

theorem runsWith_of_executes {todo₁ : List (List Stmt)} (executed : Program.executes argv (l, said) todo = some todo₁) :
    runsWith argv l = true := by
  cases l with
  | user a =>
    cases a with
    | run argv' =>
      cases todo with
      | nil => cases executed
      | cons text texts =>
        obtain ⟨text₁, performed, -⟩ := Option.map_eq_some_iff.1 executed
        exact beq_iff_eq.2 (run_of_perform performed)
    | _ => rfl
  | _ => rfl

theorem Lined.step {path : Bytes} {events : List Traced} (h : Lined P argv path events s j todo) (serves : P.Serves)
    (found : scanConfig argv = some (some path)) (named : path ≠ [])
    (step : (P.scripted argv fs).step ((s, j), todo) (l, said) = some (op, (t, j'), todo')) :
    Lined P argv path (events ++ [(l, op)]) t j' todo' where
  delivers := by
    obtain ⟨⟨moved, -⟩, followed⟩ := step_scripted.1 step
    obtain ⟨todo₁, executed, -⟩ := Option.map_eq_some_iff.1 followed
    exact h.delivers.step found named (runsWith_of_executes executed) moved
  written := written_step serves h.delivers.stacked h.written step

/-- The line that a step of `syslog` writes for a callback. -/
theorem Lined.writes {path : Bytes} {events : List Traced} (h : Lined P argv path events s j todo)
    {answer : Answer} (step : s.step fs l = some (.finish .syslog answer, t)) {record : Record}
    (mem : record ∈ j.line s) {cb : Callback} (author : record.author = some (.callback cb)) :
    ∃ arg, WritesLine P path events s j record cb arg := by
  obtain ⟨calls, rest, top⟩ := lib_of_finish step
  obtain ⟨arg, below, rfl, admits, handed⟩ := h.written.line top mem author
  have carries := h.delivers.carries
  rw [top] at carries
  exact ⟨arg, ⟨calls, below, top⟩, mem, admits, handed, carries.2.1⟩

end Run

section Count

variable {Dir File : Type} {fs : PathSpace Dir File} {s t : Proc Dir} {j j' : Journal} {l : Label} {said : Message}
variable {op : Op} {P : Program} {argv : List Bytes} {todo todo' : List (List Stmt)} {f : Frame} {rest : List Frame}
variable {note : Note} {text : List Stmt} {texts : List (List Stmt)} {move : Move}

/-- The lines of `cb` that are still to be logged. -/
def unlogged (cb : Callback) : List Frame → List (List Stmt) → Nat
  | f :: below, text :: texts => (if f.kind = .callback cb then text.countP Stmt.logs else 0) + unlogged cb below texts
  | _, _ => 0

theorem unlogged_cons_of_kind {cb : Callback} (other : f.kind ≠ .callback cb) :
    unlogged cb (f :: rest) (text :: texts) = unlogged cb rest texts := by
  rw [unlogged, if_neg other, Nat.zero_add]

theorem unlogged_ret {cb : Callback} (value : Option Dconfig) :
    unlogged cb (Move.apply rest (.ret value)) texts = unlogged cb rest texts := by
  cases rest with
  | nil => rfl
  | cons g below =>
    cases texts with
    | nil => rfl
    | cons text texts => rw [Move.apply, unlogged, unlogged, g.kind_resume]

/-- The lines of `cb` that are owed, in its text or in a library call. -/
def owedLines (cb : Callback) (stack : List Frame) (todo : List (List Stmt)) : Nat :=
  owed (.callback cb) stack + unlogged cb stack todo

/-- A callback is begun by the call of it. -/
theorem Moves.began_iff {w : World Dir} {cb : Callback} (moves : Moves w f l op move) :
    op = .began cb ↔ ∃ f' arg, move = .call f' (.callback cb arg) := by
  cases moves with
  | exiting => simp
  | run _ h | daemonize _ h | stop _ h | signalHandler _ h | fromFile _ h | lib _ h | owner _ h | user h =>
    cases h <;> simp

/-- A function other than `cb` owes the lines of it when it begins it. -/
theorem unlogged_other {cb : Callback} {text₁ : List Stmt} (serves : P.Serves) (other : f.kind ≠ .callback cb)
    (kinds : move.OfKind l f.kind) (moves : Moves s.world f l op move) :
    unlogged cb (move.apply rest) (move.beside (P.text (move.apply rest)) (text₁ :: texts)) =
      unlogged cb rest texts + if op = .began cb then P.lines cb else 0 := by
  have begins : op = .began cb ↔ ∃ f' arg, move = .call f' (.callback cb arg) := moves.began_iff
  have uncalled : (∀ f' g, move ≠ .call f' g) → (if op = .began cb then P.lines cb else 0) = 0 := by
    intro uncalled
    refine if_neg fun began => ?_
    obtain ⟨f', arg, called⟩ := begins.1 began
    exact uncalled _ _ called
  cases move with
  | goto f' =>
    rw [uncalled (by simp)]
    refine unlogged_cons_of_kind ?_
    rcases kinds with same | rfl
    · exact same ▸ other
    · simp [Frame.kind]
  | call f' g =>
    have caller : f'.kind ≠ .callback cb := kinds.1 ▸ other
    rw [Move.apply, Move.beside, unlogged, unlogged_cons_of_kind caller, Nat.add_comm]
    by_cases mine : g.kind = .callback cb
    · cases g with
      | callback cb' arg =>
        cases mine
        rw [if_pos (begins.2 ⟨f', arg, rfl⟩), show Frame.kind _ = Kind.callback cb from rfl, if_pos rfl]
        exact congrArg _ (serves.lines cb arg)
      | _ => cases mine
    · have quiet : op ≠ .began cb := by
        rw [Ne, begins]
        rintro ⟨_, arg, same⟩
        cases same
        exact mine rfl
      rw [if_neg quiet, if_neg mine]
  | ret value =>
    rw [uncalled (by simp)]
    exact unlogged_ret value
  | leave =>
    rw [uncalled (by simp)]
    rfl

/-- User code begins no callback, and what it logs is not written at once. -/
theorem Moves.quiet_callback {w : World Dir} {cb cb' : Callback} {arg : Option Dconfig} {author : Kind}
    {stack : List Frame} (moves : Moves w (.callback cb arg) l op move) :
    op ≠ .began cb' ∧ op.writes author stack = false := by
  cases moves with
  | user h => cases h <;> simp [Op.writes]

/-- A callback owes its lines until it has written them. -/
theorem owedLines_callback {cb : Callback} {arg : Option Dconfig} {todo₁ : List (List Stmt)} (serves : P.Serves)
    (writes : P.Writes note text (.callback cb arg) rest)
    (executed : Program.executes argv (l, said) (text :: texts) = some todo₁)
    (moves : Moves s.world (.callback cb arg) l op move) :
    owedLines cb (.callback cb arg :: rest) (text :: texts) =
      owedLines cb (move.apply rest) (move.beside (P.text (move.apply rest)) todo₁) := by
  have mine : (Frame.callback cb arg).kind = .callback cb := rfl
  have owes : owed (.callback cb) (.callback cb arg :: rest) = owed (.callback cb) rest := Nat.zero_add _
  have left : ∀ text, unlogged cb (.callback cb arg :: rest) (text :: texts) =
      text.countP Stmt.logs + unlogged cb rest texts := by
    intro text
    rw [unlogged, if_pos mine]
  have called : ∀ calls, owed (.callback cb) (.lib calls false :: .callback cb arg :: rest) =
      calls.count .syslog + owed (.callback cb) rest := by
    intro calls
    rw [owed, owes, Frame.owes, List.head?_cons, Option.map_some, mine, if_pos rfl]
  have none : ∀ calls, (Frame.lib calls false).kind ≠ .callback cb := by simp [Frame.kind]
  obtain ⟨text₁, rfl, acts⟩ := callback_acts serves writes executed moves
  rw [owedLines, owedLines, owes, left]
  cases acts with
  | ends quiet => rw [owed_ret, Move.beside, List.tail_cons, unlogged_ret, quiet, Nat.zero_add]
  | works _ same => rw [Move.apply, Move.beside, owes, left, same]
  | @builds _ calls _ same quiet =>
    rw [Move.apply, Move.beside, called, unlogged_cons_of_kind (none calls), left, List.count_eq_zero.2 quiet, same,
      Nat.zero_add]
  | @logs _ calls _ one _ once =>
    rw [Move.apply, Move.beside, called, unlogged_cons_of_kind (none calls), left, once, one]
    omega

/-- A callback that is not in progress owes no line. -/
theorem unlogged_eq_zero {stack : List Frame} {cb : Callback} (none : ∀ f ∈ stack, f.kind ≠ .callback cb) :
    unlogged cb stack todo = 0 := by
  induction stack generalizing todo with
  | nil => rfl
  | cons f below ih =>
    cases todo with
    | nil => rfl
    | cons text texts =>
      rw [unlogged_cons_of_kind (none f List.mem_cons_self)]
      exact ih fun g mem => none g (List.mem_cons_of_mem f mem)

/-- **The lines of each callback begun are owed**, until they are written. -/
theorem owedLines_step (serves : P.Serves) (cb : Callback) (stacked : WellStacked s.stack)
    (written : Written P s.stack j.notes todo)
    (step : (P.scripted argv fs).step ((s, j), todo) (l, said) = some (op, (t, j'), todo')) :
    owedLines cb s.stack todo + (if op = .began cb then P.lines cb else 0) =
      owedLines cb t.stack todo' + (op.writes (.callback cb) s.stack).toNat := by
  obtain ⟨⟨moved, rfl⟩, followed⟩ := step_scripted.1 step
  obtain ⟨todo₁, executed, same⟩ := Option.map_eq_some_iff.1 followed
  rw [← same]
  dsimp only
  obtain ⟨-, -, cases⟩ := step_cases moved
  cases cases with
  | thread performs after label =>
    obtain rfl := executes_thread label executed
    rw [after, if_neg (Nat.lt_irrefl _), if_neg (Nat.lt_irrefl _)]
    generalize t.threads = threads at performs
    cases performs <;> rfl
  | signal label performs _ after =>
    subst label performs
    cases executed
    rw [after, List.length_cons, if_pos (Nat.lt_succ_self _), owedLines, owedLines, owed,
      unlogged_cons_of_kind (by simp [Frame.kind])]
    simp [Frame.owes, Op.writes]
  | @move f rest move top moves after =>
    rw [beside_move _ _ top after, after]
    have kinds := moves.ofKind (stacked.top top).1
    rw [top] at written ⊢
    generalize j.notes = notes at written
    generalize texts : todo = stmts at written ⊢
    cases written with
    | @cons _ _ note notes text texts writes written =>
      subst texts
      by_cases lib : f.kind = .lib
      · cases moves with
        | lib _ h =>
          cases executed
          have quiet : op ≠ .began cb := by cases h <;> simp
          rw [if_neg quiet, owedLines, owedLines, h.owed,
            unlogged_cons_of_kind (by simp [Frame.kind])]
          cases h with
          | nil =>
            rw [Move.beside, List.tail_cons, Move.apply]
            omega
          | acquire | finish =>
            rw [Move.apply, Move.beside, unlogged_cons_of_kind (by simp [Frame.kind])]
            omega
        | user _ user =>
          cases f with
          | lib => cases user
          | _ => cases lib
        | _ => cases lib
      · by_cases mine : f.kind = .callback cb
        · cases f with
          | callback cb' arg =>
            cases mine
            obtain ⟨quiet, unwritten⟩ : op ≠ .began cb ∧ op.writes (.callback cb) (.callback cb arg :: rest) = false :=
              moves.quiet_callback
            rw [if_neg quiet, unwritten, owedLines_callback serves writes executed moves]
            rfl
          | _ => cases mine
        · obtain ⟨-, unwritten⟩ := moves.apart lib mine (f :: rest)
          obtain ⟨text₁, rfl⟩ := executes_texts executed
          rw [owedLines, owedLines, owed_apart lib mine kinds, unwritten, unlogged_cons_of_kind mine,
            unlogged_other serves mine kinds moves]
          simp only [Bool.toNat_false]
          omega

/-- The lines of the callbacks begun are written, or owed. -/
structure Counted (P : Program) (ops : List Op) (s : Proc Dir) (j : Journal) (todo : List (List Stmt)) : Prop where
  stacked : WellStacked s.stack
  noted : Noted s.stack j.notes
  written : Written P s.stack j.notes todo
  count : ∀ cb : Callback, j.records.countP (fun record => record.author = some (.callback cb)) +
    owedLines cb s.stack todo = P.lines cb * ops.count (.began cb)

theorem Counted.step {ops : List Op} (h : Counted P ops s j todo) (serves : P.Serves)
    (step : (P.scripted argv fs).step ((s, j), todo) (l, said) = some (op, (t, j'), todo')) :
    Counted P (ops ++ [op]) t j' todo' := by
  obtain ⟨⟨moved, rfl⟩, -⟩ := step_scripted.1 step
  refine ⟨h.stacked.step moved, noted_step h.stacked h.noted moved, written_step serves h.stacked h.written step, ?_⟩
  intro cb
  have before := h.count cb
  have kept := owedLines_step serves cb h.stacked h.written step
  have began : P.lines cb * (ops ++ [op]).count (.began cb) =
      P.lines cb * ops.count (.began cb) + if op = .began cb then P.lines cb else 0 := by
    rw [List.count_append, List.count_singleton, Nat.mul_add]
    by_cases same : op = .began cb
    · simp [same]
    · simp [same]
  rw [began]
  rcases follow_cases said h.noted moved with ⟨message, answer, rfl, -, records⟩ | ⟨records, other⟩
  · have writes : Op.writes (.callback cb) s.stack (.finish .syslog answer) =
        decide (s.stack.tail.head?.map Frame.kind = some (.callback cb)) := rfl
    rw [records, Lib.Path.countP_concat, ← writes]
    omega
  · rw [records]
    rw [Op.writes_of_other other, Bool.toNat_false] at kept
    omega

/-- **Each callback writes its lines once**: there are no more lines of a callback than its calls have in their
texts, and as many once none is in progress. -/
theorem lines_counted {pid : Nat} {cwd : Dir} {ops : List Op} (serves : P.Serves)
    (run : (P.scripted argv fs).Run (fun _ _ => True) (P.start pid cwd) ops ((s, j), todo)) (cb : Callback) :
    j.records.countP (fun record => record.author = some (.callback cb)) ≤ P.lines cb * ops.count (.began cb) ∧
      ((∀ f ∈ s.stack, f.kind ≠ .callback cb) →
        j.records.countP (fun record => record.author = some (.callback cb)) = P.lines cb * ops.count (.began cb)) := by
  have counted : Counted P ops s j todo := by
    have start : Counted P [] (Proc.launch P.obj pid cwd) .empty [P.main] :=
      ⟨stacked_launch _ pid cwd, .cons trivial .nil, .cons trivial .nil, fun _ => rfl⟩
    refine run.invariant (I := fun ops x => Counted P ops x.1.1 x.1.2 x.2) start ?_
    rintro ops ⟨⟨s, j⟩, todo⟩ op ⟨⟨t, j'⟩, todo'⟩ - counted ⟨⟨l, said⟩, -, step⟩
    exact counted.step serves step
  have balance := counted.count cb
  refine ⟨by omega, fun none => ?_⟩
  rwa [owedLines, owed_eq_zero none, unlogged_eq_zero none, Nat.add_zero] at balance

end Count

theorem lines_counted_myDaemon : ∃ ops s j todo,
    (myDaemon.scripted [] lexical).Run (fun _ _ => True) (myDaemon.start 1 (bytes "/home")) ops ((s, j), todo) ∧
      ops.count (.began .onUpdate) = 1 ∧
      j.records.countP (fun record => record.author = some (.callback .onUpdate)) = 1 := by
  obtain ⟨ops, ⟨⟨s, j⟩, todo⟩, run, ended⟩ := (myDaemon.scripted [] lexical).exists_run (C := fun _ _ => True)
    (P := fun ops x => ops.count (.began .onUpdate) = 1 ∧ ∀ f ∈ x.1.1.stack, f.kind ≠ .callback .onUpdate) stoppedInWait
    (s := myDaemon.start 1 (bytes "/home")) (by decide +kernel)
  obtain ⟨one, none⟩ := of_decide_eq_true ended
  refine ⟨ops, s, j, todo, run, one, ((lines_counted serves_myDaemon run .onUpdate).2 none).trans ?_⟩
  rw [one]
  rfl

end Daemonpp
