import Daemonpp.Lib.Budget
import Daemonpp.Lib.Ghost
import Daemonpp.Log.Dlog
import Daemonpp.Process.Launch

/-!
# The journal

What the daemon has handed to `syslog`. A `Journal` follows the process: it notes
for each frame on the stack what the frame is logging, and becomes a line longer
when a call of `syslog` is performed.
-/

namespace Daemonpp

/-- What a frame of library calls is about. -/
inductive Note where
  | nothing
  | message (message : Message)
  /-- `openlog(name, ..)`. -/
  | name (name : Bytes)
  deriving DecidableEq

/-- A line handed to `syslog`: the function that hands it over, the `ident` it is
tagged with, if `openlog` has been called, and the message. Whether it gets to the
system log depends on the connection. -/
structure Record where
  author : Option Kind
  tag : Option Bytes
  message : Message
  deriving DecidableEq

structure Journal where
  /-- What each frame on the stack is logging, the innermost first. -/
  notes : List Note := []
  /-- The `ident` of the last `openlog`, until `closelog`. -/
  tag : Option Bytes := none
  records : List Record := []

/-- What a frame logs with the library calls it is about to make. `said` is what user code
passes to `dlog`, and the kernel's reason where a system call fails. -/
def Frame.note {Dir : Type} (w : World Dir) (said : Message) (l : Label) : Frame → Note
  | .run _ .guard => .message (alreadyRunning w.obj.name)
  | .run _ .scan => .message missingConfig
  | .daemonize .init => .name (cStr w.obj.name)
  | .daemonize .setsid => .message (noSid said.text)
  | .daemonize .chdir => .message (noCwd w.obj.cwd said.text)
  | .signalHandler sig .log => .message (signalReceived sig)
  | .callback _ _ | .owner .live => match l with
    | .user (.setCwd path false) => .message (noCwd path said.text)
    | .user (.lib _) => .message said
    | _ => .nothing
  | _ => .nothing

/-- The note of the frame that a step puts on the stack. -/
def Proc.note {Dir : Type} (s : Proc Dir) (said : Message) (l : Label) : Note :=
  match l, s.stack with
  | .signal _, _ | _, [] => .nothing
  | _, f :: _ => f.note s.world said l

/-- The tag behind an operation; `note` is that of the innermost frame. -/
def Op.tagAfter (note : Option Note) (tag : Option Bytes) : Op → Option Bytes
  | .finish .openlog _ => match note with
    | some (.name name) => some name
    -- `dlog::init` in user code
    | some (.message message) => some message.text
    | _ => tag
  | .finish .closelog _ => none
  | _ => tag

namespace Journal

variable {Dir : Type}

/-- The notes behind a step from `s` to `t`. -/
def notesAfter (j : Journal) (s t : Proc Dir) (said : Message) (l : Label) : List Note :=
  if s.stack.length < t.stack.length then s.note said l :: j.notes
  else if t.stack.length < s.stack.length then j.notes.tail
  else j.notes

/-- The line that the innermost call of `syslog` writes. -/
def line (j : Journal) (s : Proc Dir) : List Record :=
  match j.notes.head? with
  | some (.message message) => [⟨s.stack.tail.head?.map Frame.kind, j.tag, message⟩]
  | _ => []

/-- The journal behind a step from `s` to `t`. -/
def follow (s : Proc Dir) (l : Label × Message) (op : Op) (t : Proc Dir) (j : Journal) : Journal where
  notes := j.notesAfter s t l.2 l.1
  tag := op.tagAfter j.notes.head? j.tag
  records := match op with
    | .finish .syslog _ => j.records ++ j.line s
    | _ => j.records

/-- Nothing has been logged. -/
def empty : Journal := { notes := [.nothing] }

/-- Nothing has been logged, and `run` has been entered. -/
def entered : Journal := { notes := [.nothing, .nothing] }

end Journal

/-- The process with its journal. The environment says what user code logs and why system calls fail. -/
def journaled {Dir File : Type} (fs : PathSpace Dir File) : Lib.System (Proc Dir × Journal) (Label × Message) Op :=
  ((process fs).widen Message).ghost fun s l op t j => some (j.follow s l op t)

/-! ## What is written is what was said -/

/-- What the functions of the library say. -/
def Message.From (message : Message) : Option Kind → Prop
  | some .run => (∃ name, message = alreadyRunning name) ∨ message = missingConfig
  | some .daemonize => (∃ err, message = noSid err) ∨ ∃ path err, message = noCwd path err
  | some (.signalHandler sig) => message = signalReceived sig
  | _ => True

/-- A call of `syslog` is about a message of the function below it. -/
def Note.Fits (note : Note) (f : Frame) (below : List Frame) : Prop :=
  match f with
  | .lib calls _ => .syslog ∈ calls → ∃ message, note = .message message ∧ message.From (below.head?.map Frame.kind)
  | _ => True

/-- There is a fitting note for each frame. -/
inductive Noted : List Frame → List Note → Prop where
  | nil : Noted [] []
  | cons {f : Frame} {below : List Frame} {note : Note} {notes : List Note} (fits : note.Fits f below)
      (noted : Noted below notes) : Noted (f :: below) (note :: notes)

theorem Noted.length {stack : List Frame} {notes : List Note} (h : Noted stack notes) :
    notes.length = stack.length := by
  induction h with
  | nil => rfl
  | cons _ _ ih => rw [List.length_cons, List.length_cons, ih]

theorem Note.fits_of_kind {note : Note} {f : Frame} {below : List Frame} (other : f.kind ≠ .lib) :
    note.Fits f below := by
  cases f with
  | lib => exact absurd rfl other
  | _ => trivial

section Run

variable {Dir File : Type} {fs : PathSpace Dir File} {s t : Proc Dir} {j j' : Journal} {l : Label} {said : Message}
variable {op : Op} {ops : List Op} {rest : List Frame} {f : Frame} {move : Move}

theorem step_journaled : (journaled fs).step (s, j) (l, said) = some (op, t, j') ↔
    s.step fs l = some (op, t) ∧ j' = j.follow s (l, said) op t := by
  unfold journaled
  rw [Lib.System.step_ghost, Option.some.injEq, eq_comm (a := j')]
  rfl

/-- **Every run has a journal**, and is the run of the process that the journal is about. -/
theorem journaled_iff {C : Proc Dir → Label → Prop} :
    (∃ j', (journaled fs).Run (fun x l => C x.1 l.1) (s, j) ops (t, j')) ↔ (process fs).Run C s ops t := by
  rw [← Lib.System.run_widen (X := Message)]
  constructor
  · rintro ⟨j', run⟩
    exact run.forget fun _ _ allowed => allowed
  · exact fun run => Lib.System.Run.exists_ghost (fun _ _ _ _ _ => rfl) run j

/-- A call that logs leaves a note of what it says. -/
theorem Moves.fits_note {f' g : Frame} (moves : Moves s.world f l op (.call f' g)) (top : s.stack = f :: rest) :
    (s.note said l).Fits g (f' :: rest) := by
  have said' : s.note said l = f.note s.world said l := by
    unfold Proc.note
    rw [top]
    cases moves <;> rfl
  rw [said']
  cases moves with
  | run _ h =>
    cases h with
    | refuse => exact fun _ => ⟨_, rfl, .inl ⟨_, rfl⟩⟩
    | missing => exact fun _ => ⟨_, rfl, .inr rfl⟩
    | found | started => exact fun mem => by simp at mem
    | _ => trivial
  | daemonize _ h =>
    cases h with
    | noSetsid => exact fun _ => ⟨_, rfl, .inl ⟨_, rfl⟩⟩
    | noChdir => exact fun _ => ⟨_, rfl, .inr ⟨_, _, rfl⟩⟩
    | init => exact fun mem => by simp at mem
  | signalHandler _ h =>
    cases h with
    | log => exact fun _ => ⟨_, rfl, rfl⟩
    | cleanup => exact fun mem => by simp at mem
    | _ => trivial
  | fromFile _ h =>
    cases h with
    | «open» => exact fun mem => by simp at mem
  | owner _ h =>
    cases h with
    | dtor => exact fun mem => by simp at mem
  | user h user =>
    have plain : ∀ message : Message, message.From (some f.kind) := by
      intro message
      cases f with
      | callback | owner => trivial
      | _ => cases user
    unfold Frame.isUser at user
    split at user
    · cases h with
      | noSetCwd => exact fun _ => ⟨_, rfl, plain _⟩
      | lib => exact fun _ => ⟨_, rfl, plain _⟩
      | setCwd | setName => exact fun mem => by simp at mem
      | _ => trivial
    · cases h with
      | noSetCwd => exact fun _ => ⟨_, rfl, plain _⟩
      | lib => exact fun _ => ⟨_, rfl, plain _⟩
      | setCwd | setName => exact fun mem => by simp at mem
      | _ => trivial
    · cases user
  | stop _ h | lib _ h => cases h

/-- The message of a call of `syslog` stays the same until it has been made. -/
theorem Moves.fits_goto {f' : Frame} {note : Note} (moves : Moves s.world f l op (.goto f'))
    (kinds : f'.kind = f.kind ∨ f' = .exiting) (fits : note.Fits f rest) : note.Fits f' rest := by
  by_cases lib : f.kind = .lib
  · cases moves with
    | lib _ h =>
      cases h with
      | acquire => exact fits
      | finish => exact fun mem => fits (List.mem_cons_of_mem _ mem)
    | user _ user =>
      cases f with
      | callback | owner => cases lib
      | _ => cases user
    | _ => cases lib
  · refine Note.fits_of_kind ?_
    rcases kinds with same | rfl
    · exact same ▸ lib
    · simp [Frame.kind]

theorem Note.fits_resume {note : Note} {value : Option Dconfig} (fits : note.Fits f rest) :
    note.Fits (f.resume value) rest := by
  cases f with
  | lib => exact fits
  | _ => exact Note.fits_of_kind (by rw [Frame.kind_resume]; simp [Frame.kind])

/-- Only a function other than a library call calls another one. -/
theorem Moves.caller_not_lib {f' g : Frame} (moves : Moves s.world f l op (.call f' g)) : f.kind ≠ .lib := by
  cases moves with
  | lib _ h => cases h
  | user _ user =>
    cases f with
    | lib => cases user
    | _ => simp [Frame.kind]
  | _ => simp [Frame.kind]

/-- What a list that is kept beside the stack becomes in a move. -/
def Move.beside {A : Type} (new : A) (list : List A) : Move → List A
  | .goto _ => list
  | .call _ _ => new :: list
  | .ret _ | .leave => list.tail

/-- A list that grows and shrinks with the stack. -/
theorem beside_move {A : Type} (new : A) (list : List A) (top : s.stack = f :: rest)
    (after : t.stack = move.apply rest) :
    (if s.stack.length < t.stack.length then new :: list
      else if t.stack.length < s.stack.length then list.tail else list) = move.beside new list := by
  rw [top, after]
  cases move with
  | goto | call => simp [Move.apply, Move.beside]
  | leave =>
    have shorter : ¬ rest.length + 1 < rest.length := by omega
    simp [Move.apply, Move.beside, shorter]
  | ret value =>
    cases rest with
    | nil => simp [Move.apply, Move.beside]
    | cons g below =>
      have shorter : ¬ below.length + 1 + 1 < below.length + 1 := by omega
      simp [Move.apply, Move.beside, shorter]

/-- **The notes fit the stack** in every run. -/
theorem noted_step (stacked : WellStacked s.stack) (noted : Noted s.stack j.notes) (step : s.step fs l = some (op, t)) :
    Noted t.stack (j.notesAfter s t said l) := by
  unfold Journal.notesAfter
  obtain ⟨-, -, cases⟩ := step_cases step
  cases cases with
  | thread _ after =>
    rw [after, if_neg (Nat.lt_irrefl _), if_neg (Nat.lt_irrefl _)]
    exact noted
  | signal label _ _ after =>
    rw [after, List.length_cons, if_pos (Nat.lt_succ_self _)]
    exact .cons trivial noted
  | @move f rest move top moves after =>
    rw [beside_move (s.note said l) j.notes top after, after]
    rw [top] at noted
    have kinds := moves.ofKind (stacked.top top).1
    generalize j.notes = notes at noted
    cases noted with
    | @cons _ _ note notes fits noted =>
      cases move with
      | goto f' => exact .cons (moves.fits_goto kinds fits) noted
      | call f' g =>
        exact .cons (moves.fits_note top) (.cons (Note.fits_of_kind (kinds.1 ▸ moves.caller_not_lib)) noted)
      | ret value =>
        cases noted with
        | nil => exact .nil
        | cons fits' noted => exact .cons (Note.fits_resume fits') noted
      | leave => exact noted

end Run

/-! ## What is still to be written -/

/-- The messages of `author` that a frame has not handed to `syslog` yet. -/
def Frame.owes (author : Kind) (f : Frame) (below : List Frame) : Nat :=
  match f with
  | .lib calls _ => if below.head?.map Frame.kind = some author then calls.count .syslog else 0
  | .signalHandler sig .log => if author = .signalHandler sig then 1 else 0
  | _ => 0

def owed (author : Kind) : List Frame → Nat
  | [] => 0
  | f :: below => f.owes author below + owed author below

/-- What a function of the library reports. -/
def Op.reported (author : Kind) : Op → Bool
  | .deliver sig => author = .signalHandler sig
  | .setsid result => author = .daemonize && result < 0
  | .chdir _ ok => author = .daemonize && !ok
  | _ => false

/-- The operation writes a line of `author`. -/
def Op.writes (author : Kind) (stack : List Frame) : Op → Bool
  | .finish .syslog _ => stack.tail.head?.map Frame.kind = some author
  | _ => false

theorem Op.writes_of_other {op : Op} {author : Kind} {stack : List Frame}
    (other : ∀ answer, op ≠ .finish .syslog answer) :
    op.writes author stack = false := by
  unfold Op.writes
  split
  · exact absurd rfl (other _)
  · rfl

/-- The functions that report whatever happens to them. -/
def Kind.reports : Kind → Bool
  | .signalHandler _ | .daemonize => true
  | _ => false

section Owed

variable {Dir File : Type} {fs : PathSpace Dir File} {s t : Proc Dir} {w : World Dir} {l : Label} {op : Op}
variable {f : Frame} {rest : List Frame} {move : Move} {author : Kind}

theorem Frame.owes_of_kind {below : List Frame} (lib : f.kind ≠ .lib) (apart : f.kind ≠ author) :
    f.owes author below = 0 := by
  unfold owes
  split
  · exact absurd rfl lib
  · exact if_neg fun same => apart same.symm
  · rfl

theorem Frame.owes_resume {below : List Frame} (value : Option Dconfig) :
    (f.resume value).owes author below = f.owes author below := by
  unfold Frame.resume
  split <;> rfl

/-- A call that `author` does not make owes nothing of its. -/
theorem Frame.owes_called {f' g : Frame} (apart : f'.kind ≠ author) (calls : Calls l f'.kind g.kind) :
    g.owes author (f' :: rest) = 0 := by
  cases g with
  | lib => exact if_neg fun same => apart (Option.some.inj same)
  | signalHandler => exact absurd calls Calls.not_handler
  | _ => rfl

theorem owed_ret (value : Option Dconfig) : owed author (Move.apply rest (.ret value)) = owed author rest := by
  cases rest with
  | nil => rfl
  | cons g below => rw [Move.apply, owed, owed, g.owes_resume]

/-- What other functions do leaves `author`'s messages alone. -/
theorem owed_apart (lib : f.kind ≠ .lib) (apart : f.kind ≠ author) (kinds : move.OfKind l f.kind) :
    owed author (move.apply rest) = owed author (f :: rest) := by
  rw [owed, Frame.owes_of_kind lib apart, Nat.zero_add]
  cases move with
  | goto f' =>
    rw [Move.apply, owed]
    rcases kinds with same | rfl
    · rw [Frame.owes_of_kind (same ▸ lib) (same ▸ apart), Nat.zero_add]
    · exact Nat.zero_add _
  | call f' g =>
    obtain ⟨same, calls⟩ := kinds
    rw [Move.apply, owed, owed, Frame.owes_called (same ▸ apart) (same ▸ calls),
      Frame.owes_of_kind (same ▸ lib) (same ▸ apart), Nat.zero_add, Nat.zero_add]
  | ret value => exact owed_ret value
  | leave => rfl

/-- A statement of `daemonize` that fails owes a message. -/
theorem DaemonizeMove.owed {pc : DaemonizePc} (h : DaemonizeMove w pc op move) :
    Daemonpp.owed .daemonize (.daemonize pc :: rest) + (op.reported .daemonize).toNat =
      Daemonpp.owed .daemonize (move.apply rest) := by
  cases h with
  | closeLast =>
    rw [owed_ret]
    exact Nat.zero_add _
  | noSetsid | noChdir =>
    simp [Daemonpp.owed, Frame.owes, Move.apply, Op.reported, Frame.kind, logCalls]
    omega
  | _ => simp [Daemonpp.owed, Frame.owes, Move.apply, Op.reported, Frame.kind]

/-- A `signal_handler` owes the message about its signal until it is written. -/
theorem HandlerMove.owed {sig : Signal} {pc : HandlerPc} (h : HandlerMove w sig pc op move) :
    Daemonpp.owed (.signalHandler sig) (.signalHandler sig pc :: rest) =
      Daemonpp.owed (.signalHandler sig) (move.apply rest) := by
  cases h <;> simp [Daemonpp.owed, Frame.owes, Move.apply, Frame.kind, logCalls]

theorem LibMove.owed {calls : List LibCall} {inside : Bool} (h : LibMove w calls inside op move) :
    Daemonpp.owed author (.lib calls inside :: rest) =
      Daemonpp.owed author (move.apply rest) + (op.writes author (.lib calls inside :: rest)).toNat := by
  cases h with
  | nil => simp [Daemonpp.owed, Frame.owes, Move.apply, Op.writes]
  | acquire => rfl
  | finish call =>
    by_cases mine : rest.head?.map Frame.kind = some author
    · cases call with
      | syslog =>
        simp [Daemonpp.owed, Frame.owes, Move.apply, Op.writes, mine]
        omega
      | _ => simp [Daemonpp.owed, Frame.owes, Move.apply, Op.writes, mine]
    · cases call <;> simp [Daemonpp.owed, Frame.owes, Move.apply, Op.writes, mine]

/-- Nobody else reports or writes for a function that reports. -/
theorem Moves.apart (moves : Moves w f l op move) (lib : f.kind ≠ .lib) (apart : f.kind ≠ author)
    (stack : List Frame) : op.reported author = false ∧ op.writes author stack = false := by
  cases moves with
  | lib => exact absurd rfl lib
  | exiting => exact ⟨rfl, rfl⟩
  | daemonize _ h =>
    have other : author ≠ .daemonize := fun same => apart same.symm
    cases h <;> simp [Op.reported, Op.writes, other]
  | run _ h | stop _ h | signalHandler _ h | fromFile _ h | owner _ h | user h => cases h <;> exact ⟨rfl, rfl⟩

/-- **What is reported is written or owed.** -/
theorem owed_step (reports : author.reports = true) (stacked : WellStacked s.stack)
    (step : s.step fs l = some (op, t)) : owed author s.stack + (op.reported author).toNat =
      owed author t.stack + (op.writes author s.stack).toNat := by
  obtain ⟨-, -, cases⟩ := step_cases step
  cases cases with
  | thread performs after =>
    rw [after]
    generalize t.threads = threads at performs
    cases performs <;> rfl
  | @signal sig _ performs _ after =>
    rw [after, performs, owed]
    by_cases mine : author = .signalHandler sig
    · simp [Op.reported, Op.writes, Frame.owes, mine]
      omega
    · simp [Op.reported, Op.writes, Frame.owes, mine]
  | @move f rest move top moves after =>
    have kinds := moves.ofKind (stacked.top top).1
    rw [top, after]
    by_cases lib : f.kind = .lib
    · cases moves with
      | lib _ h =>
        have quiet : op.reported author = false := by cases h <;> rfl
        rw [quiet, h.owed]
        rfl
      | user _ user =>
        cases f with
        | lib => cases user
        | _ => cases lib
      | _ => cases lib
    · by_cases mine : f.kind = author
      · subst mine
        cases moves with
        | @daemonize pc _ _ _ h =>
          have unwritten : op.writes .daemonize (.daemonize pc :: rest) = false := by cases h <;> rfl
          exact h.owed.trans (by rw [show Frame.kind _ = Kind.daemonize from rfl, unwritten]; rfl)
        | @signalHandler sig pc _ _ _ h =>
          have quiet : op.reported (.signalHandler sig) = false := by cases h <;> rfl
          have unwritten : op.writes (.signalHandler sig) (.signalHandler sig pc :: rest) = false := by
            cases h <;> rfl
          rw [show Frame.kind _ = Kind.signalHandler sig from rfl, quiet, unwritten, h.owed]
        | user _ user =>
          cases f with
          | callback | owner => cases reports
          | _ => cases user
        | _ => cases reports
      · obtain ⟨quiet, unwritten⟩ := moves.apart lib mine (f :: rest)
        rw [owed_apart lib mine kinds, quiet, unwritten]

end Owed

section Told

variable {Dir File : Type} {fs : PathSpace Dir File} {s t : Proc Dir} {j : Journal} {l : Label} {said : Message}
variable {op : Op} {ops : List Op}

/-- A library call is performed by the innermost frame. -/
theorem lib_of_finish {call : LibCall} {answer : Answer} (step : s.step fs l = some (.finish call answer, t)) :
    ∃ calls rest, s.stack = .lib (call :: calls) true :: rest := by
  obtain ⟨f, rest, move, top, moves, -⟩ := moves_of_step step rfl
  cases moves with
  | lib _ h =>
    cases h with
    | finish => exact ⟨_, rest, top⟩
  | run _ h | daemonize _ h | stop _ h | signalHandler _ h | fromFile _ h | owner _ h | user h => cases h

/-- What a call of `syslog` writes. -/
theorem line_of_step (noted : Noted s.stack j.notes) {answer : Answer}
    (step : s.step fs l = some (.finish .syslog answer, t)) :
    ∃ message, j.line s = [⟨s.stack.tail.head?.map Frame.kind, j.tag, message⟩] ∧
      message.From (s.stack.tail.head?.map Frame.kind) := by
  obtain ⟨calls, rest, top⟩ := lib_of_finish step
  unfold Journal.line
  rw [top] at noted ⊢
  generalize j.notes = notes at noted
  cases noted with
  | cons fits noted =>
    obtain ⟨message, rfl, from'⟩ := fits List.mem_cons_self
    exact ⟨message, rfl, from'⟩

/-- What the journal tells. -/
structure Told (ops : List Op) (s : Proc Dir) (j : Journal) : Prop where
  stacked : WellStacked s.stack
  noted : Noted s.stack j.notes
  /-- A line of a function of the library is one of its messages. -/
  texts : ∀ record ∈ j.records, record.message.From record.author
  /-- What a function has reported is written, or about to be. -/
  reports : ∀ author : Kind, author.reports = true →
    j.records.countP (fun record => record.author = some author) + owed author s.stack =
      ops.countP (Op.reported author)

theorem told_launch (obj : Object) (pid : Nat) (cwd : Dir) : Told [] (Proc.launch obj pid cwd) .empty where
  stacked := stacked_launch obj pid cwd
  noted := .cons trivial .nil
  texts := by simp [Journal.empty]
  reports _ _ := rfl

/-- A step writes one line or none. -/
theorem follow_cases (said : Message) (noted : Noted s.stack j.notes) (step : s.step fs l = some (op, t)) :
    (∃ message answer, op = .finish .syslog answer ∧ message.From (s.stack.tail.head?.map Frame.kind) ∧
      (j.follow s (l, said) op t).records =
        j.records ++ [⟨s.stack.tail.head?.map Frame.kind, j.tag, message⟩]) ∨
    (j.follow s (l, said) op t).records = j.records ∧ ∀ answer, op ≠ .finish .syslog answer := by
  unfold Journal.follow
  dsimp only
  split
  · obtain ⟨message, line, from'⟩ := line_of_step noted step
    exact .inl ⟨message, _, rfl, from', by rw [line]⟩
  · rename_i other
    exact .inr ⟨rfl, other⟩

theorem Told.step (told : Told ops s j) (step : s.step fs l = some (op, t)) :
    Told (ops ++ [op]) t (j.follow s (l, said) op t) := by
  refine ⟨told.stacked.step step, noted_step told.stacked told.noted step, ?_, ?_⟩
  · rcases follow_cases said told.noted step with ⟨message, answer, -, from', records⟩ | ⟨records, -⟩
    · rw [records]
      intro record mem
      rcases List.mem_append.1 mem with before | now
      · exact told.texts record before
      · obtain rfl := List.mem_singleton.1 now
        exact from'
    · rw [records]
      exact told.texts
  · intro author reports
    have before := told.reports author reports
    have kept := owed_step reports told.stacked step
    rw [Lib.Path.countP_concat]
    rcases follow_cases said told.noted step with ⟨message, answer, rfl, -, records⟩ | ⟨records, other⟩
    · have writes : Op.writes author s.stack (.finish .syslog answer) =
          decide (s.stack.tail.head?.map Frame.kind = some author) := rfl
      rw [records, Lib.Path.countP_concat, ← writes]
      omega
    · rw [records]
      rw [Op.writes_of_other other, Bool.toNat_false] at kept
      omega

/-- **What the journal tells in a run.** -/
theorem told_of_run {s₀ : Proc Dir} {j₀ : Journal} {C : Proc Dir × Journal → Label × Message → Prop}
    (start : Told [] s₀ j₀) (run : (journaled fs).Run C (s₀, j₀) ops (s, j)) : Told ops s j := by
  refine run.invariant (I := fun ops x => Told ops x.1 x.2) start ?_
  rintro ops ⟨s, j⟩ op ⟨t, j'⟩ - told ⟨⟨l, said⟩, -, step⟩
  obtain ⟨moved, rfl⟩ := step_journaled.1 step
  exact told.step moved

end Told

end Daemonpp
