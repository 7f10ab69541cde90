import Daemonpp.Log.Journal
import Daemonpp.Process.Daemonize
import Daemonpp.Lifecycle.Complete

/-!
# The name in the log

`daemonize` hands the name of the object to `openlog` once, so the lines of the daemon
from the call of `run` on are tagged with the name that the object had then, whatever
`set_name` does later (`tag_fixed`). The main thread is alone until the first handler is
installed, and `Boot` lists the stacks it goes through; from there on the tag stays
until `~daemon` calls `closelog`, behind which no callback logs (`Tagged`).
-/

namespace Daemonpp

open Lib (Layered)

/-- Nobody calls `run` again, and user code leaves `dlog::init` and `dlog::shutdown` alone. -/
def Label.keepsLog : Label → Bool
  | .user (.run _) => false
  | .user (.lib calls) => .openlog ∉ calls && .closelog ∉ calls
  | _ => true

theorem Label.quiet_of_keepsLog {l : Label} (keeps : l.keepsLog = true) : l.callsRun = false := by
  cases l with
  | user a =>
    cases a with
    | run => cases keeps
    | _ => rfl
  | _ => rfl

/-- What the log shows of a line of a daemon that had the name `name` when `run` was called. -/
def Record.Shows (name : Bytes) (ops : List Op) (record : Record) : Prop :=
  record.tag = some (cStr name) ∨ record.tag = none ∧
    (record.author = some .run ∨ (∃ answer, .finish .closelog answer ∈ ops) ∧ ∀ cb, record.author ≠ some (.callback cb))

theorem Record.Shows.snoc {name : Bytes} {ops : List Op} {record : Record} (h : record.Shows name ops) (op : Op) :
    record.Shows name (ops ++ [op]) := by
  rcases h with tagged | ⟨untagged, author | ⟨⟨answer, mem⟩, other⟩⟩
  · exact .inl tagged
  · exact .inr ⟨untagged, .inl author⟩
  · exact .inr ⟨untagged, .inr ⟨⟨answer, List.mem_append_left _ mem⟩, other⟩⟩

/-! ## Up to the first handler -/

/-- The stack of a process on its way to `std::signal`, the note of its innermost frame, and the
tag. -/
inductive Boot (argv : List Bytes) (tag : Bytes) : List Frame → Option Note → Option Bytes → Prop where
  | ahead {pc : RunPc} {note : Option Note} (ahead : pc.ahead = true) :
      Boot argv tag [.run argv pc, .owner .live] note none
  | scanned {calls : List LibCall} {inside : Bool} {note : Option Note} (quiet : calls <:+ logCalls) :
      Boot argv tag [.lib calls inside, .run argv .daemonize, .owner .live] note none
  | forking {pc : DaemonizePc} {note : Option Note} (early : pc = .fork ∨ pc = .init) :
      Boot argv tag [.daemonize pc, .run argv .daemonizing, .owner .live] note none
  | opening {calls : List LibCall} {inside : Bool} {note : Option Note}
      (pending : calls = [.heap, .openlog] ∨ calls = [.openlog]) (named : note = some (.name tag)) :
      Boot argv tag [.lib calls inside, .daemonize .setsid, .run argv .daemonizing, .owner .live] note none
  | opened {inside : Bool} {note : Option Note} :
      Boot argv tag [.lib [] inside, .daemonize .setsid, .run argv .daemonizing, .owner .live] note (some tag)
  | session {pc : DaemonizePc} {note : Option Note} (late : pc = .setsid ∨ pc = .sighup) :
      Boot argv tag [.daemonize pc, .run argv .daemonizing, .owner .live] note (some tag)
  | failing {code : Int} {calls : List LibCall} {inside : Bool} {note : Option Note} (quiet : calls <:+ logCalls) :
      Boot argv tag [.lib calls inside, .daemonize (.exit code), .run argv .daemonizing, .owner .live] note (some tag)
  | leaving {f : Frame} {note : Option Note} {shown : Option Bytes} (leaves : f.leaving = true) :
      Boot argv tag [f, .run argv .daemonizing, .owner .live] note shown

/-- Nothing but these ends the boot: no handler is installed, the flag stays down and the name as it is. -/
def Op.early : Op → Bool
  | .install _ | .setRunning | .setName _ => false
  | _ => true

section Booting

variable {Dir File : Type} {fs : PathSpace Dir File} {s t : Proc Dir} {j : Journal} {l : Label} {said : Message}
variable {op : Op} {ops : List Op} {argv : List Bytes} {name : Bytes} {move : Move}

/-- The main thread is alone, and on its way to `std::signal`. -/
structure Booting (argv : List Bytes) (name : Bytes) (s : Proc Dir) (j : Journal) : Prop where
  boot : Boot argv (cStr name) s.stack j.notes.head? j.tag
  alone : s.world.handled = []
  down : s.world.obj.isRunning = false
  named : s.world.obj.name = name

/-- A step that leaves the stack as long as it was leaves the notes alone. -/
theorem Journal.follow_notes (same : t.stack.length = s.stack.length) :
    (j.follow s (l, said) op t).notes = j.notes := by
  simp [Journal.follow, Journal.notesAfter, same]

/-- A call leaves its note on top. -/
theorem Journal.follow_note (longer : t.stack.length = s.stack.length + 1) :
    (j.follow s (l, said) op t).notes.head? = some (s.note said l) := by
  simp [Journal.follow, Journal.notesAfter, longer]

/-- A `dlog` call leaves the tag alone. -/
theorem tagAfter_of_log {call : LibCall} {calls : List LibCall} {answer : Answer} {note : Option Note}
    {tag : Option Bytes} (logs : call :: calls <:+ logCalls) : (Op.finish call answer).tagAfter note tag = tag := by
  have mem : call ∈ logCalls := logs.subset List.mem_cons_self
  simp only [logCalls, List.mem_cons, List.not_mem_nil, or_false] at mem
  rcases mem with rfl | rfl | rfl <;> rfl

/-- The stack behind a step of the booting process, or of the first one behind. -/
theorem Booting.boot_step (said : Message) (h : Booting argv name s j) (step : s.step fs l = some (op, t)) :
    Boot argv (cStr name) t.stack (j.follow s (l, said) op t).notes.head? (op.tagAfter j.notes.head? j.tag) ∧
      op.early = true ∨
      op = .install .SIGHUP ∧ t.stack = [.daemonize .sigterm, .run argv .daemonizing, .owner .live] ∧
        j.tag = some (cStr name) := by
  have boot := h.boot
  obtain ⟨-, -, cases⟩ := step_cases step
  cases cases with
  | thread performs after =>
    have same : op.tagAfter j.notes.head? j.tag = j.tag ∧ op.early = true := by
      generalize t.threads = threads at performs
      cases performs <;> exact ⟨rfl, rfl⟩
    rw [Journal.follow_notes (by rw [after]), same.1, after]
    exact .inl ⟨boot, same.2⟩
  | @signal sig _ _ ready =>
    rw [Proc.deliverable, h.alone] at ready
    cases ready
  | @move f rest move top moves after =>
    rw [top] at boot
    generalize shown : j.tag = tag at boot
    rw [after]
    cases boot with
    | ahead early =>
      cases moves with
      | run _ h' =>
        cases h' with
        | refuse up => cases h.down.symm.trans up
        | guard | absent => exact .inl ⟨.ahead rfl, rfl⟩
        | found => exact .inl ⟨.scanned ⟨[.heap, .syslog], rfl⟩, rfl⟩
        | missing => exact .inl ⟨.scanned (List.suffix_refl _), rfl⟩
        | daemonize => exact .inl ⟨.forking (.inl rfl), rfl⟩
        | _ => cases early
      | user _ user => cases user
    | scanned quiet =>
      cases moves with
      | lib _ h' =>
        cases h' with
        | nil => exact .inl ⟨.ahead rfl, rfl⟩
        | acquire => exact .inl ⟨.scanned quiet, rfl⟩
        | finish call =>
          rw [tagAfter_of_log quiet]
          exact .inl ⟨.scanned ((List.suffix_cons _ _).trans quiet), rfl⟩
      | user _ user => cases user
    | forking early =>
      cases moves with
      | daemonize _ h' =>
        cases h' with
        | parent | noFork => exact .inl ⟨.leaving rfl, rfl⟩
        | child => exact .inl ⟨.forking (.inr rfl), rfl⟩
        | init =>
          refine .inl ⟨.opening (.inl rfl) ?_, rfl⟩
          rw [Journal.follow_note (by rw [top, after]; rfl)]
          unfold Proc.note
          rw [top]
          exact congrArg (fun name => some (Note.name (cStr name))) h.named
        | _ => rcases early with early | early <;> cases early
      | user _ user => cases user
    | opening pending named =>
      cases moves with
      | lib _ h' =>
        cases h' with
        | nil => rcases pending with pending | pending <;> cases pending
        | acquire =>
          refine .inl ⟨.opening pending ?_, rfl⟩
          rw [Journal.follow_notes (by rw [top, after]; rfl)]
          exact named
        | finish call =>
          rcases pending with pending | pending
          · cases pending
            refine .inl ⟨.opening (.inr rfl) ?_, rfl⟩
            rw [Journal.follow_notes (by rw [top, after]; rfl)]
            exact named
          · cases pending
            rw [named]
            exact .inl ⟨.opened, rfl⟩
      | user _ user => cases user
    | opened =>
      cases moves with
      | lib _ h' =>
        cases h' with
        | nil => exact .inl ⟨.session (.inl rfl), rfl⟩
      | user _ user => cases user
    | session late =>
      cases moves with
      | daemonize _ h' =>
        cases h' with
        | setsid => exact .inl ⟨.session (.inr rfl), rfl⟩
        | noSetsid => exact .inl ⟨.failing (List.suffix_refl _), rfl⟩
        | sighup => exact .inr ⟨rfl, rfl, rfl⟩
        | _ => rcases late with late | late <;> cases late
      | user _ user => cases user
    | failing quiet =>
      cases moves with
      | lib _ h' =>
        cases h' with
        | nil => exact .inl ⟨.leaving rfl, rfl⟩
        | acquire => exact .inl ⟨.failing quiet, rfl⟩
        | finish call =>
          rw [tagAfter_of_log quiet]
          exact .inl ⟨.failing ((List.suffix_cons _ _).trans quiet), rfl⟩
      | user _ user => cases user
    | leaving leaves =>
      cases moves with
      | daemonize _ h' =>
        cases h' with
        | exit => exact .inl ⟨.leaving rfl, rfl⟩
        | _ => cases leaves
      | exiting => exact .inl ⟨.leaving rfl, rfl⟩
      | user _ user =>
        cases f with
        | callback | owner => cases leaves
        | _ => cases user
      | _ => cases leaves

/-- Behind its first step the process is booting, or it has installed its first handler. -/
theorem Booting.step (said : Message) (h : Booting argv name s j) (step : s.step fs l = some (op, t)) :
    Booting argv name t (j.follow s (l, said) op t) ∨
      t.stack = [.daemonize .sigterm, .run argv .daemonizing, .owner .live] ∧
        (j.follow s (l, said) op t).tag = some (cStr name) := by
  obtain ⟨-, world, -⟩ := step_cases step
  rcases h.boot_step said step with ⟨boot, early⟩ | ⟨rfl, stack, tag⟩
  · refine .inl ⟨boot, ?_, ?_, ?_⟩
    · rw [world, Op.apply_handled, h.alone]
      unfold Op.handledAfter
      split
      · cases early
      · rfl
    · rw [world, Op.apply_isRunning, h.down]
      unfold Op.isRunning
      split
      · cases early
      · rfl
      · rfl
    · rw [world, Op.apply_name, h.named]
      unfold Op.nameAfter
      split
      · cases early
      · rfl
  · exact .inr ⟨stack, tag⟩

end Booting

/-! ## From there on -/

/-- The functions that log nothing once the object is no longer of the derived class. -/
def Kind.serves : Kind → Bool
  | .run | .callback _ => true
  | _ => false

section Tagged

variable {Dir File : Type} {fs : PathSpace Dir File} {s t : Proc Dir} {j : Journal} {l : Label} {said : Message}
variable {op : Op} {ops : List Op} {argv : List Bytes} {name : Bytes}

/-- The object is a `daemon` only, and no callback is in progress. -/
structure Dead (s : Proc Dir) : Prop where
  base : s.world.derived = false
  idle : ∀ f ∈ s.stack, f.kind.serves = false

theorem Dead.step (h : Dead s) (stacked : WellStacked s.stack) (quiet : l.callsRun = false)
    (step : s.step fs l = some (op, t)) : Dead t where
  base := by
    obtain ⟨-, world, -⟩ := step_cases step
    rw [world, Op.apply_derived, h.base]
    unfold Op.derivedAfter
    split <;> rfl
  idle := by
    refine frames_step step h.idle ?_ fun _ _ _ => rfl
    intro f rest move top moves idle
    have kinds := moves.ofKind (stacked.top top).1
    cases move with
    | goto f' =>
      rcases kinds with same | rfl
      · exact (congrArg Kind.serves same).trans idle
      · rfl
    | call f' g =>
      obtain ⟨same, calls⟩ := kinds
      refine ⟨(congrArg Kind.serves same).trans idle, ?_⟩
      cases moves with
      | run => cases idle
      | signalHandler _ h' =>
        cases h' with
        | reload _ derived => cases h.base.symm.trans derived
        | _ => rfl
      | daemonize _ h' | fromFile _ h' | owner _ h' => cases h' <;> rfl
      | stop _ h' | lib _ h' => cases h'
      | user h' =>
        cases h' with
        | run => cases quiet
        | _ => rfl
    | ret value => exact fun g below _ idle => (congrArg Kind.serves (g.kind_resume value)).trans idle
    | leave => trivial

/-- Nobody opens the log again, and only the destructor closes it. -/
def Frame.Logs (f : Frame) (below : List Frame) : Prop :=
  match f with
  | .lib calls _ => .openlog ∉ calls ∧ (.closelog ∈ calls → below = [.owner .exit])
  | _ => True

theorem Frame.logs_of_kind {f : Frame} {below : List Frame} (other : f.kind ≠ .lib) : f.Logs below := by
  cases f with
  | lib => exact absurd rfl other
  | _ => trivial

theorem Frame.logs_resume {f : Frame} {below : List Frame} (value : Option Dconfig) (logs : f.Logs below) :
    (f.resume value).Logs below := by
  cases f with
  | lib => exact logs
  | _ => exact Frame.logs_of_kind (by rw [Frame.kind_resume]; simp [Frame.kind])

/-- The log stays open until `~daemon`. -/
structure Tagged (name : Bytes) (ops : List Op) (s : Proc Dir) (j : Journal) : Prop where
  stacked : WellStacked s.stack
  /-- `daemonize` is past `dlog::init`. -/
  within : ∀ f ∈ s.stack, f.Within False (fun pc => pc ≠ .fork ∧ pc ≠ .init) True
  logs : Layered Frame.Logs s.stack
  dead : ∀ pc, .owner pc ∈ s.stack → pc = .dtor ∨ pc = .exit → Dead s
  tag : j.tag = some (cStr name) ∨ j.tag = none ∧ (∃ answer, .finish .closelog answer ∈ ops) ∧ Dead s

theorem Tagged.within_step (h : Tagged name ops s j) (keeps : l.keepsLog = true) (step : s.step fs l = some (op, t)) :
    ∀ f ∈ t.stack, f.Within False (fun pc => pc ≠ .fork ∧ pc ≠ .init) True := by
  refine Daemonpp.within_step h.stacked step h.within id (fun _ => id) id False.elim ?_ ?_
  · intro calls
    cases (Label.quiet_of_keepsLog keeps).symm.trans calls
  · intro pc move moves inside
    cases moves with
    | parent | noFork | child => exact absurd rfl inside.1
    | init => exact absurd rfl inside.2
    | closeLast | exit => trivial
    | _ => exact ⟨by simp, by simp⟩

theorem Tagged.logs_step (h : Tagged name ops s j) (keeps : l.keepsLog = true) (step : s.step fs l = some (op, t)) :
    Layered Frame.Logs t.stack := by
  refine layered_step step h.logs ?_ fun _ _ _ => trivial
  intro f rest move top moves logs
  have plain : ∀ calls inside below, calls <:+ logCalls → (Frame.lib calls inside).Logs below := by
    intro calls inside below log
    have mem : ∀ {call}, call ∈ calls → call = .heap ∨ call = .syslog ∨ call = .heap := fun mem => by
      simpa [logCalls] using log.subset mem
    exact ⟨fun opens => by simpa using mem opens, fun closes => by simpa using mem closes⟩
  have heap : [LibCall.heap] <:+ logCalls := ⟨[.heap, .syslog], rfl⟩
  have resumed : ∀ value, Move.Keeps Frame.Logs rest (.ret value) :=
    fun value g below _ logs => Frame.logs_resume value logs
  cases moves with
  | lib _ h' =>
    cases h' with
    | nil => trivial
    | acquire => exact logs
    | finish =>
      exact ⟨fun opens => logs.1 (List.mem_cons_of_mem _ opens), fun closes => logs.2 (List.mem_cons_of_mem _ closes)⟩
  | run _ h' =>
    cases h' with
    | refuse | missing => exact ⟨trivial, plain _ _ _ (List.suffix_refl _)⟩
    | found | started => exact ⟨trivial, plain _ _ _ heap⟩
    | daemonize | config | start | update | stop => exact ⟨trivial, trivial⟩
    | _ => trivial
  | @daemonize pc _ _ _ h' =>
    cases h' with
    | init =>
      have inside : DaemonizePc.init ≠ .fork ∧ DaemonizePc.init ≠ .init :=
        h.within (.daemonize .init) (top ▸ List.mem_cons_self)
      exact absurd rfl inside.2
    | noSetsid | noChdir => exact ⟨trivial, plain _ _ _ (List.suffix_refl _)⟩
    | closeLast => exact resumed _
    | _ => trivial
  | signalHandler _ h' =>
    cases h' with
    | log => exact ⟨trivial, plain _ _ _ (List.suffix_refl _)⟩
    | cleanup => exact ⟨trivial, plain _ _ _ heap⟩
    | stop | config | reload => exact ⟨trivial, trivial⟩
    | _ => trivial
  | fromFile _ h' =>
    cases h' with
    | empty | close => exact resumed _
    | «open» => exact ⟨trivial, plain _ _ _ heap⟩
    | _ => trivial
  | stop _ h' =>
    cases h' with
    | notify => exact resumed _
    | _ => trivial
  | owner _ h' =>
    cases h' with
    | dtor =>
      obtain rfl : rest = [] := alone_of_owner h.stacked top
      exact ⟨trivial, by simp, fun _ => rfl⟩
    | _ => trivial
  | exiting => trivial
  | user h' =>
    cases h' with
    | ret => exact resumed _
    | destroy => trivial
    | stop | run => exact ⟨logs, trivial⟩
    | setCwd | setName => exact ⟨logs, plain _ _ _ heap⟩
    | noSetCwd => exact ⟨logs, plain _ _ _ (List.suffix_refl _)⟩
    | lib calls =>
      simp only [Label.keepsLog, Bool.and_eq_true, decide_eq_true_eq] at keeps
      exact ⟨logs, keeps.1, fun closes => absurd closes keeps.2⟩
    | _ => exact logs

/-- The destruction of the derived object leaves nothing behind that logs. -/
theorem dead_of_destroyed (stacked : WellStacked s.stack) (step : s.step fs l = some (.destroyed, t)) : Dead t := by
  obtain ⟨-, world, -⟩ := step_cases step
  have ⟨_, rest, move, top, .owner _ destroys, after⟩ := performs_of_step step rfl
  obtain rfl := alone_of_owner stacked top
  cases destroys with
  | derivedDtor =>
    refine ⟨by rw [world, Op.apply_derived]; rfl, fun f mem => ?_⟩
    rw [after] at mem
    rw [List.mem_singleton.1 mem]
    rfl

theorem Tagged.dead_step (h : Tagged name ops s j) (keeps : l.keepsLog = true) (step : s.step fs l = some (op, t)) :
    ∀ pc, .owner pc ∈ t.stack → pc = .dtor ∨ pc = .exit → Dead t := by
  let p (f : Frame) : Prop := ∀ pc, f = .owner pc → pc = .dtor ∨ pc = .exit → Dead s ∨ op = .destroyed
  have here : ∀ f ∈ s.stack, p f := fun f mem pc same last => .inl (h.dead pc (same ▸ mem) last)
  have other : ∀ {f'}, f'.kind ≠ .owner → p f' := fun other _ same => absurd (congrArg Frame.kind same) other
  have origin : ∀ f ∈ t.stack, p f := by
    refine frames_step step here ?_ fun _ _ _ => other (by simp [Frame.kind])
    intro f rest move top moves here
    have resumed : ∀ value, Move.Keeps (fun f _ => p f) rest (.ret value) := by
      intro value g below _ here pc same
      exact here pc (Frame.eq_of_resume same (by simp [Frame.kind]) (by simp [Frame.kind]))
    cases moves with
    | owner _ h' =>
      cases h' with
      | derivedDtor => exact fun _ _ _ => .inr rfl
      | dtor => exact ⟨fun _ _ _ => here .dtor rfl (.inl rfl), other (by simp [Frame.kind])⟩
      | exit => exact other (by simp [Frame.kind])
    | exiting => exact other (by simp [Frame.kind])
    | run _ h' | daemonize _ h' | stop _ h' | signalHandler _ h' | fromFile _ h' | lib _ h' =>
      cases h'
      all_goals first
        | exact resumed _
        | exact ⟨other (by simp [Frame.kind]), other (by simp [Frame.kind])⟩
        | trivial
        | exact other (by simp [Frame.kind])
    | user h' =>
      cases h' with
      | ret => exact resumed _
      | destroy =>
        rintro pc ⟨⟩ (last | last) <;> cases last
      | stop | run | setCwd | noSetCwd | setName | lib => exact ⟨here, other (by simp [Frame.kind])⟩
      | _ => exact here
  intro pc mem last
  rcases origin _ mem pc rfl last with dead | rfl
  · exact dead.step h.stacked (Label.quiet_of_keepsLog keeps) step
  · exact dead_of_destroyed h.stacked step

theorem Tagged.tag_step (h : Tagged name ops s j) (keeps : l.keepsLog = true) (step : s.step fs l = some (op, t)) :
    op.tagAfter j.notes.head? j.tag = some (cStr name) ∨
      op.tagAfter j.notes.head? j.tag = none ∧ (∃ answer, .finish .closelog answer ∈ ops ++ [op]) ∧ Dead t := by
  have quiet := Label.quiet_of_keepsLog keeps
  have stays : j.tag = some (cStr name) ∨ j.tag = none ∧ (∃ answer, .finish .closelog answer ∈ ops ++ [op]) ∧ Dead t :=
    h.tag.imp_right fun ⟨tag, ⟨answer, closed⟩, dead⟩ =>
      ⟨tag, ⟨answer, List.mem_append_left _ closed⟩, dead.step h.stacked quiet step⟩
  have logs := h.logs
  unfold Op.tagAfter
  split
  · obtain ⟨calls, rest, top⟩ := lib_of_finish step
    rw [top] at logs
    exact absurd List.mem_cons_self logs.1.1
  · rename_i answer
    obtain ⟨calls, rest, top⟩ := lib_of_finish step
    rw [top] at logs
    have exit : .owner .exit ∈ s.stack := by simp [top, logs.1.2 List.mem_cons_self]
    exact .inr ⟨rfl, ⟨answer, by simp⟩, (h.dead .exit exit (.inr rfl)).step h.stacked quiet step⟩
  · exact stays

theorem Tagged.step (said : Message) (h : Tagged name ops s j) (keeps : l.keepsLog = true)
    (step : s.step fs l = some (op, t)) : Tagged name (ops ++ [op]) t (j.follow s (l, said) op t) where
  stacked := h.stacked.step step
  within := h.within_step keeps step
  logs := h.logs_step keeps step
  dead := h.dead_step keeps step
  tag := h.tag_step keeps step

/-- The first handler is installed behind `dlog::init`. -/
theorem tagged_of_install (stack : s.stack = [.daemonize .sigterm, .run argv .daemonizing, .owner .live])
    (tag : j.tag = some (cStr name)) : Tagged name ops s j where
  stacked := by
    rw [stack]
    exact ⟨⟨⟨trivial, rfl⟩, ⟨trivial, rfl⟩, ⟨trivial, rfl⟩, trivial⟩, _, _, rfl, rfl⟩
  within := by
    rw [stack]
    simp [Frame.Within, RunPc.ahead, RunPc.behind]
  logs := by
    rw [stack]
    exact ⟨trivial, trivial, trivial, trivial⟩
  dead := by
    rw [stack]
    simp
  tag := .inl tag

/-! ## The lines -/

/-- What the tags of a journal tell about a process that was entered with the name `name`, behind the
lines `old`. -/
structure TagKept (argv : List Bytes) (name : Bytes) (old : List Record) (ops : List Op) (s : Proc Dir) (j : Journal) :
    Prop where
  stacked : WellStacked s.stack
  noted : Noted s.stack j.notes
  stage : Booting argv name s j ∨ Tagged name ops s j
  shows : ∀ record ∈ j.records, record ∈ old ∨ record.Shows name ops

/-- A line that is written ahead of the first handler. -/
theorem Booting.shows (h : Booting argv name s j) {answer : Answer}
    (step : s.step fs l = some (.finish .syslog answer, t)) :
    j.tag = some (cStr name) ∨ j.tag = none ∧ s.stack.tail.head?.map Frame.kind = some .run := by
  obtain ⟨calls, rest, top⟩ := lib_of_finish step
  have boot := h.boot
  rw [top] at boot ⊢
  generalize j.tag = tag at boot ⊢
  cases boot with
  | scanned => exact .inr ⟨rfl, rfl⟩
  | failing => exact .inl rfl
  | opening pending => rcases pending with pending | pending <;> cases pending
  | leaving leaves => cases leaves

/-- A line that is written from there on. -/
theorem Tagged.shows (h : Tagged name ops s j) : j.tag = some (cStr name) ∨ j.tag = none ∧
    (∃ answer, .finish .closelog answer ∈ ops) ∧ ∀ cb, s.stack.tail.head?.map Frame.kind ≠ some (.callback cb) := by
  refine h.tag.imp_right fun ⟨tag, closed, dead⟩ => ⟨tag, closed, fun cb author => ?_⟩
  obtain ⟨f, below, kind⟩ := Option.map_eq_some_iff.1 author
  have idle := dead.idle f (List.mem_of_mem_tail (List.mem_of_head? below))
  rw [kind] at idle
  cases idle

theorem TagKept.step {old : List Record} (h : TagKept argv name old ops s j) (keeps : l.keepsLog = true)
    (step : s.step fs l = some (op, t)) : TagKept argv name old (ops ++ [op]) t (j.follow s (l, said) op t) where
  stacked := h.stacked.step step
  noted := noted_step h.stacked h.noted step
  stage := by
    rcases h.stage with booting | tagged
    · exact (booting.step said step).imp_right fun ⟨stack, tag⟩ => tagged_of_install stack tag
    · exact .inr (tagged.step said keeps step)
  shows := by
    have before : ∀ record ∈ j.records, record ∈ old ∨ record.Shows name (ops ++ [op]) :=
      fun record mem => (h.shows record mem).imp_right fun shows => shows.snoc op
    rcases follow_cases said h.noted step with ⟨message, answer, rfl, -, records⟩ | ⟨records, -⟩
    · rw [records]
      intro record mem
      rcases List.mem_append.1 mem with mem | now
      · exact before record mem
      · obtain rfl := List.mem_singleton.1 now
        refine .inr ?_
        rcases h.stage with booting | tagged
        · exact (booting.shows step).imp_right fun ⟨tag, author⟩ => ⟨tag, .inl author⟩
        · exact tagged.shows.imp_right fun ⟨tag, ⟨answer', closed⟩, author⟩ =>
            ⟨tag, .inr ⟨⟨answer', List.mem_append_left _ closed⟩, author⟩⟩
    · rw [records]
      exact before

end Tagged

end Daemonpp
