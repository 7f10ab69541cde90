import Daemonpp.Process.Inversion
import Daemonpp.Lib.Layers

/-!
# The discipline of the stack

`Frame.Sits` says which frame may stand on which: a callee on the caller that
waits for it, the frames of user code and of library calls and an interrupting
`signal_handler` on a frame that waits for nobody. Every move respects it
(`Moves.fits`), so every stack a run reaches is `WellStacked`: a returning callee
finds exactly its caller. `layered_step` is the rule by which the properties of
the process prove their own invariants of the stack; `kind_step` is its case for
a property of functions that only `Calls` can spread.
-/

namespace Daemonpp

open Lib (Layered)

/-! ## Which frame stands on which -/

/-- What a frame may wait for. -/
inductive Callee where
  | daemonize
  | fromFile
  | callback (cb : Callback)
  | stop
  deriving DecidableEq, Repr

namespace Frame

/-- The callee the frame waits for, if it does. -/
def awaits : Frame → Option Callee
  | .run _ .daemonizing => some .daemonize
  | .run _ .configuring | .signalHandler _ .configuring => some .fromFile
  | .run _ (.called cb) => some (.callback cb)
  | .signalHandler _ .reloading => some (.callback .onReload)
  | .signalHandler _ .stopping => some .stop
  | _ => none

def isBase : Frame → Bool
  | .owner _ | .exiting => true
  | _ => false

/-- `f.Sits g`: the frame `f` may stand on the frame `g`. -/
def Sits : Frame → Frame → Prop
  | .exiting, _ => True
  | .daemonize _, g => g.awaits = some .daemonize
  | .fromFile _, g => g.awaits = some .fromFile
  | .callback cb _, g => g.awaits = some (.callback cb)
  | .stop true _ _, g => g.awaits = some .stop
  | .stop false _ _, g | .run _ _, g => g.isUser = true
  | .signalHandler _ _, g | .lib _ _, g => g.awaits = none
  | .owner _, _ => False

/-- `f` may stand on top of `below`; only the owner's frame and that of
`std::exit` need nothing under them. -/
def On (f : Frame) : List Frame → Prop
  | [] => f.isBase = true
  | g :: _ => f.Sits g

/-- `run` does not call `on_reload`, and `signal_handler` stops or reloads as the
signal says. -/
def Proper : Frame → Prop
  | .run _ (.called cb) => cb ≠ .onReload
  | .signalHandler sig .stopping => sig ≠ .SIGHUP
  | .signalHandler sig .configuring | .signalHandler sig (.reload _) | .signalHandler sig .reloading
  | .signalHandler sig .cleanup => sig = .SIGHUP
  | _ => True

/-- Who waits for a callback. -/
theorem awaits_callback {g : Frame} {cb : Callback} (h : g.awaits = some (.callback cb)) :
    (∃ argv, g = .run argv (.called cb)) ∨ ∃ sig, g = .signalHandler sig .reloading ∧ cb = .onReload := by
  unfold awaits at h
  split at h
  all_goals cases h
  · exact .inl ⟨_, rfl⟩
  · exact .inr ⟨_, rfl, rfl⟩

theorem awaits_of_isUser {f : Frame} (h : f.isUser = true) : f.awaits = none := by
  unfold isUser at h
  split at h
  · rfl
  · rfl
  · cases h

theorem resume_of_awaits_none {f : Frame} {value : Option Dconfig} (h : f.awaits = none) :
    f.resume value = f := by
  unfold resume
  split <;> first | rfl | cases h

/-- A frame goes on behind a call at a statement of its own. -/
theorem resume_fits (f : Frame) (value : Option Dconfig) (proper : f.Proper) :
    (f.resume value).awaits = none ∧ (f.resume value).Proper ∧
      ∀ below, f.On below → (f.resume value).On below := by
  cases waits : f.awaits with
  | none =>
    rw [resume_of_awaits_none waits]
    exact ⟨waits, proper, fun _ => id⟩
  | some c =>
    cases f with
    | run argv pc =>
      cases pc with
      | called cb =>
        cases cb with
        | onReload => exact absurd rfl proper
        | onStart | onUpdate | onStop => exact ⟨rfl, trivial, fun _ => id⟩
      | daemonizing | configuring => exact ⟨rfl, trivial, fun _ => id⟩
      | _ => cases waits
    | signalHandler sig pc =>
      cases pc with
      | stopping => exact ⟨rfl, trivial, fun _ => id⟩
      | configuring | reloading => exact ⟨rfl, proper, fun _ => id⟩
      | _ => cases waits
    | _ => cases waits

theorem On.exiting {f : Frame} {below : List Frame} (_ : f.On below) : Frame.exiting.On below := by
  cases below with
  | nil => rfl
  | cons => trivial

end Frame

/-- A move of `f` that keeps the discipline of the stack. -/
inductive Move.Fits (f : Frame) : Move → Prop where
  | goto {f' : Frame} (free : f'.awaits = none) (proper : f'.Proper) (place : ∀ below, f.On below → f'.On below) :
      Fits f (.goto f')
  | call {f' g : Frame} (free : g.awaits = none) (proper : g.Proper) (sits : g.Sits f')
      (proper' : f'.Proper) (place : ∀ below, f.On below → f'.On below) : Fits f (.call f' g)
  | ret (value : Option Dconfig) (called : f.isBase = false) : Fits f (.ret value)
  | leave (called : f.isBase = false) (idle : ∀ g, f.Sits g → g.awaits = none) : Fits f .leave

/-! ## Which function calls which -/

/-- The function a frame belongs to. -/
inductive Kind where
  | owner
  | run
  | daemonize
  | stop (handler : Bool)
  | signalHandler (sig : Signal)
  | fromFile
  | callback (cb : Callback)
  | lib
  | exiting
  deriving DecidableEq, Repr

def Frame.kind : Frame → Kind
  | .owner _ => .owner
  | .run _ _ => .run
  | .daemonize _ => .daemonize
  | .stop handler _ _ => .stop handler
  | .signalHandler sig _ => .signalHandler sig
  | .fromFile _ => .fromFile
  | .callback cb _ => .callback cb
  | .lib _ _ => .lib
  | .exiting => .exiting

/-- User code calls `run`. -/
def Label.callsRun : Label → Bool
  | .user (.run _) => true
  | _ => false

/-- A function calls another one in a step under the label `l`. -/
inductive Calls (l : Label) : Kind → Kind → Prop where
  | lib (k : Kind) : Calls l k .lib
  | daemonize : Calls l .run .daemonize
  | runConfig : Calls l .run .fromFile
  | callback (cb : Callback) (other : cb ≠ .onReload) : Calls l .run (.callback cb)
  | handlerStop (sig : Signal) (other : sig ≠ .SIGHUP) : Calls l (.signalHandler sig) (.stop true)
  | handlerConfig : Calls l (.signalHandler .SIGHUP) .fromFile
  | reload : Calls l (.signalHandler .SIGHUP) (.callback .onReload)
  | userStop (k : Kind) : Calls l k (.stop false)
  | userRun (k : Kind) (run : l.callsRun = true) : Calls l k .run

theorem Calls.callsRun {l : Label} {k : Kind} (h : Calls l k .run) : l.callsRun = true := by
  cases h with
  | userRun _ run => exact run

/-- Nobody calls `signal_handler`. -/
theorem Calls.not_handler {l : Label} {k : Kind} {sig : Signal} : ¬ Calls l k (.signalHandler sig) := nofun

/-- The functions of the frames that a move of a frame of kind `k` puts on the stack. -/
def Move.OfKind (l : Label) (k : Kind) : Move → Prop
  | .goto f => f.kind = k ∨ f = .exiting
  | .call f g => f.kind = k ∧ Calls l k g.kind
  | .ret _ | .leave => True

/-! ## The discipline of the moves -/

section Fits

variable {Dir : Type} {w : World Dir} {op : Op} {move : Move}

theorem RunMove.fits {argv : List Bytes} {pc : RunPc} (h : RunMove w argv pc op move) :
    move.Fits (.run argv pc) := by
  cases h with
  | ret => exact .leave rfl fun g user => Frame.awaits_of_isUser user
  | start | update | stop => exact .call rfl trivial rfl nofun fun _ => id
  | refuse | found | missing | daemonize | config | started => exact .call rfl trivial rfl trivial fun _ => id
  | _ => exact .goto rfl trivial fun _ => id

theorem DaemonizeMove.fits {pc : DaemonizePc} (h : DaemonizeMove w pc op move) : move.Fits (.daemonize pc) := by
  cases h with
  | closeLast => exact .ret none rfl
  | init | noSetsid | noChdir => exact .call rfl trivial rfl trivial fun _ => id
  | exit => exact .goto rfl trivial fun _ => Frame.On.exiting
  | _ => exact .goto rfl trivial fun _ => id

theorem StopMove.fits {handler : Bool} {code : Int} {pc : StopPc} (h : StopMove handler code pc op move) :
    move.Fits (.stop handler code pc) := by
  cases h with
  | notify => exact .ret none rfl
  | _ => exact .goto rfl trivial fun _ => by cases handler <;> exact id

theorem HandlerMove.fits {sig : Signal} {pc : HandlerPc} (proper : (Frame.signalHandler sig pc).Proper)
    (h : HandlerMove w sig pc op move) : move.Fits (.signalHandler sig pc) := by
  cases h with
  | stop other => exact .call rfl trivial rfl other fun _ => id
  | config sighup => exact .call rfl trivial rfl sighup fun _ => id
  | reload => exact .call rfl trivial rfl proper fun _ => id
  | pure => exact .goto rfl trivial fun _ => Frame.On.exiting
  | done => exact .leave rfl fun _ => id
  | log | cleanup => exact .call rfl trivial rfl trivial fun _ => id

theorem FromFileMove.fits {pc : FromFilePc} (h : FromFileMove w pc op move) : move.Fits (.fromFile pc) := by
  cases h with
  | empty | close => exact .ret _ rfl
  | «open» => exact .call rfl trivial rfl trivial fun _ => id
  | parse => exact .goto rfl trivial fun _ => id
  | outOfRange => exact .goto rfl trivial fun _ => Frame.On.exiting

theorem LibMove.fits {calls : List LibCall} {inside : Bool} (h : LibMove w calls inside op move) :
    move.Fits (.lib calls inside) := by
  cases h with
  | nil => exact .leave rfl fun _ => id
  | acquire | finish => exact .goto rfl trivial fun _ => id

theorem OwnerMove.fits {pc : OwnerPc} (h : OwnerMove w pc op move) : move.Fits (.owner pc) := by
  cases h with
  | derivedDtor => exact .goto rfl trivial fun _ => id
  | dtor => exact .call rfl trivial rfl trivial fun _ => id
  | exit => exact .goto rfl trivial fun _ => Frame.On.exiting

theorem ActMove.fits {f : Frame} {a : Act} (proper : f.Proper) (user : f.isUser = true)
    (h : ActMove w f a op move) : move.Fits f := by
  have idle := Frame.awaits_of_isUser user
  cases h with
  | ret _ _ callback => exact .ret none (callback ▸ rfl)
  | destroy live => exact .goto rfl trivial fun _ => live ▸ id
  | stop | run => exact .call rfl trivial user proper fun _ => id
  | setCwd | noSetCwd | setName | lib => exact .call rfl trivial idle proper fun _ => id
  | _ => exact .goto idle proper fun _ => id

theorem Moves.fits {f : Frame} {l : Label} (proper : f.Proper) (h : Moves w f l op move) : move.Fits f := by
  cases h with
  | run _ h => exact h.fits
  | daemonize _ h => exact h.fits
  | stop _ h => exact h.fits
  | signalHandler _ h => exact h.fits proper
  | fromFile _ h => exact h.fits
  | lib _ h => exact h.fits
  | owner _ h => exact h.fits
  | exiting => exact .goto rfl trivial fun _ => id
  | user h user => exact h.fits proper user

/-- What a return tells when it is not that of a callback. -/
structure PlainReturn (op : Op) (g : Frame) : Prop where
  began : ∀ cb, op ≠ .began cb
  returned : ∀ cb, op ≠ .returned cb
  apart : ∀ cb, g.awaits ≠ some (.callback cb)

/-- A callback returns to its caller; what else returns does so to a frame that
waits for no callback. -/
theorem Moves.ret_cases {f : Frame} {rest : List Frame} {l : Label} {value : Option Dconfig}
    (h : Moves w f l op (.ret value)) (on : f.On rest) :
    ∃ g below, rest = g :: below ∧ f.Sits g ∧ f.kind ≠ .run ∧
      ((∃ cb arg, f = .callback cb arg ∧ op = .returned cb ∧ value = none) ∨ PlainReturn op g) := by
  cases rest with
  | nil =>
    cases h with
    | user h =>
      cases h with
      | ret cb arg callback => cases callback ▸ on
    | run _ h | signalHandler _ h | lib _ h | owner _ h => cases h
    | daemonize | stop | fromFile => cases on
  | cons g below =>
    refine ⟨g, below, rfl, on, ?_⟩
    cases h with
    | daemonize _ h =>
      refine ⟨nofun, .inr ?_⟩
      have apart : ∀ cb, g.awaits ≠ some (.callback cb) := fun cb => by rw [show g.awaits = _ from on]; nofun
      cases h with
      | closeLast => exact ⟨nofun, nofun, apart⟩
    | fromFile _ h =>
      refine ⟨nofun, .inr ?_⟩
      have apart : ∀ cb, g.awaits ≠ some (.callback cb) := fun cb => by rw [show g.awaits = _ from on]; nofun
      cases h with
      | empty | close => exact ⟨nofun, nofun, apart⟩
    | @stop handler _ _ _ _ _ h =>
      refine ⟨nofun, .inr ?_⟩
      have apart : ∀ cb, g.awaits ≠ some (.callback cb) := by
        intro cb
        cases handler with
        | true => rw [show g.awaits = _ from on]; nofun
        | false => rw [Frame.awaits_of_isUser on]; nofun
      cases h with
      | notify => exact ⟨nofun, nofun, apart⟩
    | user h =>
      cases h with
      | ret cb arg callback => exact ⟨callback ▸ nofun, .inl ⟨cb, arg, callback, rfl, rfl⟩⟩
    | run _ h | signalHandler _ h | lib _ h | owner _ h => cases h

end Fits

theorem Moves.ofKind {Dir : Type} {w : World Dir} {f : Frame} {l : Label} {op : Op} {move : Move}
    (proper : f.Proper) (h : Moves w f l op move) : move.OfKind l f.kind := by
  cases h with
  | run _ h =>
    cases h with
    | ret => trivial
    | refuse | found | missing | started => exact ⟨rfl, .lib _⟩
    | daemonize => exact ⟨rfl, .daemonize⟩
    | config => exact ⟨rfl, .runConfig⟩
    | start | update | stop => exact ⟨rfl, .callback _ nofun⟩
    | _ => exact .inl rfl
  | signalHandler _ h =>
    cases h with
    | log | cleanup => exact ⟨rfl, .lib _⟩
    | stop other => exact ⟨rfl, .handlerStop _ other⟩
    | config sighup =>
      subst sighup
      exact ⟨rfl, .handlerConfig⟩
    | reload =>
      obtain rfl := proper
      exact ⟨rfl, .reload⟩
    | pure => exact .inr rfl
    | done => trivial
  | user h _ =>
    cases h with
    | ret => trivial
    | destroy live => exact .inl (live ▸ rfl)
    | stop => exact ⟨rfl, .userStop _⟩
    | run => exact ⟨rfl, .userRun _ rfl⟩
    | setCwd | noSetCwd | setName | lib => exact ⟨rfl, .lib _⟩
    | _ => exact .inl rfl
  | daemonize _ h | stop _ h | fromFile _ h | lib _ h | owner _ h =>
    cases h
    all_goals first | exact ⟨rfl, .lib _⟩ | exact .inl rfl | exact .inr rfl | trivial
  | exiting => exact .inr rfl

theorem Frame.kind_resume (f : Frame) (value : Option Dconfig) : (f.resume value).kind = f.kind := by
  unfold resume
  split <;> rfl

/-! ## Invariants of the stack -/

/-- The frames a move leaves on top of `rest` meet `P`, if those it leaves alone do. -/
def Move.Keeps (P : Frame → List Frame → Prop) (rest : List Frame) : Move → Prop
  | .goto f => P f rest
  | .call f g => P f rest ∧ P g (f :: rest)
  | .ret value => ∀ g below, rest = g :: below → P g below → P (g.resume value) below
  | .leave => True

theorem Move.Keeps.layered {P : Frame → List Frame → Prop} {f : Frame} {rest : List Frame} {move : Move}
    (stack : Layered P (f :: rest)) (keeps : move.Keeps P rest) : Layered P (move.apply rest) := by
  cases move with
  | goto f' => exact ⟨keeps, stack.2⟩
  | call f' g => exact ⟨keeps.2, keeps.1, stack.2⟩
  | ret value =>
    cases rest with
    | nil => trivial
    | cons g below => exact ⟨keeps g below rfl stack.2.1, stack.2.2⟩
  | leave => exact stack.2

section Rule

variable {Dir File : Type} {fs : PathSpace Dir File} {s t : Proc Dir} {l : Label} {op : Op}

/-- The invariant rule for stacks: a step keeps `Layered P` if every move of the
innermost frame and every interruption do. -/
theorem layered_step {P : Frame → List Frame → Prop} (step : s.step fs l = some (op, t))
    (stack : Layered P s.stack)
    (moves : ∀ f rest move, s.stack = f :: rest → Moves s.world f l op move → P f rest → move.Keeps P rest)
    (signal : ∀ sig, l = .signal sig → s.deliverable sig = true → P (.signalHandler sig .log) s.stack) :
    Layered P t.stack := by
  obtain ⟨-, -, cases⟩ := step_cases step
  cases cases with
  | move top move after =>
    rw [after]
    rw [top] at stack
    exact Move.Keeps.layered stack (moves _ _ _ top move stack.1)
  | signal label _ ready after =>
    rw [after]
    exact ⟨signal _ label ready, stack⟩
  | thread _ after => rwa [after]

/-- The same for a property of single frames. -/
theorem frames_step {p : Frame → Prop} (step : s.step fs l = some (op, t)) (here : ∀ f ∈ s.stack, p f)
    (moves : ∀ f rest move, s.stack = f :: rest → Moves s.world f l op move → p f →
      move.Keeps (fun f _ => p f) rest)
    (signal : ∀ sig, l = .signal sig → s.deliverable sig = true → p (.signalHandler sig .log)) :
    ∀ f ∈ t.stack, p f := by
  rw [← Layered.forall_iff] at here ⊢
  exact layered_step step here moves signal

/-- Each frame is proper and sits on the one below, and the innermost one waits
for nobody. -/
structure WellStacked (stack : List Frame) : Prop where
  placed : Layered (fun f below => f.Proper ∧ f.On below) stack
  idle : ∃ f below, stack = f :: below ∧ f.awaits = none

/-- What the discipline says of the innermost frame. -/
theorem WellStacked.top {stack rest : List Frame} {f : Frame} (h : WellStacked stack) (top : stack = f :: rest) :
    f.Proper ∧ f.On rest := by
  have placed := h.placed
  rw [top] at placed
  exact placed.1

/-- **Every step keeps the discipline**. -/
theorem WellStacked.step (h : WellStacked s.stack) (step : s.step fs l = some (op, t)) :
    WellStacked t.stack := by
  constructor
  · refine layered_step step h.placed ?_ ?_
    · intro f rest move top moves placed
      cases moves.fits placed.1 with
      | goto free proper place => exact ⟨proper, place rest placed.2⟩
      | call free proper sits proper' place => exact ⟨⟨proper', place rest placed.2⟩, proper, sits⟩
      | ret value =>
        intro g below same placed'
        obtain ⟨-, proper, place⟩ := g.resume_fits value placed'.1
        exact ⟨proper, place below placed'.2⟩
      | leave => trivial
    · intro sig _ _
      obtain ⟨f, below, same, idle⟩ := h.idle
      rw [same]
      exact ⟨trivial, idle⟩
  · obtain ⟨-, -, cases⟩ := step_cases step
    cases cases with
    | @move f rest move top moves after =>
      have placed := h.placed
      rw [top] at placed
      rw [after]
      cases moves.fits placed.1.1 with
      | goto free | call free => exact ⟨_, _, rfl, free⟩
      | ret value called =>
        cases rest with
        | nil => exact absurd placed.1.2 (by simp [Frame.On, called])
        | cons g below => exact ⟨_, below, rfl, (g.resume_fits value placed.2.1.1).1⟩
      | leave called idle =>
        cases rest with
        | nil => exact absurd placed.1.2 (by simp [Frame.On, called])
        | cons g below => exact ⟨g, below, rfl, idle g placed.1.2⟩
    | signal _ _ _ after => exact ⟨_, _, after, rfl⟩
    | thread _ after =>
      rw [after]
      exact h.idle

/-- A property of functions that only a function with it calls is on the stack
only if it was, or came with the signal. -/
theorem kind_step {p : Kind → Prop} {Q : Prop} (stacked : WellStacked s.stack) (step : s.step fs l = some (op, t))
    (here : ∀ f ∈ s.stack, p f.kind → Q) (exit : ¬ p .exiting) (calls : ∀ k k', Calls l k k' → p k' → p k)
    (signal : ∀ sig, l = .signal sig → p (.signalHandler sig) → Q) : ∀ f ∈ t.stack, p f.kind → Q := by
  refine frames_step step here ?_ fun sig label _ => signal sig label
  intro f rest move top moves here
  have kinds := moves.ofKind (stacked.top top).1
  cases move with
  | goto f' =>
    rcases kinds with same | rfl
    · exact fun has => here (same ▸ has)
    · exact fun has => absurd has exit
  | call f' g => exact ⟨fun has => here (kinds.1 ▸ has), fun has => here (calls _ _ kinds.2 has)⟩
  | ret value => exact fun g below _ here has => here (g.kind_resume value ▸ has)
  | leave => trivial

/-- **The frame rule**: a frame that waits for nobody stays as it is unless it is the one that moves. -/
theorem frame_stays (step : s.step fs l = some (op, t)) {f : Frame} (mem : f ∈ s.stack) (idle : f.awaits = none) :
    f ∈ t.stack ∨ ∃ rest move, s.stack = f :: rest ∧ Moves s.world f l op move ∧ t.stack = move.apply rest := by
  obtain ⟨-, -, cases⟩ := step_cases step
  cases cases with
  | thread _ after => exact .inl (after ▸ mem)
  | signal _ _ _ after => exact .inl (after ▸ List.mem_cons_of_mem _ mem)
  | @move g rest move top moves after =>
    rw [top] at mem
    rcases List.mem_cons.1 mem with rfl | mem
    · exact .inr ⟨rest, move, top, moves, after⟩
    · refine .inl ?_
      rw [after]
      cases move with
      | goto | call => simp [Move.apply, mem]
      | leave => exact mem
      | ret value =>
        cases rest with
        | nil => cases mem
        | cons g below =>
          rcases List.mem_cons.1 mem with rfl | mem
          · rw [Move.apply, Frame.resume_of_awaits_none idle]
            exact List.mem_cons_self
          · exact List.mem_cons_of_mem _ mem

/-- Where a frame of `stop` comes from. -/
inductive StopOrigin (stack : List Frame) (op : Op) (handler : Bool) (code : Int) : StopPc → Prop where
  | before {pc : StopPc} (mem : .stop handler code pc ∈ stack) : StopOrigin stack op handler code pc
  | called : StopOrigin stack op handler code .exitCode
  | stored (performs : op = .exitCode code) : StopOrigin stack op handler code .flag
  | lowered (performs : op = .clearRunning code) : StopOrigin stack op handler code .notify

/-- A frame of `stop` was there before the step, is that of a new call, or has just
executed the statement before. -/
theorem stop_origin (step : s.step fs l = some (op, t)) {handler : Bool} {code : Int} {pc : StopPc}
    (mem : .stop handler code pc ∈ t.stack) : StopOrigin s.stack op handler code pc := by
  let p (f : Frame) : Prop := ∀ handler code pc, f = .stop handler code pc → StopOrigin s.stack op handler code pc
  have here : ∀ f ∈ s.stack, p f := fun f mem _ _ _ same => .before (same ▸ mem)
  refine frames_step step here ?_ (fun _ _ _ => nofun) _ mem _ _ _ rfl
  intro f rest move top moves here
  have resumed : ∀ value, Move.Keeps (fun f _ => p f) rest (.ret value) := by
    intro value g below _ here handler code pc same
    refine here _ _ _ ?_
    unfold Frame.resume at same
    split at same <;> first | exact same | cases same
  cases moves with
  | stop _ h =>
    cases h with
    | notify => exact resumed _
    | exitCode =>
      rintro _ _ _ ⟨⟩
      exact .stored rfl
    | flag =>
      rintro _ _ _ ⟨⟩
      exact .lowered rfl
  | signalHandler _ h =>
    cases h with
    | stop =>
      refine ⟨nofun, ?_⟩
      rintro _ _ _ ⟨⟩
      exact .called
    | pure => exact nofun
    | done => trivial
    | _ => exact ⟨nofun, nofun⟩
  | run _ h | daemonize _ h | fromFile _ h | lib _ h | owner _ h =>
    cases h
    all_goals first | exact resumed _ | exact ⟨nofun, nofun⟩ | trivial | exact nofun
  | exiting => exact nofun
  | user h _ =>
    cases h with
    | ret => exact resumed _
    | destroy => exact nofun
    | stop =>
      refine ⟨here, ?_⟩
      rintro _ _ _ ⟨⟩
      exact .called
    | run | setCwd | noSetCwd | setName | lib => exact ⟨here, nofun⟩
    | _ => exact here

/-- Where a frame of `run` comes from. -/
inductive RunOrigin (s : Proc Dir) (op : Op) (argv : List Bytes) : RunPc → Prop where
  | before {pc : RunPc} (mem : .run argv pc ∈ s.stack) : RunOrigin s op argv pc
  | called : RunOrigin s op argv .guard
  | goto {pc pc' : RunPc} (mem : .run argv pc ∈ s.stack)
      (moves : RunMove s.world argv pc op (.goto (.run argv pc'))) : RunOrigin s op argv pc'
  | call {pc pc' : RunPc} {g : Frame} (mem : .run argv pc ∈ s.stack)
      (moves : RunMove s.world argv pc op (.call (.run argv pc') g)) : RunOrigin s op argv pc'
  | back {pc pc' : RunPc} (value : Option Dconfig) (mem : .run argv pc ∈ s.stack)
      (resumes : (Frame.run argv pc).resume value = .run argv pc') : RunOrigin s op argv pc'

/-- Only `run` and `signal_handler` wait for a callee. -/
theorem Frame.eq_of_resume {f g : Frame} {value : Option Dconfig} (h : f.resume value = g) (run : g.kind ≠ .run)
    (handler : ∀ sig, g.kind ≠ .signalHandler sig) : f = g := by
  cases f using Frame.resume_cases with
  | stays f stays => exact (stays value).symm.trans h
  | stopped | loaded | reloaded => exact absurd (congrArg Frame.kind h).symm (handler _)
  | _ => exact absurd (congrArg Frame.kind h).symm run

theorem Frame.run_of_resume {f : Frame} {value : Option Dconfig} {argv : List Bytes} {pc : RunPc}
    (h : f.resume value = .run argv pc) : ∃ pc', f = .run argv pc' := by
  cases f using Frame.resume_cases with
  | stays f stays => exact ⟨pc, (stays value).symm.trans h⟩
  | stopped | loaded | reloaded => cases h
  | _ =>
    cases h
    exact ⟨_, rfl⟩

/-- `run` goes on in `run`, and calls something else. -/
theorem RunMove.stays {w : World Dir} {argv : List Bytes} {pc : RunPc} {move : Move} (h : RunMove w argv pc op move) :
    (∃ pc', move = .goto (.run argv pc')) ∨ (∃ pc' g, move = .call (.run argv pc') g ∧ g.kind ≠ .run) ∨
      move = .leave := by
  cases h with
  | ret => exact .inr (.inr rfl)
  | refuse | found | missing | daemonize | config | start | started | update | stop =>
    exact .inr (.inl ⟨_, _, rfl, nofun⟩)
  | _ => exact .inl ⟨_, rfl⟩

/-- A frame of `run` was there before the step, is that of a new call, has just executed
a statement, or goes on behind a call that has returned. -/
theorem run_origin (step : s.step fs l = some (op, t)) {argv : List Bytes} {pc : RunPc}
    (mem : .run argv pc ∈ t.stack) : RunOrigin s op argv pc := by
  let p (f : Frame) : Prop := ∀ argv pc, f = .run argv pc → RunOrigin s op argv pc
  have here : ∀ f ∈ s.stack, p f := fun f mem _ _ same => .before (same ▸ mem)
  refine frames_step step here ?_ (fun _ _ _ => nofun) _ mem _ _ rfl
  intro f rest move top moves known
  have mem : f ∈ s.stack := top ▸ List.mem_cons_self
  have resumed : ∀ value, Move.Keeps (fun f _ => p f) rest (.ret value) := by
    intro value g below same known argv pc resumes
    obtain ⟨pc', rfl⟩ := Frame.run_of_resume resumes
    exact .back value (by simp [top, same]) resumes
  have other : ∀ {f' : Frame}, f'.kind ≠ .run → p f' := fun other _ _ same => absurd (same ▸ rfl) other
  cases moves with
  | run _ h =>
    rcases h.stays with ⟨pc', rfl⟩ | ⟨pc', g, rfl, not⟩ | rfl
    · rintro _ _ ⟨⟩
      exact .goto mem h
    · refine ⟨?_, other not⟩
      rintro _ _ ⟨⟩
      exact .call mem h
    · trivial
  | user h user =>
    cases h with
    | ret => exact resumed _
    | destroy => exact other nofun
    | run =>
      refine ⟨known, ?_⟩
      rintro _ _ ⟨⟩
      exact .called
    | stop | setCwd | noSetCwd | setName | lib => exact ⟨known, other nofun⟩
    | _ => exact known
  | exiting => exact other nofun
  | stop _ h | daemonize _ h | signalHandler _ h | fromFile _ h | lib _ h | owner _ h =>
    cases h
    all_goals first | exact resumed _ | exact other nofun | exact ⟨other nofun, other nofun⟩ | trivial

end Rule

end Daemonpp
