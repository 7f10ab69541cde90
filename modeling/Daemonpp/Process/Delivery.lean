import Daemonpp.Config.Load
import Daemonpp.Lib.Budget
import Daemonpp.Process.ConfigFile
import Daemonpp.Signals.Service
import Mathlib.Data.List.DropRight

/-!
# What the callbacks are handed

The map a callback receives has come a long way: `from_file` opens the file, the
parser reads the stream, the value is returned to the statement that waits for it,
and signals may interrupt at any point. `Frame.Carries` follows it through the
stack. In every run with a configuration file on the command line, what `on_start`
and `on_reload` receive is the parse of a stream that was opened under that path,
for `on_reload` behind the delivery of its own SIGHUP (`delivers_config`). A file
that the grammar rejects reaches no callback.
-/

namespace Daemonpp

open Lib (Layered)

/-- A step, with the choice of the environment it was taken under. -/
abbrev Traced : Type := Label × Op

/-- The stream `ifs` was opened under the name `path`. -/
def Opened (events : List Traced) (path : Bytes) (ifs : IStream) : Prop :=
  ∃ fd, (.main (.file ifs), .openConfig path fd) ∈ events

/-- The map is what `from_file` makes of a stream opened under the name `path`. -/
def Loaded (events : List Traced) (path : Bytes) (cfg : Dconfig) : Prop :=
  ∃ ifs, Opened events path ifs ∧ fromFile path ifs = .ok cfg

theorem Opened.mono {events events' : List Traced} {path : Bytes} {ifs : IStream} (h : Opened events path ifs)
    (more : events ⊆ events') : Opened events' path ifs := by
  obtain ⟨fd, mem⟩ := h
  exact ⟨fd, more mem⟩

theorem Loaded.mono {events events' : List Traced} {path : Bytes} {cfg : Dconfig} (h : Loaded events path cfg)
    (more : events ⊆ events') : Loaded events' path cfg := by
  obtain ⟨ifs, opened, parsed⟩ := h
  exact ⟨ifs, opened.mono more, parsed⟩

/-- A map that comes from a readable file is the one that the grammar assigns to it. -/
theorem meaning_of_loaded {path content : Bytes} {cfg : Dconfig} (named : path ≠ [])
    (parsed : fromFile path (.ofContent content) = .ok cfg) : WellFormed (lines content) ∧
      ∀ key value, cfg.values.lookup key = some value ↔ LastEntry (lines content) key value := by
  by_cases well : WellFormed (lines content)
  · obtain ⟨cfg', loads, map⟩ := fromFile_loads named well
    cases loads.symm.trans parsed
    exact ⟨well, map⟩
  · cases (fromFile_fault named well).symm.trans parsed

/-- What has happened since the last SIGHUP was delivered. -/
def sinceReload (events : List Traced) : List Traced := events.rtakeWhile fun event => event.2 ≠ .deliver .SIGHUP

theorem sinceReload_concat {events : List Traced} {l : Label} {op : Op} (other : op ≠ .deliver .SIGHUP) :
    sinceReload (events ++ [(l, op)]) = sinceReload events ++ [(l, op)] := by
  unfold sinceReload
  rw [List.rtakeWhile_concat_pos _ _ _ (by simpa using other)]

/-! ## The way of a configuration -/

/-- Whether a function works for a handler. -/
def forHandler : List Frame → Bool
  | .signalHandler _ _ :: _ => true
  | _ => false

/-- What a frame carries comes from a stream opened among the events `start`, or `reload` where it
works for a handler. -/
def Frame.Carries (path : Bytes) (start reload : List Traced) : Frame → List Frame → Prop
  | .fromFile (.parse path' ifs _), below =>
    path' = path ∧ Opened (if forHandler below then reload else start) path ifs
  | .fromFile (.close cfg _), below => Loaded (if forHandler below then reload else start) path cfg
  | .run _ (.start cfg), _ => Loaded start path cfg
  | .signalHandler _ (.reload cfg), _ => Loaded reload path cfg
  | .callback cb arg, _ => ∀ cfg, arg = some cfg → Loaded (if cb = .onReload then reload else start) path cfg
  | _, _ => True

variable {path : Bytes} {start start' reload reload' : List Traced}

theorem Frame.Carries.mono {f : Frame} {below : List Frame} (h : f.Carries path start reload below)
    (more : start ⊆ start') (more' : reload ⊆ reload') : f.Carries path start' reload' below := by
  have both : ∀ b : Bool, (if b then reload else start) ⊆ if b then reload' else start' := by
    intro b
    cases b with
    | true => exact more'
    | false => exact more
  unfold Frame.Carries at *
  split
  · exact ⟨h.1, h.2.mono (both _)⟩
  · exact h.mono (both _)
  · exact h.mono more
  · exact h.mono more'
  · intro cfg arg
    refine (h cfg arg).mono ?_
    split
    · exact more'
    · exact more
  · trivial

/-- Without a handler of SIGHUP on the stack, nothing is carried for one. -/
theorem carries_of_apart {stack : List Frame} (placed : Layered (fun f below => f.Proper ∧ f.On below) stack)
    (apart : ∀ f ∈ stack, f.handles .SIGHUP = false) (h : Layered (Frame.Carries path start reload) stack) :
    Layered (Frame.Carries path start reload') stack := by
  induction stack with
  | nil => trivial
  | cons f below ih =>
    obtain ⟨⟨proper, on⟩, placed⟩ := placed
    refine ⟨?_, ih placed (fun g mem => apart g (List.mem_cons_of_mem _ mem)) h.2⟩
    have here := h.1
    -- who reads for a handler stands on one
    have none : ∀ pc, f = .fromFile pc → forHandler below = false := by
      rintro pc rfl
      cases below with
      | nil => rfl
      | cons g below =>
        have waits : g.awaits = some .fromFile := on
        have proper := placed.1.1
        unfold Frame.awaits at waits
        split at waits
        all_goals cases waits
        · rfl
        · cases proper
          exact absurd (apart _ (List.mem_cons_of_mem _ List.mem_cons_self)) (by simp [Frame.handles])
    unfold Frame.Carries
    split
    · obtain ⟨same, opened⟩ := here
      rw [none _ rfl] at opened ⊢
      exact ⟨same, opened⟩
    · have loaded : Loaded (if forHandler below then reload else start) _ _ := here
      rw [none _ rfl] at loaded ⊢
      exact loaded
    · exact here
    · cases proper
      exact absurd (apart _ List.mem_cons_self) (by simp [Frame.handles])
    · rename_i cb arg
      intro cfg same
      have loaded := here cfg same
      split
      · rename_i reload
        subst reload
        cases below with
        | nil => cases on
        | cons g below =>
          have proper := placed.1.1
          rcases Frame.awaits_callback on with ⟨argv, rfl⟩ | ⟨sig, rfl, -⟩
          · exact absurd rfl proper
          · cases proper
            exact absurd (apart _ (List.mem_cons_of_mem _ List.mem_cons_self)) (by simp [Frame.handles])
      · rename_i other
        rwa [if_neg other] at loaded
    · trivial

/-- Nothing is handed on by a return that is not that of `from_file`. -/
theorem Frame.Carries.resume {g : Frame} {below : List Frame} (value : Option Dconfig)
    (other : g.awaits ≠ some .fromFile) (h : g.Carries path start reload below) :
    (g.resume value).Carries path start reload below := by
  cases g using Frame.resume_cases with
  | configured | loaded => exact absurd rfl other
  | stays g stays =>
    rw [stays value]
    exact h
  | _ => trivial

section Run

variable {Dir File : Type} {fs : PathSpace Dir File} {s t : Proc Dir} {l : Label} {op : Op} {argv : List Bytes}

/-- The statements of `from_file`, with what the kernel answers and what the parser returns. -/
inductive Reads (w : World Dir) : FromFilePc → Reply → Op → Move → Prop where
  | empty (r : Reply) : Reads w (.enter []) r .tau (.ret (some {}))
  | open (path : Bytes) (ifs : IStream) (fd : Option Nat) : Reads w (.enter path) (.file ifs)
      (.openConfig path fd) (.call (.fromFile (.parse path ifs fd)) (.lib [.heap] false))
  | parse (r : Reply) {path : Bytes} {ifs : IStream} {cfg : Dconfig} (fd : Option Nat)
      (parsed : fromFile path ifs = .ok cfg) : Reads w (.parse path ifs fd) r .tau (.goto (.fromFile (.close cfg fd)))
  | outOfRange (r : Reply) (path : Bytes) (ifs : IStream) (fd : Option Nat) :
      Reads w (.parse path ifs fd) r .outOfRange (.goto .exiting)
  | close (r : Reply) (cfg : Dconfig) (fd : Option Nat) :
      Reads w (.close cfg fd) r (.closeConfig fd) (.ret (some cfg))

theorem reads_of_next {w : World Dir} {pc : FromFilePc} {r : Reply} {move : Move}
    (h : fromFileNext w pc r = some (op, move)) : Reads w pc r op move := by
  cases pc with
  | enter filename =>
    simp only [fromFileNext] at h
    split at h
    · rename_i unnamed
      split at h <;> cases h
      rw [List.isEmpty_iff.1 unnamed]
      exact .empty r
    · split at h <;> cases h
      exact .open _ _ _
  | parse filename ifs fd =>
    cases r with
    | done =>
      simp only [fromFileNext] at h
      split at h <;> cases h
      · exact .parse _ fd ‹_›
      · exact .outOfRange _ filename ifs fd
    | _ => cases h
  | close cfg fd =>
    cases r with
    | done =>
      cases h
      exact .close _ cfg fd
    | _ => cases h

/-- A step under `from_file` is one of its statements. -/
theorem reads_of_step {pc : FromFilePc} {rest : List Frame} (step : s.step fs l = some (op, t))
    (top : s.stack = .fromFile pc :: rest) (main : ∃ r, l = .main r) :
    ∃ r move, l = .main r ∧ Reads s.world pc r op move ∧ t.stack = move.apply rest := by
  obtain ⟨r, rfl⟩ := main
  unfold Proc.step Proc.control at step
  rw [top] at step
  split at step
  · cases next : Frame.next s.world (.fromFile pc) r with
    | none => simp [next] at step
    | some result =>
      obtain ⟨op', move⟩ := result
      simp only [next, Option.map_some] at step
      cases step
      exact ⟨r, move, rfl, reads_of_next next, rfl⟩
  · cases step

/-- A statement outside `from_file` hands on what its frame carries. -/
theorem Moves.carries {w : World Dir} {f : Frame} {rest : List Frame} {move : Move} (moves : Moves w f l op move)
    (proper : f.Proper) (on : f.On rest) (other : f.kind ≠ .fromFile) (h : f.Carries path start reload rest) :
    move.Keeps (Frame.Carries path start reload) rest := by
  have resumed : ∀ value, (∀ g, f.Sits g → g.awaits ≠ some .fromFile) →
      Move.Keeps (Frame.Carries path start reload) rest (.ret value) :=
    fun value apart g below top carries => carries.resume value (apart g (by rwa [top] at on))
  cases moves with
  | run _ h' =>
    cases h' with
    | start cfg =>
      refine ⟨trivial, ?_⟩
      rintro cfg' ⟨⟩
      exact h
    | update | stop => exact ⟨trivial, by simp [Frame.Carries]⟩
    | refuse | found | missing | daemonize | config | started => exact ⟨trivial, trivial⟩
    | _ => trivial
  | signalHandler _ h' =>
    cases h' with
    | reload cfg =>
      refine ⟨trivial, ?_⟩
      rintro cfg' ⟨⟩
      exact h
    | pure | done => trivial
    | _ => exact ⟨trivial, trivial⟩
  | daemonize _ h' =>
    cases h' with
    | closeLast => exact resumed _ fun g waits => by rw [show g.awaits = _ from waits]; simp
    | init | noSetsid | noChdir => exact ⟨trivial, trivial⟩
    | _ => trivial
  | @stop handler _ _ _ _ _ h' =>
    cases h' with
    | notify =>
      refine resumed _ fun g sits => ?_
      cases handler with
      | true => rw [show g.awaits = _ from sits]; simp
      | false => rw [Frame.awaits_of_isUser sits]; simp
    | _ => trivial
  | fromFile => exact absurd rfl other
  | lib _ h' | owner _ h' =>
    cases h' <;> trivial
  | exiting => trivial
  | user h' user =>
    cases h' with
    | ret cb arg callback =>
      subst callback
      exact resumed _ fun g waits => by rw [show g.awaits = _ from waits]; simp
    | destroy => trivial
    | stop | run | setCwd | noSetCwd | setName | lib => exact ⟨h, trivial⟩
    | _ => exact h

/-- A statement of `from_file` that has just been executed under the label `l`. -/
theorem Reads.carries {w : World Dir} {pc : FromFilePc} {rest : List Frame} {r : Reply} {move : Move}
    (reads : Reads w pc r op move) (named : path ≠ []) (on : (Frame.fromFile pc).On rest)
    (called : ∀ path', pc = .enter path' → path' = path) (started : (.main r, op) ∈ start)
    (reloaded : (.main r, op) ∈ reload) (h : (Frame.fromFile pc).Carries path start reload rest) :
    move.Keeps (Frame.Carries path start reload) rest := by
  cases reads with
  | empty => exact absurd (called _ rfl).symm named
  | «open» path' ifs fd =>
    obtain rfl := called _ rfl
    refine ⟨⟨rfl, fd, ?_⟩, trivial⟩
    split
    · exact reloaded
    · exact started
  | parse _ fd parsed =>
    obtain ⟨rfl, opened⟩ := h
    exact ⟨_, opened, parsed⟩
  | outOfRange => trivial
  | close _ cfg fd =>
    intro g below top _
    subst top
    have loaded : Loaded (if forHandler (g :: below) then reload else start) path cfg := h
    -- whom it returns to
    have waits : g.awaits = some .fromFile := on
    unfold Frame.awaits at waits
    split at waits
    all_goals cases waits
    · exact loaded
    · exact loaded

/-- What the frames of a process carry, and know of the command line. -/
structure Delivers (argv : List Bytes) (path : Bytes) (events : List Traced) (s : Proc Dir) : Prop where
  stacked : WellStacked s.stack
  configured : Configured argv path s
  carries : Layered (Frame.Carries path events (sinceReload events)) s.stack

theorem Delivers.step {events : List Traced} (h : Delivers argv path events s)
    (found : scanConfig argv = some (some path)) (named : path ≠ []) (with' : runsWith argv l = true)
    (step : s.step fs l = some (op, t)) : Delivers argv path (events ++ [(l, op)]) t := by
  refine ⟨h.stacked.step step, h.configured.step found with' step, ?_⟩
  obtain ⟨-, -, cases⟩ := step_cases step
  have more : events ⊆ events ++ [(l, op)] := List.subset_append_left _ _
  cases cases with
  | @signal sig label performs ready after =>
    rw [after]
    refine ⟨trivial, ?_⟩
    by_cases hup : sig = .SIGHUP
    · -- a SIGHUP comes while none is handled
      subst hup
      simp only [Proc.deliverable, Bool.and_eq_true, Bool.not_eq_true', List.any_eq_false] at ready
      have kept := h.carries.mono fun f below carries => carries.mono more (List.Subset.refl (sinceReload events))
      exact carries_of_apart h.stacked.placed (fun f mem => Bool.eq_false_iff.2 (ready.2 f mem)) kept
    · have other : op ≠ .deliver .SIGHUP := by
        rw [performs]
        rintro ⟨⟩
        exact hup rfl
      rw [sinceReload_concat other]
      exact h.carries.mono fun f below carries => carries.mono more (List.subset_append_left _ _)
  | thread performs after =>
    have other : op ≠ .deliver .SIGHUP := by
      generalize t.threads = threads at performs
      cases performs <;> simp
    rw [after, sinceReload_concat other]
    exact h.carries.mono fun f below carries => carries.mono more (List.subset_append_left _ _)
  | @move f rest move top moves after =>
    have other : op ≠ .deliver .SIGHUP := moves.not_delivery _
    have carries := h.carries.mono fun f below carries =>
      carries.mono more (List.subset_append_left (sinceReload events) [(l, op)])
    have on := (h.stacked.top top).2
    rw [sinceReload_concat other]
    rw [top] at carries
    by_cases reading : ∃ pc, f = .fromFile pc
    · obtain ⟨pc, rfl⟩ := reading
      have main : ∃ r, l = .main r := by
        cases moves with
        | fromFile r => exact ⟨r, rfl⟩
        | user _ user => cases user
      obtain ⟨r, move', rfl, reads, after'⟩ := reads_of_step step top main
      rw [after']
      refine Move.Keeps.layered carries (reads.carries named on ?_ (by simp) (by simp) carries.1)
      rintro path' rfl
      have knows := h.configured.frames
      rw [top] at knows
      exact knows.1
    · rw [after]
      refine Move.Keeps.layered carries (moves.carries (h.stacked.top top).1 on ?_ carries.1)
      intro kind
      cases f with
      | fromFile pc => exact reading ⟨pc, rfl⟩
      | _ => cases kind

/-- **What a callback receives is the file as it is now**: the parse of a stream opened under the
path of the command line, for `on_reload` behind the delivery of its SIGHUP. If that stream was the
whole content of a file, the file is well formed and the map is the one the grammar assigns to it. -/
theorem delivers_config {obj : Object} {pid : Nat} {cwd : Dir} {events : List Traced} {cb : Callback}
    {cfg : Dconfig} (found : scanConfig argv = some (some path)) (named : path ≠ [])
    (run : (process fs).traced.Run (fun _ l => runsWith argv l = true) (Proc.launch obj pid cwd) events s)
    (mem : .callback cb (some cfg) ∈ s.stack) :
    ∃ ifs, Opened (if cb = .onReload then sinceReload events else events) path ifs ∧ fromFile path ifs = .ok cfg ∧
      ∀ content, ifs = .ofContent content → WellFormed (lines content) ∧
        ∀ key value, cfg.values.lookup key = some value ↔ LastEntry (lines content) key value := by
  have delivers : Delivers argv path events s := by
    refine run.invariant (I := Delivers argv path)
      ⟨stacked_launch obj pid cwd, configured_launch argv path obj pid cwd, trivial, trivial⟩ ?_
    intro events s event t _ delivers steps
    obtain ⟨with', step⟩ := Lib.System.steps_traced.1 steps
    exact delivers.step found named with' step
  obtain ⟨_, below, -, carries⟩ := delivers.carries.of_mem mem
  obtain ⟨ifs, opened, parsed⟩ : Loaded _ path cfg := carries cfg rfl
  refine ⟨ifs, opened, parsed, ?_⟩
  rintro content rfl
  exact meaning_of_loaded named parsed

end Run

/-- Where `on_reload` has just been called. -/
def handed : List Frame → Option Dconfig
  | .callback .onReload (some cfg) :: _ => some cfg
  | _ => none

theorem mem_of_handed {stack : List Frame} {cfg : Dconfig} (h : handed stack = some cfg) :
    .callback .onReload (some cfg) ∈ stack := by
  unfold handed at h
  split at h
  · cases h
    exact List.mem_cons_self
  · cases h

/-- A start with an empty file, and a SIGHUP behind which the file says `level=2`. -/
def reloadEdited : List Label :=
  List.flatten [openConfigFile [bytes "--config", bytes "/etc/service.conf"], libCalls 1, statements 3, [.user .ret],
    statements 1, libCalls 1, [.signal .SIGHUP], statements 1, libCalls 3, statements 1,
    [.main (.file (.ofContent (bytes "level=2")))], libCalls 1, statements 3]

theorem delivers_config_reloadEdited : ∃ events s cfg,
    (process lexical).traced.Run (fun _ l => runsWith [bytes "--config", bytes "/etc/service.conf"] l = true)
      launchedInHome events s ∧
    .callback .onReload (some cfg) ∈ s.stack ∧ cfg.get (bytes "level") = bytes "2" ∧
    ∃ ifs, Opened (sinceReload events) (bytes "/etc/service.conf") ifs ∧
      fromFile (bytes "/etc/service.conf") ifs = .ok cfg ∧
      ∀ content, ifs = .ofContent content → WellFormed (lines content) ∧
        ∀ key value, cfg.values.lookup key = some value ↔ LastEntry (lines content) key value := by
  obtain ⟨events, s, run, has⟩ := (process lexical).traced.exists_run
    (C := fun _ l => runsWith [bytes "--config", bytes "/etc/service.conf"] l = true)
    (P := fun _ s => (handed s.stack).any fun cfg => cfg.get (bytes "level") = bytes "2") reloadEdited
    (s := launchedInHome) rfl
  obtain ⟨cfg, same, level⟩ := (Option.any_eq_true _ _).1 has
  have mem := mem_of_handed same
  exact ⟨events, s, cfg, run, mem, of_decide_eq_true level, delivers_config rfl (by decide) run mem⟩

end Daemonpp
