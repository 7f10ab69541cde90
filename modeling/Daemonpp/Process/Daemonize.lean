import Daemonpp.Process.Stack

/-!
# What `daemonize` has done

A fact that `daemonize` establishes on its way is known to its frame at the
statements behind, and to the frame of `run` once `daemonize` has returned:
`Frame.Within` states such facts for the frames of a stack, and `within_step` is
the rule that carries them through a step. `leaving_step` says that a process which
is on its way out through `std::exit` stays so.
-/

namespace Daemonpp

open Lib (Layered)

/-- Ahead of the call of `daemonize`. -/
def RunPc.ahead : RunPc → Bool
  | .guard | .scan | .daemonize => true
  | _ => false

/-- Behind its return. -/
def RunPc.behind : RunPc → Bool
  | .guard | .scan | .daemonize | .daemonizing | .ret => false
  | _ => true

/-- `start` holds for a call of `run` ahead of `daemonize`, `inside pc` where `daemonize` is
at `pc`, and `done` for a call of `run` in which it has returned. -/
def Frame.Within (start : Prop) (inside : DaemonizePc → Prop) (done : Prop) : Frame → Prop
  | .run _ pc => (pc.ahead = true → start) ∧ (pc.behind = true → done)
  | .daemonize pc => inside pc
  | _ => True

/-- Where a statement of `daemonize` leads. -/
def Move.Target (inside : DaemonizePc → Prop) (done : Prop) : Move → Prop
  | .goto (.daemonize pc) | .call (.daemonize pc) _ => inside pc
  | .ret _ => done
  | _ => True

/-- Only `daemonize` stands on a call of `run` that waits for it. -/
theorem Frame.daemonize_of_sits {f : Frame} {argv : List Bytes} (sits : f.Sits (.run argv .daemonizing)) :
    f.kind = .daemonize ∨ f = .exiting := by
  cases f with
  | daemonize => exact .inl rfl
  | exiting => exact .inr rfl
  | stop handler => cases handler <;> cases sits
  | _ => cases sits

/-- A process that leaves through `std::exit`. -/
def Frame.leaving : Frame → Bool
  | .daemonize (.exit _) | .exiting => true
  | _ => false

section Rule

variable {Dir File : Type} {fs : PathSpace Dir File} {s t : Proc Dir} {l : Label} {op : Op}
variable {start start' done done' : Prop} {inside inside' : DaemonizePc → Prop}

theorem Frame.Within.mono {f : Frame} (h : f.Within start inside done) (before : start → start')
    (within : ∀ pc, inside pc → inside' pc) (behind : done → done') : f.Within start' inside' done' := by
  unfold Frame.Within at *
  split
  · exact ⟨before ∘ h.1, behind ∘ h.2⟩
  · exact within _ h
  · trivial

theorem Frame.Within.resume {f : Frame} (value : Option Dconfig) (h : f.Within start inside done)
    (back : ∀ argv, f = .run argv .daemonizing → done) : (f.resume value).Within start inside done := by
  cases f using Frame.resume_cases with
  | daemonized => exact ⟨nofun, fun _ => back _ rfl⟩
  | onStop => exact ⟨nofun, nofun⟩
  | configured | onStart | onUpdate => exact ⟨nofun, fun _ => h.2 rfl⟩
  | stays f stays =>
    rw [stays value]
    exact h
  | _ => exact h

/-- **The rule for facts that `daemonize` establishes**: they are kept once established, its
first statement relies on what is known ahead of it, and each of its statements establishes
what is known where it leads. -/
theorem within_step (stacked : WellStacked s.stack) (step : s.step fs l = some (op, t))
    (here : ∀ f ∈ s.stack, f.Within start inside done) (before : start → start')
    (within : ∀ pc, inside pc → inside' pc) (behind : done → done') (fork : start' → inside' .fork)
    (calls : l.callsRun = true → start')
    (moves : ∀ pc move, DaemonizeMove s.world pc op move → inside pc → move.Target inside' done') :
    ∀ f ∈ t.stack, f.Within start' inside' done' := by
  refine frames_step step (fun f mem => (here f mem).mono before within behind) ?_ (fun _ _ _ => trivial)
  intro f rest move top performs known
  have on := (stacked.top top).2
  -- what is not `daemonize` returns to a frame that does not wait for it
  have resumed : ∀ value, f.kind ≠ .daemonize → f ≠ .exiting →
      Move.Keeps (fun f _ => f.Within start' inside' done') rest (.ret value) := by
    intro value other stays g below same known
    refine known.resume value fun argv waits => ?_
    rw [same, waits] at on
    exact ((Frame.daemonize_of_sits on).elim other stays).elim
  cases performs with
  | run _ h =>
    cases h with
    | refuse => exact ⟨⟨nofun, nofun⟩, trivial⟩
    | ret => trivial
    | found | missing => exact ⟨⟨fun _ => known.1 rfl, nofun⟩, trivial⟩
    | guard | absent => exact ⟨fun _ => known.1 rfl, nofun⟩
    | daemonize => exact ⟨⟨nofun, nofun⟩, fork (known.1 rfl)⟩
    | config | start | started | update | stop => exact ⟨⟨nofun, fun _ => known.2 rfl⟩, trivial⟩
    | _ => exact ⟨nofun, fun _ => known.2 rfl⟩
  | @daemonize pc _ _ _ h =>
    have mem : Frame.daemonize pc ∈ s.stack := by
      rw [top]
      exact List.mem_cons_self
    have target := moves pc _ h (here _ mem)
    cases h with
    | init | noSetsid | noChdir => exact ⟨target, trivial⟩
    | closeLast => exact fun g below _ known => known.resume none fun _ _ => target
    | exit => trivial
    | _ => exact target
  | stop _ h =>
    cases h with
    | notify => exact resumed _ nofun nofun
    | _ => trivial
  | fromFile _ h =>
    cases h with
    | empty | close => exact resumed _ nofun nofun
    | «open» => exact ⟨trivial, trivial⟩
    | _ => trivial
  | signalHandler _ h | lib _ h | owner _ h =>
    cases h
    all_goals first | exact ⟨trivial, trivial⟩ | trivial
  | exiting => trivial
  | user h user =>
    cases h with
    | ret cb arg callback => exact resumed _ (callback ▸ nofun) (callback ▸ nofun)
    | destroy => trivial
    | run => exact ⟨known, fun _ => calls rfl, nofun⟩
    | stop | setCwd | noSetCwd | setName | lib => exact ⟨known, trivial⟩
    | _ => exact known

/-- **A process on its way out stays so.** -/
theorem leaving_step (step : s.step fs l = some (op, t)) (h : ∃ f ∈ s.stack, f.leaving = true) :
    ∃ f ∈ t.stack, f.leaving = true := by
  obtain ⟨f, mem, leaves⟩ := h
  have idle : f.awaits = none := by
    cases f with
    | daemonize | exiting => rfl
    | _ => cases leaves
  rcases frame_stays step mem idle with stays | ⟨rest, move, -, moves, after⟩
  · exact ⟨f, stays, leaves⟩
  · rw [after]
    cases moves with
    | daemonize _ h =>
      cases h with
      | exit => exact ⟨.exiting, List.mem_cons_self, rfl⟩
      | _ => cases leaves
    | exiting => exact ⟨.exiting, List.mem_cons_self, rfl⟩
    | user _ user =>
      cases f with
      | callback | owner => cases leaves
      | _ => cases user
    | run | stop | signalHandler | fromFile | lib | owner => cases leaves

end Rule

end Daemonpp
