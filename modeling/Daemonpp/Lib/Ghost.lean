import Daemonpp.Lib.Path

/-!
# A machine with a ghost

`System.ghost` lets something else follow a machine: its state changes with each
step, as a function of what the step does, and may forbid the step. What follows
the machine does not add to its runs (`Run.forget`), and takes nothing away if it
forbids nothing (`Run.exists_ghost`). `System.widen` gives the environment a
choice that the machine ignores, for a ghost to make use of.
-/

namespace Daemonpp.Lib.System

variable {S L E G : Type} (M : System S L E)

/-- The machine, which ignores a further choice of the environment. -/
def widen (X : Type) : System S (L × X) E := ⟨fun s l => M.step s l.1⟩

/-- The machine with something that follows it. -/
def ghost (follow : S → L → E → S → G → Option G) : System (S × G) L E where
  step x l := (M.step x.1 l).bind fun r => (follow x.1 l r.1 r.2 x.2).map fun g => (r.1, r.2, g)

variable {M} {follow : S → L → E → S → G → Option G} {s t : S} {g g' : G} {e : E} {es : List E}

/-- A step of the two. -/
theorem step_ghost {l : L} :
    (M.ghost follow).step (s, g) l = some (e, t, g') ↔ M.step s l = some (e, t) ∧ follow s l e t g = some g' := by
  unfold ghost
  constructor
  · intro step
    obtain ⟨r, moved, followed⟩ := Option.bind_eq_some_iff.1 step
    obtain ⟨_, followed, same⟩ := Option.map_eq_some_iff.1 followed
    cases same
    exact ⟨moved, followed⟩
  · rintro ⟨moved, followed⟩
    exact Option.bind_eq_some_iff.2 ⟨_, moved, Option.map_eq_some_iff.2 ⟨_, followed, rfl⟩⟩

/-- A run of the two is one of the machine. -/
theorem Run.forget {C : S → L → Prop} {D : S × G → L → Prop} {x y : S × G} (run : (M.ghost follow).Run D x es y)
    (allowed : ∀ x l, D x l → C x.1 l) : M.Run C x.1 es y.1 := by
  refine run.invariant (I := fun es y => M.Run C x.1 es y.1) .start ?_
  rintro es ⟨s, g⟩ e ⟨t, g'⟩ - run ⟨l, chosen, step⟩
  exact run.snoc ⟨l, allowed _ l chosen, (step_ghost.1 step).1⟩

/-- What forbids nothing can follow any run. -/
theorem Run.exists_ghost {C : S → L → Prop} (total : ∀ s l e t g, (follow s l e t g).isSome) (run : M.Run C s es t)
    (g : G) : ∃ g', (M.ghost follow).Run (fun x l => C x.1 l) (s, g) es (t, g') := by
  induction run with
  | start => exact ⟨g, .start⟩
  | @snoc es s t e run last ih =>
    obtain ⟨g', before⟩ := ih
    obtain ⟨l, allowed, step⟩ := last
    obtain ⟨g'', followed⟩ := Option.isSome_iff_exists.1 (total s l e t g')
    exact ⟨g'', before.snoc ⟨l, allowed, step_ghost.2 ⟨step, followed⟩⟩⟩

/-- The runs are the same whatever else the environment chooses. -/
theorem run_widen {X : Type} [Nonempty X] {C : S → L → Prop} :
    (M.widen X).Run (fun s l => C s l.1) s es t ↔ M.Run C s es t := by
  obtain ⟨x⟩ := ‹Nonempty X›
  constructor
  · exact Path.mono fun ⟨l, allowed, step⟩ => ⟨l.1, allowed, step⟩
  · exact Path.mono fun ⟨l, allowed, step⟩ => ⟨(l, x), allowed, step⟩

end Daemonpp.Lib.System
