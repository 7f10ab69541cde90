/-!
# Invariants of a stack

A property of a call stack usually says of each frame something that depends on
the frames below it only: who its caller is, what it has interrupted.
`Layered P stack` states `P f below` for every frame `f` of the stack. Since a
machine changes its stack at the top, such an invariant is kept as soon as the
frames on top keep it, and what is below is never looked at again.
-/

namespace Daemonpp.Lib

variable {F : Type}

/-- Every frame meets `P` together with the frames below it. -/
def Layered (P : F → List F → Prop) : List F → Prop
  | [] => True
  | f :: below => P f below ∧ Layered P below

namespace Layered

variable {P Q : F → List F → Prop} {f g : F} {below stack : List F}

@[simp] theorem nil : Layered P [] := trivial

@[simp] theorem cons_iff : Layered P (f :: below) ↔ P f below ∧ Layered P below := Iff.rfl

theorem below_append {above : List F} (h : Layered P (above ++ stack)) : Layered P stack := by
  induction above with
  | nil => exact h
  | cons f above ih => exact ih h.2

/-- What is known of a frame of the stack. -/
theorem of_mem (h : Layered P stack) (mem : f ∈ stack) :
    ∃ above below, stack = above ++ f :: below ∧ P f below := by
  obtain ⟨above, below, rfl⟩ := List.append_of_mem mem
  exact ⟨above, below, rfl, h.below_append.1⟩

theorem mono (h : Layered P stack) (weaken : ∀ f below, P f below → Q f below) : Layered Q stack := by
  induction stack with
  | nil => trivial
  | cons f below ih => exact ⟨weaken f below h.1, ih h.2⟩

/-- A property of single frames. -/
theorem forall_iff {p : F → Prop} : Layered (fun f _ => p f) stack ↔ ∀ f ∈ stack, p f := by
  induction stack with
  | nil => simp
  | cons f below ih => simp [ih]

end Layered

end Daemonpp.Lib
