/-!
# Labelled paths

A `System` takes a step from a state under a choice of its environment and
performs one operation in it. `Path R s₀ es s` is a finite run of a labelled
relation from `s₀` to `s` whose operations are `es`, oldest first. The rules are
the ones every development over runs needs: an invariant of the steps is an
invariant of the runs (`Path.invariant`), a run can be cut at any of its
operations (`Path.cut`), a simulation of the steps is one of the runs
(`Path.simulate`), and a run can be replayed from the choices that produced it
(`System.exists_run`).
-/

namespace Daemonpp.Lib

/-- A finite run of the labelled relation `R`, its operations oldest first. -/
inductive Path {S E : Type} (R : S → E → S → Prop) (s₀ : S) : List E → S → Prop where
  | start : Path R s₀ [] s₀
  | snoc {es : List E} {s t : S} {e : E} : Path R s₀ es s → R s e t → Path R s₀ (es ++ [e]) t

namespace Path

variable {S E : Type} {R : S → E → S → Prop} {s₀ s t : S} {es fs : List E} {e : E}

/-- What holds at the start and is kept by every step holds along every run. -/
theorem invariant {I : List E → S → Prop} (start : I [] s₀)
    (step : ∀ {es s e t}, Path R s₀ es s → I es s → R s e t → I (es ++ [e]) t)
    (path : Path R s₀ es s) : I es s := by
  induction path with
  | start => exact start
  | snoc before last ih => exact step before ih last

/-- The state part of `invariant`, for what does not mention the operations. -/
theorem always {I : S → Prop} (start : I s₀) (step : ∀ {s e t}, I s → R s e t → I t)
    (path : Path R s₀ es s) : I s :=
  path.invariant (I := fun _ => I) start fun _ => step

theorem trans (path : Path R s₀ es s) (next : Path R s fs t) : Path R s₀ (es ++ fs) t := by
  induction next with
  | start => rwa [List.append_nil]
  | snoc _ last ih => rw [← List.append_assoc]; exact .snoc ih last

theorem nil_eq (path : Path R s₀ [] s) : s = s₀ := by
  generalize h : ([] : List E) = es at path
  cases path with
  | start => rfl
  | snoc => simp at h

/-- A run is cut wherever its operations are. -/
theorem split {es fs : List E} (path : Path R s₀ (es ++ fs) t) :
    ∃ s, Path R s₀ es s ∧ Path R s fs t := by
  generalize h : es ++ fs = all at path
  induction path generalizing fs with
  | start =>
    obtain ⟨rfl, rfl⟩ := List.append_eq_nil_iff.1 h
    exact ⟨_, .start, .start⟩
  | @snoc gs s t e before last ih =>
    rcases List.eq_nil_or_concat fs with rfl | ⟨fs', e', rfl⟩
    · rw [List.append_nil] at h
      exact ⟨_, h ▸ .snoc before last, .start⟩
    · rw [List.concat_eq_append, ← List.append_assoc] at h
      obtain ⟨rfl, same⟩ := List.append_inj' h rfl
      cases same
      obtain ⟨m, first, second⟩ := ih rfl
      exact ⟨m, first, List.concat_eq_append ▸ .snoc second last⟩

theorem single (path : Path R s₀ [e] t) : R s₀ e t := by
  generalize h : [e] = es at path
  cases path with
  | start => simp at h
  | @snoc gs s _ e' before last =>
    obtain ⟨rfl, same⟩ := List.append_inj' (show [] ++ [e] = gs ++ [e'] from h) rfl
    cases same
    rwa [before.nil_eq] at last

/-- The step that performs a given operation of the run, and the runs around it. -/
theorem cut {es fs : List E} (path : Path R s₀ (es ++ e :: fs) t) :
    ∃ s s', Path R s₀ es s ∧ R s e s' ∧ Path R s' fs t := by
  obtain ⟨s, first, rest⟩ := split path
  obtain ⟨s', step, second⟩ := split (show Path R s ([e] ++ fs) t from rest)
  exact ⟨s, s', first, step.single, second⟩

/-- A simulation of the steps carries a run to a run with the same operations. -/
theorem simulate {A : Type} {Q : A → E → A → Prop} {Sim : S → A → Prop} {a₀ : A} (start : Sim s₀ a₀)
    (step : ∀ {s e t a}, Sim s a → R s e t → ∃ b, Q a e b ∧ Sim t b)
    (path : Path R s₀ es s) : ∃ a, Path Q a₀ es a ∧ Sim s a := by
  induction path with
  | start => exact ⟨a₀, .start, start⟩
  | snoc _ last ih =>
    obtain ⟨a, before, sim⟩ := ih
    obtain ⟨b, next, sim⟩ := step sim last
    exact ⟨b, .snoc before next, sim⟩

theorem mono {Q : S → E → S → Prop} (weaken : ∀ {s e t}, R s e t → Q s e t) (path : Path R s₀ es s) :
    Path Q s₀ es s := by
  induction path with
  | start => exact .start
  | snoc _ last ih => exact .snoc ih (weaken last)

end Path

/-- A state machine: under a choice of the environment, at most one step, which
performs one operation. -/
structure System (S L E : Type) where
  step : S → L → Option (E × S)

namespace System

variable {S L E : Type} (M : System S L E)

/-- A step taken under a choice that `C` allows in the state. -/
def Steps (C : S → L → Prop) (s : S) (e : E) (t : S) : Prop :=
  ∃ l, C s l ∧ M.step s l = some (e, t)

/-- The runs of a machine all of whose steps meet `C`. -/
abbrev Run (C : S → L → Prop) : S → List E → S → Prop := Path (M.Steps C)

variable {M} in
theorem Run.weaken {C D : S → L → Prop} {s t : S} {es : List E} (run : M.Run C s es t)
    (weaken : ∀ s l, C s l → D s l) : M.Run D s es t :=
  run.mono fun ⟨l, allowed, step⟩ => ⟨l, weaken _ l allowed, step⟩

/-- Replay a list of choices; `none` when one of them is not enabled or not allowed. -/
def replay (C : S → L → Prop) [∀ s l, Decidable (C s l)] : List L → S → Option (List E × S)
  | [], s => some ([], s)
  | l :: ls, s =>
    if C s l then
      match M.step s l with
      | none => none
      | some (e, t) => (replay C ls t).map fun r => (e :: r.1, r.2)
    else none

/-- A successful replay is a run. -/
theorem path_of_replay {C : S → L → Prop} [∀ s l, Decidable (C s l)] {ls : List L} {s t : S}
    {es : List E} (h : M.replay C ls s = some (es, t)) : M.Run C s es t := by
  induction ls generalizing s es with
  | nil => cases h; exact .start
  | cons l ls ih =>
    rw [replay] at h
    split at h
    · rename_i allowed
      cases step : M.step s l with
      | none => rw [step] at h; cases h
      | some r =>
        obtain ⟨e, u⟩ := r
        rw [step] at h
        obtain ⟨⟨es', t'⟩, rest, same⟩ := Option.map_eq_some_iff.1 h
        cases same
        have first : M.Run C s ([] ++ [e]) u := .snoc .start ⟨l, allowed, step⟩
        exact first.trans (ih rest)
    · cases h

/-- A replay that ends as wanted is a run that does. -/
theorem exists_run {C : S → L → Prop} [∀ s l, Decidable (C s l)] {P : List E → S → Bool} (ls : List L) {s : S}
    (h : (M.replay C ls s).any (fun r => P r.1 r.2) = true) : ∃ es t, M.Run C s es t ∧ P es t = true := by
  obtain ⟨⟨es, t⟩, replayed, holds⟩ := (Option.any_eq_true _ _).1 h
  exact ⟨es, t, M.path_of_replay replayed, holds⟩

end System

end Daemonpp.Lib
