import Mathlib.Data.List.DropRight

/-!
# Delimited fields and stripped text

`fields d s` is what a reader obtains from `s` when it takes the text up to
each delimiter in turn and stops at the end of the input: a text that ends in a
delimiter has no empty field behind it, and the empty text has no field at all.
`List.splitOn` differs from it only in that last field (`splitOn_eq_fields`).
`strip p s` drops the longest prefix and the longest suffix of `s` that satisfy
`p`; `Stripped` says the same without an algorithm. Nothing here depends on what
the symbols are.
-/

namespace Daemonpp.Lib

section Fields

variable {α : Type*} [DecidableEq α]

/-- The delimited fields of a text, a last empty one dropped. -/
def fields (d : α) : List α → List (List α)
  | [] => []
  | x :: xs =>
    if x = d then [] :: fields d xs
    else match fields d xs with
      | [] => [[x]]
      | part :: parts => (x :: part) :: parts

variable {d : α}

@[simp] theorem fields_nil : fields d ([] : List α) = [] := rfl

/-- The text up to a delimiter is a field, and reading goes on behind it. -/
theorem fields_append_cons {part : List α} (clean : d ∉ part) (rest : List α) :
    fields d (part ++ d :: rest) = part :: fields d rest := by
  induction part with
  | nil => simp [fields]
  | cons x part ih =>
    obtain ⟨ne, clean⟩ := not_or.1 (mt List.mem_cons.2 clean)
    simp only [List.cons_append, fields, ih clean, if_neg (Ne.symm ne)]

/-- A non-empty text without a delimiter is one field. -/
theorem fields_of_notMem {part : List α} (clean : d ∉ part) (nonempty : part ≠ []) :
    fields d part = [part] := by
  induction part with
  | nil => exact (nonempty rfl).elim
  | cons x part ih =>
    obtain ⟨ne, clean⟩ := not_or.1 (mt List.mem_cons.2 clean)
    by_cases last : part = []
    · subst last; simp [fields, Ne.symm ne]
    · simp only [fields, ih clean last, if_neg (Ne.symm ne)]

/-- Every text is empty, or one field, or a field, a delimiter and a text. -/
theorem fields_induction {motive : List α → Prop} (nil : motive [])
    (last : ∀ part, d ∉ part → part ≠ [] → motive part)
    (cons : ∀ part rest, d ∉ part → motive rest → motive (part ++ d :: rest)) :
    ∀ s, motive s := by
  intro s
  generalize size : s.length = n
  induction n using Nat.strongRecOn generalizing s with
  | ind n ih =>
    by_cases mem : d ∈ s
    · obtain ⟨part, rest, rfl, clean⟩ := List.eq_append_cons_of_mem mem
      refine cons part rest clean (ih rest.length ?_ rest rfl)
      simp only [List.length_append, List.length_cons] at size
      omega
    · by_cases empty : s = []
      · exact empty ▸ nil
      · exact last s mem empty

/-- A text has no field exactly when it is empty. -/
theorem fields_eq_nil_iff {s : List α} : fields d s = [] ↔ s = [] := by
  induction s using fields_induction (d := d) with
  | nil => simp
  | last s clean nonempty => simp [fields_of_notMem clean nonempty, nonempty]
  | cons first rest clean => simp [fields_append_cons clean]

/-- `part` is the text of `s` before its first delimiter, or all of `s` when it
has none. -/
structure Upto (d : α) (s part : List α) : Prop where
  clean : d ∉ part
  rest : s = part ∨ ∃ rest, s = part ++ d :: rest

theorem exists_upto (s : List α) : ∃ part, Upto d s part := by
  by_cases mem : d ∈ s
  · obtain ⟨part, rest, rfl, clean⟩ := List.eq_append_cons_of_mem mem
    exact ⟨part, clean, .inr ⟨rest, rfl⟩⟩
  · exact ⟨s, mem, .inl rfl⟩

/-- The first field of a non-empty text. -/
theorem fields_of_upto {s part : List α} (h : Upto d s part) (nonempty : s ≠ []) :
    ∃ parts, fields d s = part :: parts := by
  obtain ⟨clean, rfl | ⟨rest, rfl⟩⟩ := h
  · exact ⟨[], fields_of_notMem clean nonempty⟩
  · exact ⟨fields d rest, fields_append_cons clean rest⟩

theorem Upto.unique {s part part' : List α} (h : Upto d s part) (h' : Upto d s part') :
    part = part' := by
  by_cases nonempty : s = []
  · subst nonempty
    obtain ⟨-, e | ⟨_, e⟩⟩ := h <;> obtain ⟨-, e' | ⟨_, e'⟩⟩ := h' <;> simp_all
  · obtain ⟨_, e⟩ := fields_of_upto h nonempty
    obtain ⟨_, e'⟩ := fields_of_upto h' nonempty
    exact (List.cons.inj (e.symm.trans e')).1

omit [DecidableEq α] in
theorem Upto.subset {s part : List α} (h : Upto d s part) : part ⊆ s := by
  rcases h.rest with rfl | ⟨rest, rfl⟩
  · exact List.Subset.refl s
  · exact List.subset_append_left part _

omit [DecidableEq α] in
/-- Text without the delimiter in front belongs to the first field. -/
theorem Upto.append_left {s part before : List α} (clean : d ∉ before) (h : Upto d s part) :
    Upto d (before ++ s) (before ++ part) := by
  refine ⟨?_, ?_⟩
  · rw [List.mem_append, not_or]
    exact ⟨clean, h.clean⟩
  · rcases h.rest with rfl | ⟨rest, rfl⟩
    · exact .inl rfl
    · exact .inr ⟨rest, by rw [List.append_assoc]⟩

/-- The text before the first delimiter and the text behind it are unique. -/
theorem first_delim_unique {k k' rest rest' : List α} (clean : d ∉ k) (clean' : d ∉ k')
    (same : k ++ d :: rest = k' ++ d :: rest') : k = k' ∧ rest = rest' := by
  have : k = k' := Upto.unique ⟨clean, .inr ⟨rest, rfl⟩⟩ ⟨clean', .inr ⟨rest', same⟩⟩
  subst this
  exact ⟨rfl, (List.cons.inj (List.append_cancel_left same)).2⟩

/-- No field contains the delimiter. -/
theorem notMem_of_mem_fields {s part : List α} (mem : part ∈ fields d s) : d ∉ part := by
  induction s using fields_induction (d := d) with
  | nil => cases mem
  | last s clean nonempty =>
    rw [fields_of_notMem clean nonempty] at mem
    exact List.mem_singleton.1 mem ▸ clean
  | cons first rest clean ih =>
    rw [fields_append_cons clean] at mem
    rcases List.mem_cons.1 mem with rfl | mem
    · exact clean
    · exact ih mem

omit [DecidableEq α] in
/-- A text ends in the delimiter when what is behind one of its delimiters does or is empty. -/
theorem getLast?_append_cons (part rest : List α) :
    (part ++ d :: rest).getLast? = some d ↔ rest = [] ∨ rest.getLast? = some d := by
  rw [List.getLast?_append_of_ne_nil _ (List.cons_ne_nil _ _)]
  cases rest with
  | nil => simp
  | cons x rest => simp [List.getLast?_cons_cons]

/-- **The fields give the text back**, up to a final delimiter. -/
theorem intercalate_fields (s : List α) :
    [d].intercalate (fields d s) ++ (if s.getLast? = some d then [d] else []) = s := by
  induction s using fields_induction (d := d) with
  | nil => rfl
  | last s clean nonempty =>
    have other : s.getLast? ≠ some d := fun last => clean (List.mem_of_getLast? last)
    rw [fields_of_notMem clean nonempty, if_neg other, List.intercalate_singleton, List.append_nil]
  | cons first rest clean ih =>
    rw [fields_append_cons clean]
    simp only [getLast?_append_cons]
    by_cases final : rest = []
    · subst final
      simp
    · obtain ⟨part, parts, some⟩ := List.exists_cons_of_ne_nil (mt fields_eq_nil_iff.1 final : fields d rest ≠ [])
      rw [some, List.intercalate_cons_cons, ← some]
      simp only [final, false_or]
      rw [List.append_assoc, List.append_assoc, ih]
      rfl

/-- Every delimiter ends a field, and the text behind the last one is a field unless it is empty. -/
theorem length_fields (s : List α) :
    (fields d s).length = s.count d + if s ≠ [] ∧ s.getLast? ≠ some d then 1 else 0 := by
  induction s using fields_induction (d := d) with
  | nil => rfl
  | last s clean nonempty =>
    have other : s.getLast? ≠ some d := fun last => clean (List.mem_of_getLast? last)
    rw [fields_of_notMem clean nonempty, List.count_eq_zero.2 clean, if_pos ⟨nonempty, other⟩]
    rfl
  | cons first rest clean ih =>
    have size : (first ++ d :: rest).count d = rest.count d + 1 := by
      rw [List.count_append, List.count_eq_zero.2 clean, List.count_cons_self, Nat.zero_add]
    have final : (first ++ d :: rest ≠ [] ∧ (first ++ d :: rest).getLast? ≠ some d) ↔
        rest ≠ [] ∧ rest.getLast? ≠ some d := by
      rw [ne_eq, ne_eq, getLast?_append_cons, not_or]
      simp
    rw [fields_append_cons clean, List.length_cons, ih, size, if_congr final rfl rfl]
    omega

/-- There is a second field exactly when the first delimiter is not the last symbol. -/
theorem one_lt_length_fields {s : List α} :
    1 < (fields d s).length ↔ ∃ part rest, s = part ++ d :: rest ∧ d ∉ part ∧ rest ≠ [] := by
  constructor
  · intro two
    by_cases mem : d ∈ s
    · obtain ⟨part, rest, rfl, clean⟩ := List.eq_append_cons_of_mem mem
      refine ⟨part, rest, rfl, clean, ?_⟩
      rintro rfl
      simp [fields_append_cons clean] at two
    · by_cases empty : s = []
      · simp [empty] at two
      · simp [fields_of_notMem mem empty] at two
  · rintro ⟨part, rest, rfl, clean, more⟩
    rw [fields_append_cons clean, List.length_cons]
    exact Nat.succ_lt_succ (List.length_pos_of_ne_nil (mt fields_eq_nil_iff.1 more))

/-- `List.splitOn` gives the fields and, behind them, at most one empty one. -/
theorem splitOn_eq_fields (s : List α) :
    s.splitOn d = fields d s ∨ s.splitOn d = fields d s ++ [[]] := by
  induction s using fields_induction (d := d) with
  | nil => right; simp [List.splitOn_nil]
  | last s clean nonempty =>
    left; rw [List.splitOn_eq_singleton clean, fields_of_notMem clean nonempty]
  | cons first rest clean ih =>
    rw [List.splitOn_append_cons_self_of_not_mem clean, fields_append_cons clean, List.cons_append]
    exact ih.imp (congrArg _) (congrArg _)

end Fields

section Strip

variable {α : Type*} {p : α → Bool}

/-- Drop the prefix and the suffix that satisfy `p`. -/
def strip (p : α → Bool) (s : List α) : List α := (s.dropWhile p).rdropWhile p

/-- Neither the first nor the last symbol satisfies `p`. -/
structure Tight (p : α → Bool) (s : List α) : Prop where
  head : ∀ x ∈ s.head?, p x = false
  last : ∀ x ∈ s.getLast?, p x = false

/-- `t` is `s` without the `p`-symbols around it. -/
structure Stripped (p : α → Bool) (s t : List α) : Prop where
  around : ∃ a b, s = a ++ t ++ b ∧ (∀ x ∈ a, p x) ∧ ∀ x ∈ b, p x
  tight : Tight p t

instance (p : α → Bool) (s : List α) : Decidable (Tight p s) :=
  decidable_of_iff (s.head?.all (fun x => !p x) = true ∧ s.getLast?.all (fun x => !p x) = true) <| by
    have all : ∀ o : Option α, o.all (fun x => !p x) = true ↔ ∀ x ∈ o, p x = false := by
      intro o
      cases o <;> simp
    rw [all, all]
    exact ⟨fun h => ⟨h.1, h.2⟩, fun h => ⟨h.head, h.last⟩⟩

theorem Tight.nil : Tight p [] := ⟨by simp, by simp⟩

/-- Tight text between two kept ends is tight. -/
theorem Tight.append {s t : List α} (hs : ∀ x ∈ s.head?, p x = false) (nonempty : s ≠ [])
    (ht : ∀ x ∈ t.getLast?, p x = false) (nonempty' : t ≠ []) : Tight p (s ++ t) := by
  refine ⟨fun x h => hs x ?_, fun x h => ht x ?_⟩
  · rwa [List.head?_append_of_ne_nil s nonempty] at h
  · rwa [List.getLast?_append_of_ne_nil s nonempty'] at h

theorem dropWhile_append_of_all {a : List α} (all : ∀ x ∈ a, p x) (s : List α) :
    (a ++ s).dropWhile p = s.dropWhile p := by
  rw [List.dropWhile_append, if_pos]
  simpa using all

theorem dropWhile_of_head {s : List α} (h : ∀ x ∈ s.head?, p x = false) : s.dropWhile p = s := by
  cases s with
  | nil => rfl
  | cons x s => rw [List.dropWhile_cons, if_neg]; simpa using h x

theorem rdropWhile_append_of_all {b : List α} (all : ∀ x ∈ b, p x) (s : List α) :
    (s ++ b).rdropWhile p = s.rdropWhile p := by
  simp only [List.rdropWhile, List.reverse_append]
  rw [dropWhile_append_of_all (by simpa using all)]

theorem rdropWhile_of_last {s : List α} (h : ∀ x ∈ s.getLast?, p x = false) : s.rdropWhile p = s := by
  rw [List.rdropWhile, dropWhile_of_head (by simpa [List.head?_reverse] using h), List.reverse_reverse]

/-- Tight text is unchanged. -/
theorem strip_of_tight {s : List α} (h : Tight p s) : strip p s = s := by
  rw [strip, dropWhile_of_head h.head, rdropWhile_of_last h.last]

/-- Dropping from the end keeps the first symbol, if any is kept. -/
theorem head?_rdropWhile {s : List α} {x : α} (h : x ∈ (s.rdropWhile p).head?) : x ∈ s.head? := by
  obtain ⟨t, ht⟩ := List.rdropWhile_prefix (p := p) (l := s)
  rw [← ht, List.head?_append]
  simp only [Option.mem_def] at h ⊢
  rw [h]; rfl

theorem head?_dropWhile {s : List α} {x : α} (h : x ∈ (s.dropWhile p).head?) : p x = false := by
  have := List.head?_dropWhile_not p s
  rw [Option.mem_def] at h
  rw [h] at this
  exact this

/-- `strip` computes the stripped text. -/
theorem stripped_strip (s : List α) : Stripped p s (strip p s) := by
  refine ⟨⟨s.takeWhile p, (s.dropWhile p).rtakeWhile p, ?_, ?_, ?_⟩, ?_, ?_⟩
  · rw [strip, List.append_assoc, List.rdropWhile_append_rtakeWhile, List.takeWhile_append_dropWhile]
  · intro x h; exact List.mem_takeWhile_imp h
  · intro x h; exact List.mem_rtakeWhile_imp h
  · intro x h; exact head?_dropWhile (head?_rdropWhile h)
  · intro x h
    have nonempty : strip p s ≠ [] := by rintro e; simp [e] at h
    rw [List.getLast?_eq_getLast_of_ne_nil nonempty, Option.mem_some_iff] at h
    subst h
    exact Bool.eq_false_iff.2 (List.rdropWhile_last_not p (s.dropWhile p) nonempty)

/-- The stripped text is unique. -/
theorem Stripped.eq {s t : List α} (h : Stripped p s t) : t = strip p s := by
  obtain ⟨⟨a, b, rfl, ha, hb⟩, tight⟩ := h
  rw [strip, List.append_assoc, dropWhile_append_of_all ha]
  by_cases empty : t = []
  · subst empty
    rw [List.nil_append, List.dropWhile_eq_nil_iff.2 hb, List.rdropWhile_nil]
  · have head : ∀ x ∈ (t ++ b).head?, p x = false := by
      rw [List.head?_append_of_ne_nil t empty]; exact tight.head
    rw [dropWhile_of_head head, rdropWhile_append_of_all hb, rdropWhile_of_last tight.last]

theorem stripped_iff {s t : List α} : Stripped p s t ↔ t = strip p s :=
  ⟨Stripped.eq, fun h => h ▸ stripped_strip s⟩

/-- Symbols around the text that satisfy `p` make no difference. -/
theorem strip_append_of_all {a b : List α} (ha : ∀ x ∈ a, p x) (hb : ∀ x ∈ b, p x) (s : List α) :
    strip p (a ++ s ++ b) = strip p s := by
  obtain ⟨⟨a', b', same, ha', hb'⟩, tight⟩ := stripped_strip (p := p) s
  refine (Stripped.eq ⟨⟨a ++ a', b' ++ b, ?_, ?_, ?_⟩, tight⟩).symm
  · conv_lhs => rw [same]
    simp only [List.append_assoc]
  · exact fun x mem => (List.mem_append.1 mem).elim (ha x) (ha' x)
  · exact fun x mem => (List.mem_append.1 mem).elim (hb' x) (hb x)

theorem dropWhile_append_cons {x : α} (kept : p x = false) (s t : List α) :
    (s ++ x :: t).dropWhile p = s.dropWhile p ++ x :: t := by
  rw [List.dropWhile_append]
  split
  · rename_i all
    rw [List.isEmpty_iff.1 all, List.dropWhile_cons_of_neg (by simp [kept]), List.nil_append]
  · rfl

theorem rdropWhile_append_cons {x : α} (kept : p x = false) (s t : List α) :
    (s ++ x :: t).rdropWhile p = s ++ x :: t.rdropWhile p := by
  have turned : (s ++ x :: t).reverse = t.reverse ++ x :: s.reverse := by simp
  rw [List.rdropWhile, turned, dropWhile_append_cons kept, List.rdropWhile]
  simp

/-- On either side of a symbol that is kept, only the outer end is stripped. -/
theorem strip_append_cons {x : α} (kept : p x = false) (s t : List α) :
    strip p (s ++ x :: t) = s.dropWhile p ++ x :: t.rdropWhile p := by
  rw [strip, dropWhile_append_cons kept, rdropWhile_append_cons kept]

/-- Whether the end is stripped before or behind the cut at a kept delimiter makes no difference. -/
theorem strip_upto [DecidableEq α] {d : α} (kept : p d = false) {s v v' : List α} (h : Upto d s v)
    (h' : Upto d (s.rdropWhile p) v') : strip p v' = strip p v := by
  have whole : s = s.rdropWhile p ++ s.rtakeWhile p := (List.rdropWhile_append_rtakeWhile (p := p) (l := s)).symm
  have white : ∀ x ∈ s.rtakeWhile p, p x := fun x => List.mem_rtakeWhile_imp
  rcases h'.rest with same | ⟨rest, same⟩
  · -- no delimiter is left, and none was dropped
    have clean : d ∉ s.rtakeWhile p := fun mem => absurd (white d mem) (by simp [kept])
    have upto : Upto d s (v' ++ s.rtakeWhile p) := by
      refine ⟨?_, .inl (same ▸ whole)⟩
      rw [List.mem_append, not_or]
      exact ⟨h'.clean, clean⟩
    rw [h.unique upto]
    exact (strip_append_of_all (a := []) (by simp) white v').symm
  · have upto : Upto d s v' := by
      refine ⟨h'.clean, .inr ⟨rest ++ s.rtakeWhile p, ?_⟩⟩
      conv_lhs => rw [whole, same]
      rw [List.append_assoc]
      rfl
    rw [h.unique upto]

/-- Stripping only removes symbols. -/
theorem mem_of_mem_strip {s : List α} {x : α} (h : x ∈ strip p s) : x ∈ s := by
  obtain ⟨a, b, e, -, -⟩ := (stripped_strip (p := p) s).around
  rw [e]; simp [h]

end Strip

end Daemonpp.Lib
