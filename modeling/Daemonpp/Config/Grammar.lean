import Daemonpp.Config.Dconfig

/-!
# The line grammar of a configuration file

What a configuration file means, stated without the parser: lines are separated
by newlines, a line whose stripped text is neither empty nor a comment is an
entry line, and an entry assigns to the stripped text before its first `=` the
stripped text up to the next `=` or the end. The parser meets this grammar line
by line: `addLine_skip`, `addLine_entry` and `addLine_fault` say what the loop
body does with a line of each kind, and no later proof opens `addLine`.
-/

namespace Daemonpp

/-- The lines of a content; the one behind the last newline counts. -/
def lines (content : Bytes) : List Bytes := content.splitOn newline

/-- `s` is the stripped text of the entry line `line`. -/
structure EntryText (line s : Bytes) : Prop where
  stripped : Lib.Stripped isspace line s
  nonempty : s ≠ []
  noComment : s.head? ≠ some hash

/-- The text contains an `=`, and its first one is not its last byte. -/
def Complete (s : Bytes) : Prop := ∃ k rest, s = k ++ equals :: rest ∧ equals ∉ k ∧ rest ≠ []

/-- The entry line `line` gives `key` the value `value`. -/
inductive Entry (line key value : Bytes) : Prop where
  | mk {k rest v : Bytes} (text : EntryText line (k ++ equals :: rest)) (first : equals ∉ k)
      (upto : Lib.Upto equals rest v) (key : Lib.Stripped isspace k key)
      (value : Lib.Stripped isspace v value)

/-- Every entry line is complete. -/
def WellFormed (ls : List Bytes) : Prop := ∀ line ∈ ls, ∀ s, EntryText line s → Complete s

/-- The last of the lines that assigns `key` gives it `value`. -/
def LastEntry (ls : List Bytes) (key value : Bytes) : Prop :=
  ∃ before line after, ls = before ++ line :: after ∧ Entry line key value ∧
    ∀ l ∈ after, ∀ v, ¬ Entry l key v

/-- A text is complete when it splits into at least two fields. -/
theorem complete_iff {s : Bytes} : Complete s ↔ 1 < (Lib.fields equals s).length := Lib.one_lt_length_fields.symm

/-- Completeness of all lines, computed. -/
theorem wellFormed_iff {ls : List Bytes} : WellFormed ls ↔ ∀ line ∈ ls,
    trim line = [] ∨ (trim line).head? = some hash ∨ 1 < (Lib.fields equals (trim line)).length := by
  constructor
  · intro well line mem
    by_contra other
    obtain ⟨nonempty, noComment, one⟩ : trim line ≠ [] ∧ (trim line).head? ≠ some hash ∧ ¬ _ := by
      simpa only [not_or] using other
    exact one (complete_iff.1 (well line mem _ ⟨Lib.stripped_strip line, nonempty, noComment⟩))
  · intro all line mem s text
    have same : s = trim line := text.stripped.eq
    subst same
    exact complete_iff.2 (((all line mem).resolve_left text.nonempty).resolve_left text.noComment)

instance (ls : List Bytes) : Decidable (WellFormed ls) := decidable_of_iff _ wellFormed_iff.symm

section Line

variable {cfg : Dconfig} {line key value s : Bytes}

theorem EntryText.eq_trim (h : EntryText line s) : s = trim line := h.stripped.eq

theorem Entry.text (h : Entry line key value) : ∃ s, EntryText line s := by
  obtain ⟨text, -, -, -, -⟩ := h
  exact ⟨_, text⟩

/-- A line assigns at most one key, and one value to it. -/
theorem Entry.unique {key' value' : Bytes} (h : Entry line key value) (h' : Entry line key' value') :
    key = key' ∧ value = value' := by
  obtain ⟨text, first, upto, hk, hv⟩ := h
  obtain ⟨text', first', upto', hk', hv'⟩ := h'
  obtain ⟨rfl, rfl⟩ := Lib.first_delim_unique first first' (text.eq_trim.trans text'.eq_trim.symm)
  obtain rfl := upto.unique upto'
  exact ⟨hk.eq.trans hk'.eq.symm, hv.eq.trans hv'.eq.symm⟩

/-- A line that is not an entry line is skipped. -/
theorem addLine_skip (skip : ∀ s, ¬ EntryText line s) : addLine cfg line = .ok cfg := by
  by_cases blank : trim line = []
  · exact addLine_blank blank
  · obtain ⟨ch, rest, text⟩ := List.exists_cons_of_ne_nil blank
    by_cases comment : ch = hash
    · exact addLine_comment (comment ▸ text)
    · refine (skip (trim line) ⟨Lib.stripped_strip line, blank, ?_⟩).elim
      simpa [text] using comment

/-- A complete entry line is an entry of the grammar. -/
theorem Complete.entry (text : EntryText line s) (complete : Complete s) :
    ∃ key value, Entry line key value := by
  obtain ⟨k, rest, rfl, first, -⟩ := complete
  obtain ⟨v, upto⟩ := Lib.exists_upto (d := equals) rest
  exact ⟨trim k, trim v, text, first, upto, Lib.stripped_strip k, Lib.stripped_strip v⟩

/-- A complete entry line stores its entry. -/
theorem addLine_entry (text : EntryText line s) (complete : Complete s) (entry : Entry line key value) :
    addLine cfg line = .ok { cfg with values := cfg.values.insert key value } := by
  obtain @⟨k, rest, v, text', first, upto, hk, hv⟩ := entry
  obtain ⟨k', rest', rfl, first', more⟩ := complete
  obtain ⟨rfl, rfl⟩ := Lib.first_delim_unique first first' (text'.eq_trim.trans text.eq_trim.symm)
  obtain ⟨parts, behind⟩ := Lib.fields_of_upto upto more
  have fields : Lib.fields equals (trim line) = k :: v :: parts := by
    rw [← text.eq_trim, Lib.fields_append_cons first, behind]
  rw [addLine_of_parts (text.eq_trim ▸ text.nonempty) (text.eq_trim ▸ text.noComment) fields,
    hk.eq, hv.eq]
  rfl

/-- An incomplete entry line splits into one part, and `parts[1]` is out of range. -/
theorem addLine_fault (text : EntryText line s) (incomplete : ¬ Complete s) :
    addLine cfg line = .error ⟨1, 1⟩ := by
  have one : ∃ part, Lib.fields equals (trim line) = [part] := by
    rw [← text.eq_trim, ← List.length_eq_one_iff]
    have few := mt complete_iff.2 incomplete
    have some := List.length_pos_of_ne_nil (mt Lib.fields_eq_nil_iff.1 text.nonempty : Lib.fields equals s ≠ [])
    omega
  obtain ⟨part, fields⟩ := one
  rw [addLine_of_parts (text.eq_trim ▸ text.nonempty) (text.eq_trim ▸ text.noComment) fields]
  rfl

end Line

section Parts

variable {x y s key value : Bytes}

theorem trim_equals (x y : Bytes) :
    trim (x ++ equals :: y) = x.dropWhile isspace ++ equals :: y.rdropWhile isspace :=
  Lib.strip_append_cons (by decide) x y

theorem equals_notMem_dropWhile (first : equals ∉ x) : equals ∉ x.dropWhile isspace :=
  fun mem => first ((List.dropWhile_sublist _).mem mem)

/-- A line with an `=` is an entry line unless it is a comment. -/
theorem entryText_equals : EntryText (x ++ equals :: y) s ↔
    s = trim (x ++ equals :: y) ∧ (x.dropWhile isspace).head? ≠ some hash := by
  have head : (trim (x ++ equals :: y)).head? ≠ some hash ↔ (x.dropWhile isspace).head? ≠ some hash := by
    rw [trim_equals]
    cases x.dropWhile isspace with
    | nil => exact iff_of_true (by simp [equals, hash]) nofun
    | cons => rfl
  constructor
  · intro text
    exact ⟨text.eq_trim, head.1 (text.eq_trim ▸ text.noComment)⟩
  · rintro ⟨rfl, other⟩
    exact ⟨Lib.stripped_strip _, by rw [trim_equals]; simp, head.2 other⟩

/-- The text behind the first `=` decides whether the line is complete. -/
theorem complete_equals (first : equals ∉ x) :
    Complete (trim (x ++ equals :: y)) ↔ y.rdropWhile isspace ≠ [] := by
  rw [trim_equals]
  constructor
  · rintro ⟨k, rest, same, first', more⟩
    obtain ⟨-, rfl⟩ := Lib.first_delim_unique (equals_notMem_dropWhile first) first' same
    exact more
  · exact fun more => ⟨_, _, rfl, equals_notMem_dropWhile first, more⟩

/-- What an entry line assigns, in terms of the text on either side of its first `=`. -/
theorem entry_equals (first : equals ∉ x) : Entry (x ++ equals :: y) key value ↔
    (x.dropWhile isspace).head? ≠ some hash ∧ key = trim x ∧ ∃ v, Lib.Upto equals y v ∧ value = trim v := by
  have left : Lib.strip isspace (x.dropWhile isspace) = trim x := by
    rw [Lib.strip, List.dropWhile_idempotent]
    rfl
  obtain ⟨v', upto'⟩ := Lib.exists_upto (d := equals) (y.rdropWhile isspace)
  constructor
  · rintro @⟨k, rest, v, text, first', upto, hk, hv⟩
    obtain ⟨same, other⟩ := entryText_equals.1 text
    rw [trim_equals] at same
    obtain ⟨rfl, rfl⟩ := Lib.first_delim_unique first' (equals_notMem_dropWhile first) same
    obtain ⟨w, uptoW⟩ := Lib.exists_upto (d := equals) y
    exact ⟨other, hk.eq.trans left, w, uptoW, hv.eq.trans (Lib.strip_upto (by decide) uptoW upto)⟩
  · rintro ⟨other, rfl, v, upto, rfl⟩
    refine ⟨?_, equals_notMem_dropWhile first, upto', Lib.stripped_iff.2 left.symm, ?_⟩
    · rw [← trim_equals]
      exact entryText_equals.2 ⟨rfl, other⟩
    · exact Lib.stripped_iff.2 (Lib.strip_upto (by decide) upto upto').symm

end Parts

section Lines

variable {ls : List Bytes} {line key value : Bytes}

/-- The last entry of a key is looked for from the end. -/
theorem lastEntry_concat : LastEntry (ls ++ [line]) key value ↔
    Entry line key value ∨ (∀ v, ¬ Entry line key v) ∧ LastEntry ls key value := by
  constructor
  · rintro ⟨before, l, after, same, entry, none⟩
    rcases List.eq_nil_or_concat after with rfl | ⟨after, last, rfl⟩
    · obtain ⟨-, e⟩ := List.append_inj' same rfl
      cases e
      exact .inl entry
    · rw [List.concat_eq_append] at same none
      obtain ⟨rfl, e⟩ := List.append_inj' (show ls ++ [line] = (before ++ l :: after) ++ [last] by simpa using same) rfl
      cases e
      exact .inr ⟨none line (by simp), before, l, after, rfl, entry, fun m mem => none m (by simp [mem])⟩
  · rintro (entry | ⟨none, before, l, after, rfl, entry, rest⟩)
    · exact ⟨ls, line, [], rfl, entry, by simp⟩
    · refine ⟨before, l, after ++ [line], by simp, entry, fun m mem => ?_⟩
      rcases List.mem_append.1 mem with mem | mem
      · exact rest m mem
      · exact List.mem_singleton.1 mem ▸ none

/-- The last entry of a key is that of the later lines, if they have one. -/
theorem lastEntry_append {ls' : List Bytes} : LastEntry (ls ++ ls') key value ↔
    LastEntry ls' key value ∨ (∀ l ∈ ls', ∀ v, ¬ Entry l key v) ∧ LastEntry ls key value := by
  induction ls' using List.reverseRecOn with
  | nil =>
    have none : ¬ LastEntry [] key value := by
      rintro ⟨before, l, after, same, -⟩
      simp at same
    simp [none]
  | append_singleton ls' line ih =>
    rw [← List.append_assoc, lastEntry_concat, lastEntry_concat, ih]
    simp only [List.mem_append, List.mem_singleton, or_imp, forall_and, forall_eq]
    tauto

/-- A key has a last entry when it has an entry. -/
theorem exists_lastEntry_iff : (∃ value, LastEntry ls key value) ↔ ∃ l ∈ ls, ∃ value, Entry l key value := by
  induction ls using List.reverseRecOn with
  | nil =>
    refine ⟨?_, by simp⟩
    rintro ⟨_, before, l, after, same, -⟩
    exact (List.append_ne_nil_of_right_ne_nil before (List.cons_ne_nil l after) same.symm).elim
  | append_singleton ls line ih =>
    simp only [lastEntry_concat, List.mem_append, List.mem_singleton]
    constructor
    · rintro ⟨value, entry | ⟨-, entry⟩⟩
      · exact ⟨line, .inr rfl, value, entry⟩
      · obtain ⟨l, mem, more⟩ := ih.1 ⟨value, entry⟩
        exact ⟨l, .inl mem, more⟩
    · rintro ⟨l, mem, value, entry⟩
      by_cases last : ∃ v, Entry line key v
      · exact last.imp fun _ => .inl
      · have none := not_exists.1 last
        rcases mem with mem | rfl
        · obtain ⟨value, entry⟩ := ih.2 ⟨l, mem, value, entry⟩
          exact ⟨value, .inr ⟨none, entry⟩⟩
        · exact (none value entry).elim

theorem LastEntry.unique {value' : Bytes} (h : LastEntry ls key value) (h' : LastEntry ls key value') :
    value = value' := by
  induction ls using List.reverseRecOn with
  | nil => obtain ⟨before, l, after, same, -⟩ := h; simp at same
  | append_singleton ls line ih =>
    rcases lastEntry_concat.1 h with entry | ⟨none, before⟩ <;>
      rcases lastEntry_concat.1 h' with entry' | ⟨none', before'⟩
    · exact (entry.unique entry').2
    · exact (none' _ entry).elim
    · exact (none _ entry').elim
    · exact ih before before'

/-- The map of a well-formed file: each key has the value of its last entry. -/
theorem loads (well : WellFormed ls) : ∃ cfg, ls.foldlM addLine {} = .ok cfg ∧
    ∀ key value, cfg.values.lookup key = some value ↔ LastEntry ls key value := by
  induction ls using List.reverseRecOn with
  | nil =>
    refine ⟨{}, rfl, fun key value => ⟨fun h => ?_, ?_⟩⟩
    · simp at h
    · rintro ⟨before, l, after, same, -⟩
      simp at same
  | append_singleton ls line ih =>
    obtain ⟨cfg, run, map⟩ := ih fun l mem => well l (by simp [mem])
    have step : (ls ++ [line]).foldlM addLine {} = addLine cfg line := by
      rw [List.foldlM_append, run]
      simp
    by_cases skip : ∀ s, ¬ EntryText line s
    · refine ⟨cfg, step.trans (addLine_skip skip), fun key value => ?_⟩
      have none : ∀ key v, ¬ Entry line key v := fun key v entry => entry.text.elim skip
      rw [map, lastEntry_concat]
      simp [none]
    · obtain ⟨s, text⟩ := not_forall_not.1 skip
      have complete := well line (by simp) s text
      obtain ⟨k, v, entry⟩ := complete.entry text
      refine ⟨_, step.trans (addLine_entry text complete entry), fun key value => ?_⟩
      rw [lastEntry_concat]
      by_cases same : key = k
      · subst same
        rw [Finmap.lookup_insert, Option.some_inj]
        exact ⟨fun e => .inl (e ▸ entry), fun h => h.elim (fun e => (entry.unique e).2) fun h => (h.1 v entry).elim⟩
      · rw [Finmap.lookup_insert_of_ne _ same, map]
        have none : ∀ v, ¬ Entry line key v := fun v other => same (other.unique entry).1
        simp [none]

/-- One incomplete entry line anywhere ends the loading out of range. -/
theorem loads_fault (bad : ¬ WellFormed ls) (cfg : Dconfig) : ls.foldlM addLine cfg = .error ⟨1, 1⟩ := by
  induction ls generalizing cfg with
  | nil => exact (bad (by simp [WellFormed])).elim
  | cons line ls ih =>
    rw [List.foldlM_cons]
    by_cases here : ∀ s, EntryText line s → Complete s
    · have later : ¬ WellFormed ls := fun well => bad (by
        intro l mem
        rcases List.mem_cons.1 mem with rfl | mem
        · exact here
        · exact well l mem)
      have next : ∃ cfg', addLine cfg line = .ok cfg' := by
        by_cases skip : ∀ s, ¬ EntryText line s
        · exact ⟨cfg, addLine_skip skip⟩
        · obtain ⟨s, text⟩ := not_forall_not.1 skip
          obtain ⟨k, v, entry⟩ := (here s text).entry text
          exact ⟨_, addLine_entry text (here s text) entry⟩
      obtain ⟨cfg', next⟩ := next
      rw [next, ok_bind]
      exact ih later cfg'
    · obtain ⟨s, text, incomplete⟩ : ∃ s, EntryText line s ∧ ¬ Complete s := by simpa using here
      rw [addLine_fault text incomplete]
      rfl

end Lines

end Daemonpp
