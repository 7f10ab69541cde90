import Daemonpp.Config.Layout

/-!
# What files can say

Putting one file behind another overrides its map (`fromFile_append`), whatever the
two files are: `from_file` takes concatenation to the union of maps, and rejects the
whole when it rejects a part. So a map is put together from one-line files, and the
maps that some file stands for are found (`expressible_iff`): those whose keys and
values the line grammar can spell. Neither an empty key nor an empty value is
excluded, but a value with an `=` is.
-/

namespace Daemonpp

/-- What two files one behind the other say: the second one overrides the first. -/
def Dconfig.override (first second : Dconfig) : Dconfig := ⟨second.values ∪ first.values⟩

section Append

variable {a b key value : Bytes}

theorem lines_append (a b : Bytes) : lines (a ++ newline :: b) = lines a ++ lines b :=
  List.splitOn_append_cons_self a b

/-- **Concatenation is override**: a file behind a newline behind another one. -/
theorem fromFile_append (filename a b : Bytes) : fromFile filename (.ofContent (a ++ newline :: b)) = do
    let first ← fromFile filename (.ofContent a)
    let second ← fromFile filename (.ofContent b)
    return first.override second := by
  by_cases named : filename = []
  · subst named
    rfl
  by_cases wellA : WellFormed (lines a)
  · obtain ⟨first, loadsA, mapA⟩ := fromFile_loads named wellA
    rw [loadsA]
    by_cases wellB : WellFormed (lines b)
    · obtain ⟨second, loadsB, mapB⟩ := fromFile_loads named wellB
      have well : WellFormed (lines (a ++ newline :: b)) := by
        rw [lines_append]
        exact wellFormed_append.2 ⟨wellA, wellB⟩
      obtain ⟨both, loads, map⟩ := fromFile_loads named well
      rw [loadsB, loads]
      refine congrArg Except.ok (congrArg Dconfig.mk ?_)
      refine Finmap.ext_lookup fun key => Option.ext fun value => ?_
      -- the last entry of a key is the second file's, if it has one
      have absent : key ∉ second.values ↔ ∀ l ∈ lines b, ∀ v, ¬ Entry l key v := by
        rw [Dconfig.mem_iff_entry mapB]
        simp only [not_exists, not_and]
      calc both.values.lookup key = some value
        _ ↔ LastEntry (lines a ++ lines b) key value := by rw [map, lines_append]
        _ ↔ LastEntry (lines b) key value ∨ (∀ l ∈ lines b, ∀ v, ¬ Entry l key v) ∧
            LastEntry (lines a) key value := lastEntry_append
        _ ↔ (second.values ∪ first.values).lookup key = some value := by
          rw [Finmap.mem_lookup_union', Option.mem_def, Option.mem_def, mapA, mapB, absent]
    · have bad : ¬ WellFormed (lines (a ++ newline :: b)) := by
        rw [lines_append, wellFormed_append]
        exact fun well => wellB well.2
      rw [fromFile_fault named wellB, fromFile_fault named bad]
      rfl
  · have bad : ¬ WellFormed (lines (a ++ newline :: b)) := by
      rw [lines_append, wellFormed_append]
      exact fun well => wellA well.1
    rw [fromFile_fault named wellA, fromFile_fault named bad]
    rfl

end Append

/-! ## The maps that files stand for -/

/-- Text that stands on a line, between two `=` or the line's ends. -/
structure Spelled (s : Bytes) : Prop where
  tight : Lib.Tight isspace s
  oneLine : newline ∉ s
  plain : equals ∉ s

/-- A key and a value that a line can spell: the key does not begin a comment. -/
structure Assignable (key value : Bytes) : Prop where
  spelledKey : Spelled key
  noComment : key.head? ≠ some hash
  spelledValue : Spelled value

/-- What stands behind the first `=` of an assignment: an empty value is the blank between two. -/
def spelling (value : Bytes) : Bytes := if value = [] then bytes " =" else value

/-- A line that assigns the value. -/
def assignment (key value : Bytes) : Bytes := key ++ equals :: spelling value

section Lines

variable {line key value : Bytes}

/-- What is left of a part of a line without an `=`, less the blanks around it. -/
theorem spelled_of_stripped {part s : Bytes} (stripped : Lib.Stripped isspace part s) (plain : equals ∉ part)
    (inside : part ⊆ line) (oneLine : newline ∉ line) : Spelled s where
  tight := stripped.tight
  oneLine mem := oneLine (inside (Lib.mem_of_mem_strip (stripped.eq ▸ mem)))
  plain mem := plain (Lib.mem_of_mem_strip (stripped.eq ▸ mem))

/-- What a line assigns is assignable. -/
theorem Entry.assignable (entry : Entry line key value) (oneLine : newline ∉ line) : Assignable key value := by
  obtain @⟨k, rest, v, text, first, upto, hk, hv⟩ := entry
  obtain ⟨before, after, same, -, -⟩ := text.stripped.around
  have inside : k ++ equals :: rest ⊆ line := by
    rw [same]
    exact List.subset_append_of_subset_left _ (List.subset_append_right before _)
  have keyInside : k ⊆ line := fun x mem => inside (List.mem_append_left _ mem)
  have valueInside : v ⊆ line := fun x mem =>
    inside (List.mem_append_right k (List.mem_cons_of_mem equals (upto.subset mem)))
  refine ⟨spelled_of_stripped hk first keyInside oneLine, ?_, spelled_of_stripped hv upto.clean valueInside oneLine⟩
  intro comment
  by_cases empty : k = []
  · subst empty
    rw [hk.eq] at comment
    cases comment
  · -- the line begins with the key
    have front : ∀ x ∈ k.head?, (k ++ equals :: rest).head? = some x := fun x mem => by
      rw [List.head?_append_of_ne_nil k empty]
      exact mem
    have clean : k.dropWhile isspace = k := Lib.dropWhile_of_head fun x mem => text.stripped.tight.head x (front x mem)
    rw [hk.eq, Lib.strip, clean] at comment
    exact text.noComment (front hash (Lib.head?_rdropWhile comment))

theorem spelling_ne_nil (value : Bytes) : spelling value ≠ [] := by
  unfold spelling
  split
  · decide
  · assumption

theorem spelling_last (h : Spelled value) : ∀ x ∈ (spelling value).getLast?, isspace x = false := by
  unfold spelling
  split
  · rw [show (bytes " =").getLast? = some equals from rfl]
    rintro x ⟨⟩
    rfl
  · exact h.tight.last

theorem spelling_oneLine (h : Spelled value) : newline ∉ spelling value := by
  unfold spelling
  split
  · decide
  · exact h.oneLine

/-- The value is the stripped text in front of the next `=`. -/
theorem spelling_value (h : Spelled value) :
    ∃ v, Lib.Upto equals (spelling value) v ∧ Lib.Stripped isspace v value := by
  unfold spelling
  split
  · rename_i empty
    subst empty
    exact ⟨bytes " ", ⟨by decide, .inr ⟨[], by decide⟩⟩, Lib.stripped_iff.2 (by decide)⟩
  · exact ⟨value, ⟨h.plain, .inl rfl⟩, Lib.stripped_iff.2 (Lib.strip_of_tight h.tight).symm⟩

/-- An assignment has no blanks around it and is no comment. -/
theorem entryText_assignment (h : Assignable key value) : EntryText (assignment key value) (assignment key value) := by
  have last : ∀ x ∈ (equals :: spelling value).getLast?, isspace x = false := by
    rw [List.getLast?_cons_of_ne_nil (spelling_ne_nil value)]
    exact spelling_last h.spelledValue
  have blank : isspace equals = false := by decide
  have comment : some equals ≠ some hash := by decide
  unfold assignment
  refine ⟨Lib.stripped_iff.2 (Lib.strip_of_tight ?_).symm, by simp, ?_⟩
  all_goals by_cases empty : key = []
  · rw [empty]
    exact ⟨by simp [blank], last⟩
  · exact Lib.Tight.append h.spelledKey.tight.head empty last (List.cons_ne_nil _ _)
  · rw [empty]
    exact comment
  · rw [List.head?_append_of_ne_nil key empty]
    exact h.noComment

theorem entry_assignment (h : Assignable key value) : Entry (assignment key value) key value := by
  obtain ⟨v, upto, stripped⟩ := spelling_value h.spelledValue
  exact ⟨entryText_assignment h, h.spelledKey.plain, upto,
    Lib.stripped_iff.2 (Lib.strip_of_tight h.spelledKey.tight).symm, stripped⟩

theorem lines_assignment (h : Assignable key value) : lines (assignment key value) = [assignment key value] := by
  refine List.splitOn_eq_singleton ?_
  have apart : newline ≠ equals := by decide
  simp [assignment, h.spelledKey.oneLine, spelling_oneLine h.spelledValue, apart]

theorem wellFormed_assignment (h : Assignable key value) : WellFormed [assignment key value] := by
  intro line mem s text
  rw [List.mem_singleton.1 mem] at text
  obtain rfl := text.eq_trim.trans (entryText_assignment h).eq_trim.symm
  exact ⟨key, spelling value, rfl, h.spelledKey.plain, spelling_ne_nil value⟩

end Lines

/-- A file of one assignment. -/
theorem fromFile_assignment {filename key value : Bytes} (named : filename ≠ []) (h : Assignable key value) :
    fromFile filename (.ofContent (assignment key value)) = .ok ⟨Finmap.singleton key value⟩ := by
  have entry := entry_assignment h
  have only := lines_assignment h
  obtain ⟨cfg, loads, map⟩ := fromFile_loads named (only ▸ wellFormed_assignment h)
  rw [loads]
  refine congrArg Except.ok (congrArg Dconfig.mk ?_)
  refine Finmap.ext_lookup fun key' => Option.ext fun value' => ?_
  rw [map, only, lastEntry_singleton]
  by_cases same : key' = key
  · subst same
    rw [Finmap.lookup_singleton_eq]
    constructor
    · intro entry'
      rw [(entry.unique entry').2]
    · rintro ⟨⟩
      exact entry
  · have absent : key' ∉ Finmap.singleton (β := fun _ => Bytes) key value := by simpa using same
    rw [Finmap.lookup_eq_none.2 absent]
    constructor
    · intro entry'
      exact absurd (entry'.unique entry).1 same
    · rintro ⟨⟩

/-- **What a file can say**: a map is that of some file if, and only if, each key and value can be
spelled on a line. -/
theorem expressible_iff {filename : Bytes} (named : filename ≠ []) (values : Finmap fun _ : Bytes => Bytes) :
    (∃ content, fromFile filename (.ofContent content) = .ok ⟨values⟩) ↔
      ∀ key value, values.lookup key = some value → Assignable key value := by
  constructor
  · rintro ⟨content, run⟩ key value found
    have well : WellFormed (lines content) := by
      by_contra bad
      cases (fromFile_fault named bad).symm.trans run
    obtain ⟨cfg, loads, map⟩ := fromFile_loads named well
    cases loads.symm.trans run
    obtain ⟨before, line, after, same, entry, -⟩ := (map key value).1 found
    exact entry.assignable (lines_oneLine content line (same ▸ List.mem_append_right _ List.mem_cons_self))
  · induction values using Finmap.induction_on with
    | H values =>
      induction values using AList.insertRec with
      | H0 =>
        exact fun _ => ⟨[], fromFile_eq named []⟩
      | IH key value values absent ih =>
        intro all
        have apart : ∀ key' value', values.toFinmap.lookup key' = some value' → key' ≠ key := by
          rintro key' value' found rfl
          exact absent ((Finmap.mem_iff (s := values.toFinmap)).2 ⟨value', found⟩)
        have first : Assignable key value := all key value (by simp)
        obtain ⟨content, loads⟩ := ih fun key' value' found =>
          all key' value' (by rwa [← Finmap.insert_toFinmap, Finmap.lookup_insert_of_ne _ (apart key' value' found)])
        refine ⟨content ++ newline :: assignment key value, ?_⟩
        rw [fromFile_append, loads, fromFile_assignment named first]
        refine congrArg Except.ok (congrArg Dconfig.mk ?_)
        calc Finmap.singleton key value ∪ values.toFinmap
          _ = (∅ ∪ values.toFinmap).insert key value := by rw [Finmap.insert_union]; rfl
          _ = (values.insert key value).toFinmap := by rw [Finmap.empty_union, Finmap.insert_toFinmap]

/-- An empty key with an empty value can be said; a value with an `=` in it cannot. -/
theorem expressible_samples :
    (∃ content, fromFile (bytes "my_daemon.conf") (.ofContent content) = .ok ⟨Finmap.singleton [] []⟩) ∧
    ¬ ∃ content, fromFile (bytes "my_daemon.conf") (.ofContent content) =
      .ok ⟨Finmap.singleton (bytes "description") (bytes "E=mc2")⟩ := by
  have empty : Spelled [] := ⟨Lib.Tight.nil, List.not_mem_nil, List.not_mem_nil⟩
  constructor
  · refine (expressible_iff (by decide) _).2 fun key value found => ?_
    obtain rfl : key = [] := by
      by_contra other
      rw [Finmap.lookup_eq_none.2 (by simpa using other)] at found
      cases found
    rw [Finmap.lookup_singleton_eq] at found
    cases found
    exact ⟨empty, by decide, empty⟩
  · intro said
    have spelled := (expressible_iff (by decide) _).1 said _ _ Finmap.lookup_singleton_eq
    exact spelled.spelledValue.plain (by decide)

end Daemonpp
