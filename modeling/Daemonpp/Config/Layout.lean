import Daemonpp.Config.Load
import Mathlib.Logic.Relation

/-!
# The layout of a configuration file

`Rewrite` lists the edits of the lines of a file that leave its settings alone:
blank lines and comments, whitespace at the ends of a line and around the first
`=`, carriage returns, the order of entries with different keys, and entries that
a later line overrides. `Edit` performs one of them anywhere in a content, or adds
or removes the final newline. However many are performed, `from_file` returns the
same map (`layout_irrelevant`): every edit leaves lines that `Agree` with the ones
before.
-/

namespace Daemonpp

/-- The content with the given lines. -/
def text (ls : List Bytes) : Bytes := [newline].intercalate ls

/-- Whitespace inside a line. -/
def White (ws : Bytes) : Prop := ∀ ch ∈ ws, isspace ch = true ∧ ch ≠ newline

/-- `'\r'`. -/
def carriageReturn : Byte := 13

/-- The lines that are rewritten, and what they become. -/
inductive Rewrite : List Bytes → List Bytes → Prop where
  /-- A blank line or a comment. -/
  | insert {line : Bytes} (skip : ∀ s, ¬ EntryText line s) : Rewrite [] [line]
  | delete {line : Bytes} (skip : ∀ s, ¬ EntryText line s) : Rewrite [line] []
  /-- Whitespace at the start and at the end of a line. -/
  | ends {a b a' b' : Bytes} (line : Bytes) (ha : White a) (hb : White b) (ha' : White a') (hb' : White b') :
      Rewrite [a ++ line ++ b] [a' ++ line ++ b']
  /-- Whitespace on either side of the first `=` of an entry line. -/
  | around {k rest a b a' b' s : Bytes} (entry : EntryText (k ++ a ++ equals :: (b ++ rest)) s) (first : equals ∉ k)
      (ha : White a) (hb : White b) (ha' : White a') (hb' : White b') :
      Rewrite [k ++ a ++ equals :: (b ++ rest)] [k ++ a' ++ equals :: (b' ++ rest)]
  /-- The ending of a line that is not the last. -/
  | crlf (line next : Bytes) : Rewrite [line, next] [line ++ [carriageReturn], next]
  | lf (line next : Bytes) : Rewrite [line ++ [carriageReturn], next] [line, next]
  /-- Adjacent entries with different keys. -/
  | swap {line line' key value key' value' : Bytes} (entry : Entry line key value)
      (entry' : Entry line' key' value') (other : key ≠ key') : Rewrite [line, line'] [line', line]
  /-- An entry whose key occurs again on a later line. -/
  | drop {line key value : Bytes} {later : List Bytes} (entry : Entry line key value)
      (again : ∃ l ∈ later, ∃ v, Entry l key v) : Rewrite (line :: later) later

/-- An edit of a content. -/
inductive Edit : Bytes → Bytes → Prop where
  | rewrite {before ls ls' after : List Bytes} (rewrite : Rewrite ls ls')
      (oneLine : ∀ line ∈ before ++ ls ++ after, newline ∉ line)
      (oneLine' : ∀ line ∈ ls', newline ∉ line) :
      Edit (text (before ++ ls ++ after)) (text (before ++ ls' ++ after))
  | terminate (content : Bytes) : Edit content (content ++ [newline])
  | unterminate (content : Bytes) : Edit (content ++ [newline]) content

/-! ## Lines that say the same -/

/-- The second list of lines is well formed if the first is, and assigns the same. -/
structure Agree (ls ls' : List Bytes) : Prop where
  wellFormed : WellFormed ls → WellFormed ls'
  last : ∀ key value, LastEntry ls key value ↔ LastEntry ls' key value

section Agree

variable {ls ls' : List Bytes} {line line' key value : Bytes}

theorem Agree.rfl : Agree ls ls := ⟨id, fun _ _ => Iff.rfl⟩

theorem Agree.trans {ls'' : List Bytes} (h : Agree ls ls') (h' : Agree ls' ls'') : Agree ls ls'' :=
  ⟨h'.wellFormed ∘ h.wellFormed, fun key value => (h.last key value).trans (h'.last key value)⟩

/-- Lines that agree assign the same keys. -/
theorem Agree.assigns (h : Agree ls ls') (key : Bytes) :
    (∃ l ∈ ls, ∃ v, Entry l key v) ↔ ∃ l ∈ ls', ∃ v, Entry l key v := by
  rw [← exists_lastEntry_iff, ← exists_lastEntry_iff]
  exact exists_congr fun value => h.last key value

theorem wellFormed_append : WellFormed (ls ++ ls') ↔ WellFormed ls ∧ WellFormed ls' := by
  simp [WellFormed, or_imp, forall_and]

/-- Whatever is before and behind them. -/
theorem Agree.frame (h : Agree ls ls') (before after : List Bytes) :
    Agree (before ++ ls ++ after) (before ++ ls' ++ after) := by
  constructor
  · simp only [wellFormed_append]
    exact fun well => ⟨⟨well.1.1, h.wellFormed well.1.2⟩, well.2⟩
  · intro key value
    have none : (∀ l ∈ ls, ∀ v, ¬ Entry l key v) ↔ ∀ l ∈ ls', ∀ v, ¬ Entry l key v := by
      simpa using not_congr (h.assigns key)
    rw [lastEntry_append, lastEntry_append, lastEntry_append, lastEntry_append, h.last, none]

theorem lastEntry_singleton : LastEntry [line] key value ↔ Entry line key value := by
  have none : ¬ LastEntry [] key value := by
    rintro ⟨before, l, after, same, -⟩
    simp at same
  rw [← List.nil_append [line], lastEntry_concat]
  simp [none]

/-- A line that is no entry says nothing. -/
theorem agree_skip (skip : ∀ s, ¬ EntryText line s) : Agree [] [line] := by
  constructor
  · intro _ l mem s text
    exact (skip s (List.mem_singleton.1 mem ▸ text)).elim
  · intro key value
    have none : ∀ v, ¬ Entry line key v := fun v entry => entry.text.elim skip
    rw [← List.nil_append [line], lastEntry_concat]
    simp [none]

/-- One line for another that is an entry line when it is, complete when it is, and
assigns the same. -/
theorem agree_line (complete : (∀ s, EntryText line s → Complete s) → ∀ s, EntryText line' s → Complete s)
    (entry : ∀ key value, Entry line key value ↔ Entry line' key value) : Agree [line] [line'] := by
  constructor
  · intro well l mem
    obtain rfl := List.mem_singleton.1 mem
    exact complete (well line (List.mem_singleton_self line))
  · intro key value
    rw [lastEntry_singleton, lastEntry_singleton]
    exact entry key value

theorem EntryText.congr {s : Bytes} (same : trim line = trim line') (h : EntryText line s) : EntryText line' s :=
  ⟨Lib.stripped_iff.2 (h.eq_trim.trans same), h.nonempty, h.noComment⟩

theorem Entry.congr (same : trim line = trim line') (h : Entry line key value) : Entry line' key value := by
  obtain ⟨text, first, upto, hk, hv⟩ := h
  exact ⟨text.congr same, first, upto, hk, hv⟩

/-- What is around the text of a line makes no difference. -/
theorem agree_trim (same : trim line = trim line') : Agree [line] [line'] :=
  agree_line (fun complete s text => complete s (text.congr same.symm))
    fun _ _ => ⟨fun entry => entry.congr same, fun entry => entry.congr same.symm⟩

end Agree

/-! ## Every edit keeps the settings -/

section Edits

variable {ls ls' : List Bytes} {f g : Bytes}

theorem White.space {ws : Bytes} (h : White ws) : ∀ ch ∈ ws, isspace ch = true := fun ch mem => (h ch mem).1

theorem White.equals_notMem {ws : Bytes} (h : White ws) : equals ∉ ws :=
  fun mem => absurd (h.space equals mem) (by decide)

/-- Whitespace around a line. -/
theorem trim_ends {a b : Bytes} (line : Bytes) (ha : White a) (hb : White b) : trim (a ++ line ++ b) = trim line :=
  Lib.strip_append_of_all ha.space hb.space line

/-- Whitespace in front of the first `=` does not make a comment of a line, nor end one. -/
theorem comment_around {a : Bytes} (k : Bytes) (ha : White a) :
    ((k ++ a).dropWhile isspace).head? ≠ some hash ↔ (k.dropWhile isspace).head? ≠ some hash := by
  rw [List.dropWhile_append]
  split
  · rename_i all
    rw [List.isEmpty_iff.1 all, List.dropWhile_eq_nil_iff.2 ha.space]
  · rename_i some
    rw [List.head?_append_of_ne_nil _ (fun none => some (List.isEmpty_iff.2 none))]

/-- Whitespace behind the first `=` does not complete a line, nor leave it incomplete. -/
theorem complete_around {b : Bytes} (rest : Bytes) (hb : White b) :
    (b ++ rest).rdropWhile isspace ≠ [] ↔ rest.rdropWhile isspace ≠ [] := by
  refine not_congr ?_
  rw [List.rdropWhile_eq_nil_iff, List.rdropWhile_eq_nil_iff]
  simp only [List.mem_append, or_imp, forall_and]
  exact ⟨fun h => h.2, fun h => ⟨hb.space, h⟩⟩

/-- Whitespace behind the first `=` is not part of the value. -/
theorem value_around {b : Bytes} (rest value : Bytes) (hb : White b) :
    (∃ v, Lib.Upto equals (b ++ rest) v ∧ value = trim v) ↔ ∃ v, Lib.Upto equals rest v ∧ value = trim v := by
  obtain ⟨w, upto⟩ := Lib.exists_upto (d := equals) rest
  have same : trim (b ++ w) = trim w := by
    have around := trim_ends w hb (b := []) nofun
    rwa [List.append_nil] at around
  constructor
  · rintro ⟨v, upto', rfl⟩
    exact ⟨w, upto, by rw [upto'.unique (upto.append_left hb.equals_notMem), same]⟩
  · rintro ⟨v, upto', rfl⟩
    exact ⟨b ++ w, upto.append_left hb.equals_notMem, by rw [upto'.unique upto, same]⟩

/-- Whitespace around the first `=` of a line. -/
theorem agree_around {k rest a b a' b' : Bytes} (first : equals ∉ k) (ha : White a) (hb : White b)
    (ha' : White a') (hb' : White b') :
    Agree [k ++ a ++ equals :: (b ++ rest)] [k ++ a' ++ equals :: (b' ++ rest)] := by
  have clean : equals ∉ k ++ a := by simp [first, ha.equals_notMem]
  have clean' : equals ∉ k ++ a' := by simp [first, ha'.equals_notMem]
  have key (a : Bytes) (white : White a) : trim (k ++ a) = trim k := trim_ends (a := []) k nofun white
  refine agree_line ?_ ?_
  · intro complete s' text'
    obtain ⟨rfl, other⟩ := entryText_equals.1 text'
    have text : EntryText (k ++ a ++ equals :: (b ++ rest)) _ :=
      entryText_equals.2 ⟨rfl, (comment_around k ha).2 ((comment_around k ha').1 other)⟩
    have more := (complete_equals clean).1 (complete _ text)
    exact (complete_equals clean').2 ((complete_around rest hb').2 ((complete_around rest hb).1 more))
  · intro key' value
    rw [entry_equals clean, entry_equals clean', comment_around k ha, comment_around k ha', key a ha, key a' ha',
      value_around rest value hb, value_around rest value hb']

/-- Two entries with different keys. -/
theorem agree_swap {line line' key value key' value' : Bytes} (entry : Entry line key value)
    (entry' : Entry line' key' value') (other : key ≠ key') : Agree [line, line'] [line', line] := by
  constructor
  · intro well l mem
    exact well l (by simpa [or_comm] using mem)
  · intro k v
    have split : ∀ a b : Bytes, LastEntry [a, b] k v ↔ Entry b k v ∨ (∀ v, ¬ Entry b k v) ∧ Entry a k v := by
      intro a b
      rw [← @lastEntry_singleton a k v]
      exact @lastEntry_concat [a] b k v
    rw [split, split]
    -- at most one of the lines assigns `k`
    by_cases here : k = key
    · have none : ∀ v, ¬ Entry line' k v := fun v also => other (here.symm.trans (also.unique entry').1)
      simp [none]
    · have none : ∀ v, ¬ Entry line k v := fun v also => here (also.unique entry).1
      simp [none]

/-- An entry that a later line overrides. -/
theorem agree_drop {line key value : Bytes} {later : List Bytes} (entry : Entry line key value)
    (again : ∃ l ∈ later, ∃ v, Entry l key v) : Agree (line :: later) later := by
  constructor
  · exact fun well l mem => well l (List.mem_cons_of_mem line mem)
  · intro k v
    rw [← List.singleton_append, lastEntry_append, lastEntry_singleton, or_iff_left_iff_imp]
    rintro ⟨none, also⟩
    obtain ⟨rfl, -⟩ := also.unique entry
    obtain ⟨l, mem, v, entry'⟩ := again
    exact (none l mem v entry').elim

/-- **Every rewrite keeps the settings.** -/
theorem Rewrite.agree (h : Rewrite ls ls') : Agree ls ls' := by
  have crlf : ∀ line, Agree [line] [line ++ [carriageReturn]] ∧ Agree [line ++ [carriageReturn]] [line] := by
    intro line
    have white : White [carriageReturn] := by
      intro ch mem
      rw [List.mem_singleton.1 mem]
      decide
    have same : trim (line ++ [carriageReturn]) = trim line := trim_ends (a := []) line nofun white
    exact ⟨agree_trim same.symm, agree_trim same⟩
  cases h with
  | insert skip => exact agree_skip skip
  | delete skip =>
    refine ⟨fun _ => by simp [WellFormed], fun key value => ?_⟩
    exact ((agree_skip skip).last key value).symm
  | ends line ha hb ha' hb' => exact agree_trim ((trim_ends line ha hb).trans (trim_ends line ha' hb').symm)
  | around _ first ha hb ha' hb' => exact agree_around first ha hb ha' hb'
  | crlf line next => exact (crlf line).1.frame [] [next]
  | lf line next => exact (crlf line).2.frame [] [next]
  | swap entry entry' other => exact agree_swap entry entry' other
  | drop entry again => exact agree_drop entry again

/-- The lines of the content made of given lines. -/
theorem agree_lines_text (oneLine : ∀ line ∈ ls, newline ∉ line) :
    Agree (lines (text ls)) ls ∧ Agree ls (lines (text ls)) := by
  by_cases some : ls = []
  · subst some
    have blank : Agree [] [[]] := agree_skip not_entryText_nil
    exact ⟨⟨fun _ => by simp [WellFormed], fun key value => (blank.last key value).symm⟩, blank⟩
  · have same : lines (text ls) = ls := List.splitOn_intercalate newline oneLine some
    rw [same]
    exact ⟨.rfl, .rfl⟩

theorem lines_oneLine (content : Bytes) : ∀ line ∈ lines content, newline ∉ line := by
  intro line mem
  rcases Lib.splitOn_eq_fields (d := newline) content with same | same <;> rw [lines, same] at mem
  · exact Lib.notMem_of_mem_fields mem
  · rcases List.mem_append.1 mem with mem | mem
    · exact Lib.notMem_of_mem_fields mem
    · rw [List.mem_singleton.1 mem]
      exact List.not_mem_nil

theorem text_concat (some : ls ≠ []) (line : Bytes) : text (ls ++ [line]) = text ls ++ newline :: line := by
  induction ls with
  | nil => exact absurd rfl some
  | cons first ls ih =>
    by_cases more : ls = []
    · subst more
      simp [text]
    · have ih := ih more
      obtain ⟨second, rest, rfl⟩ := List.exists_cons_of_ne_nil more
      unfold text at ih ⊢
      rw [List.cons_append, List.cons_append, List.intercalate_cons_cons, ← List.cons_append, ih,
        List.intercalate_cons_cons, List.append_assoc, List.append_assoc, List.append_assoc]

/-- The final newline adds a blank line. -/
theorem lines_terminate (content : Bytes) : lines (content ++ [newline]) = lines content ++ [[]] := by
  have whole : content = text (lines content) := (List.intercalate_splitOn newline).symm
  have some : lines content ≠ [] := List.splitOn_ne_nil newline content
  have longer : content ++ [newline] = text (lines content ++ [[]]) := by
    rw [text_concat some, ← whole]
  rw [longer]
  refine List.splitOn_intercalate newline ?_ (by simp)
  intro line mem
  rcases List.mem_append.1 mem with mem | mem
  · exact lines_oneLine content line mem
  · rw [List.mem_singleton.1 mem]
    exact List.not_mem_nil

/-- **Every edit keeps the settings.** -/
theorem Edit.agree (h : Edit f g) : Agree (lines f) (lines g) := by
  have blank : ∀ content, Agree (lines content) (lines (content ++ [newline])) ∧
      Agree (lines (content ++ [newline])) (lines content) := by
    intro content
    have skip := (Rewrite.insert not_entryText_nil).agree.frame (lines content) []
    have back := (Rewrite.delete not_entryText_nil).agree.frame (lines content) []
    simp only [List.append_nil] at skip back
    rw [lines_terminate]
    exact ⟨skip, back⟩
  cases h with
  | @rewrite before ls ls' after rewrite oneLine oneLine' =>
    have oneLine'' : ∀ line ∈ before ++ ls' ++ after, newline ∉ line := by
      simp only [List.mem_append, or_imp, forall_and] at oneLine ⊢
      exact ⟨⟨oneLine.1.1, oneLine'⟩, oneLine.2⟩
    exact ((agree_lines_text oneLine).1.trans (rewrite.agree.frame before after)).trans (agree_lines_text oneLine'').2
  | terminate => exact (blank _).1
  | unterminate => exact (blank _).2

/-- **The layout of a file does not matter**: after any number of edits of a well-formed
file, `from_file` returns the same map. -/
theorem layout_irrelevant (filename : Bytes) (well : WellFormed (lines f)) (edits : Relation.ReflTransGen Edit f g) :
    ∃ cfg, fromFile filename (.ofContent f) = .ok cfg ∧ fromFile filename (.ofContent g) = .ok cfg := by
  have agree : Agree (lines f) (lines g) := by
    induction edits with
    | refl => exact .rfl
    | tail _ edit ih => exact ih.trans edit.agree
  by_cases named : filename = []
  · subst named
    exact ⟨{}, rfl, rfl⟩
  · obtain ⟨cfg, run, map⟩ := fromFile_loads named well
    obtain ⟨cfg', run', map'⟩ := fromFile_loads named (agree.wellFormed well)
    have same : cfg = cfg' := by
      cases cfg
      cases cfg'
      congr
      refine Finmap.ext_lookup fun key => Option.ext fun value => ?_
      rw [map, map']
      exact agree.last key value
    exact ⟨cfg, run, same ▸ run'⟩

end Edits

/-- `sampleConf` without its comment and the entry that is overridden, and with a final newline. -/
def compactConf : Bytes := bytes "\nlevel=\t3\nname=b=c\n"

theorem layout_irrelevant_sample : WellFormed (lines sampleConf) ∧ Relation.ReflTransGen Edit sampleConf compactConf ∧
    ∃ cfg, fromFile (bytes "my_daemon.conf") (.ofContent sampleConf) = .ok cfg ∧
      fromFile (bytes "my_daemon.conf") (.ofContent compactConf) = .ok cfg := by
  have well : WellFormed (lines sampleConf) := by decide
  have comment : ∀ s, ¬ EntryText (bytes "# settings") s := fun s text =>
    text.noComment (by rw [text.eq_trim]; decide)
  have uncommented : Edit sampleConf (bytes "\n name = a\r\nlevel=\t3\nname=b=c") :=
    @Edit.rewrite [] [bytes "# settings"] [] [[], bytes " name = a\r", bytes "level=\t3", bytes "name=b=c"]
      (.delete comment) (by decide) (by decide)
  have overridden : Entry (bytes " name = a\r") (bytes "name") (bytes "a") :=
    (@entry_equals (bytes " name ") (bytes " a\r") _ _ (by decide)).2
      ⟨by decide, by decide, bytes " a\r", ⟨by decide, .inl rfl⟩, by decide⟩
  have again : Entry (bytes "name=b=c") (bytes "name") (bytes "b") :=
    (@entry_equals (bytes "name") (bytes "b=c") _ _ (by decide)).2
      ⟨by decide, by decide, bytes "b", ⟨by decide, .inr ⟨bytes "c", by decide⟩⟩, by decide⟩
  have dropped : Edit (bytes "\n name = a\r\nlevel=\t3\nname=b=c") (bytes "\nlevel=\t3\nname=b=c") :=
    @Edit.rewrite [[]] [bytes " name = a\r", bytes "level=\t3", bytes "name=b=c"]
      [bytes "level=\t3", bytes "name=b=c"] [] (.drop overridden ⟨_, by simp, _, again⟩) (by decide) (by decide)
  have edits : Relation.ReflTransGen Edit sampleConf compactConf :=
    ((Relation.ReflTransGen.single uncommented).tail dropped).tail (.terminate _)
  exact ⟨well, edits, layout_irrelevant (bytes "my_daemon.conf") well edits⟩

end Daemonpp
