import Daemonpp.Config.Load

/-!
# Writing settings and loading them back

A `Setting` is a key and a value that the `key=value` format can carry on a line
of its own. `writeConf` writes settings one per line, as the configuration
template does, and `roundTrips_iff` says which of them `from_file` reads back:
those whose values are non-empty and contain no `=`. An empty value ends its line
in the `=` and is out of range; a value with an `=` is cut there.
-/

namespace Daemonpp

/-- A pair that fits on a line `key=value`. -/
structure Setting where
  key : Bytes
  value : Bytes
  key_nonempty : key ≠ [] := by decide
  key_tight : Lib.Tight isspace key := by decide
  key_oneLine : newline ∉ key := by decide
  key_plain : equals ∉ key := by decide
  key_noComment : key.head? ≠ some hash := by decide
  value_tight : Lib.Tight isspace value := by decide
  value_oneLine : newline ∉ value := by decide

/-- The line of a setting. -/
def Setting.line (s : Setting) : Bytes := s.key ++ equals :: s.value

/-- The settings, one per line; `terminated` when the last line has its newline. -/
def writeConf (terminated : Bool) (settings : List Setting) : Bytes :=
  if terminated then settings.flatMap fun s => s.line ++ [newline]
  else [newline].intercalate (settings.map Setting.line)

/-- Loading what was written gives back exactly the settings. -/
def RoundTrips (filename : Bytes) (terminated : Bool) (settings : List Setting) : Prop :=
  ∃ cfg, fromFile filename (.ofContent (writeConf terminated settings)) = .ok cfg ∧
    (∀ s ∈ settings, cfg.get s.key = s.value) ∧ ∀ key, key ∈ cfg.values ↔ ∃ s ∈ settings, s.key = key

namespace Setting

variable (s : Setting)

theorem line_ne_nil : s.line ≠ [] := by simp [line]

theorem newline_notMem_line : newline ∉ s.line := by
  have : newline ≠ equals := by decide
  simp [line, s.key_oneLine, s.value_oneLine, this]

/-- Neither end of the line is whitespace, also when the value is empty. -/
theorem line_tight : Lib.Tight isspace s.line := by
  refine Lib.Tight.append s.key_tight.head s.key_nonempty ?_ (List.cons_ne_nil _ _)
  intro ch last
  by_cases empty : s.value = []
  · rw [empty] at last
    cases last
    decide
  · rw [List.getLast?_cons_of_ne_nil empty] at last
    exact s.value_tight.last ch last

theorem entryText : EntryText s.line s.line where
  stripped := Lib.stripped_iff.2 (Lib.strip_of_tight s.line_tight).symm
  nonempty := s.line_ne_nil
  noComment := by rw [line, List.head?_append_of_ne_nil _ s.key_nonempty]; exact s.key_noComment

theorem complete_iff : Complete s.line ↔ s.value ≠ [] := by
  constructor
  · rintro ⟨k, rest, same, first, more⟩
    exact (Lib.first_delim_unique s.key_plain first same).2 ▸ more
  · exact fun more => ⟨s.key, s.value, rfl, s.key_plain, more⟩

/-- The line assigns its key the value up to an `=`. -/
theorem entry_iff {key value : Bytes} : Entry s.line key value ↔
    key = s.key ∧ ∃ part, Lib.Upto equals s.value part ∧ Lib.Stripped isspace part value := by
  have trimmed : Lib.strip isspace s.key = s.key := Lib.strip_of_tight s.key_tight
  constructor
  · rintro @⟨k, rest, v, text, first, upto, hk, hv⟩
    obtain ⟨rfl, rfl⟩ := Lib.first_delim_unique first s.key_plain (text.eq_trim.trans s.entryText.eq_trim.symm)
    exact ⟨hk.eq.trans trimmed, v, upto, hv⟩
  · rintro ⟨rfl, part, upto, hv⟩
    exact ⟨s.entryText, s.key_plain, upto, Lib.stripped_iff.2 trimmed.symm, hv⟩

/-- The line gives its key its value exactly when the value has no `=`. -/
theorem entry_self_iff : Entry s.line s.key s.value ↔ equals ∉ s.value := by
  rw [s.entry_iff]
  constructor
  · rintro ⟨-, part, upto, hv⟩ mem
    exact upto.clean (Lib.mem_of_mem_strip (hv.eq ▸ mem))
  · intro plain
    exact ⟨rfl, s.value, ⟨plain, .inl rfl⟩, Lib.stripped_iff.2 (Lib.strip_of_tight s.value_tight).symm⟩

end Setting

section Write

variable {settings : List Setting} {terminated : Bool}

/-- The written file's lines are the settings' lines. -/
theorem fields_writeConf (terminated : Bool) (settings : List Setting) :
    Lib.fields newline (writeConf terminated settings) = settings.map Setting.line := by
  cases terminated with
  | true =>
    simp only [writeConf, if_true]
    induction settings with
    | nil => rfl
    | cons s settings ih =>
      rw [List.flatMap_cons, List.append_assoc, List.map_cons]
      exact (Lib.fields_append_cons s.newline_notMem_line _).trans (congrArg _ ih)
  | false =>
    simp only [writeConf, Bool.false_eq_true, if_false]
    induction settings with
    | nil => rfl
    | cons s settings ih =>
      cases settings with
      | nil => simpa using Lib.fields_of_notMem s.newline_notMem_line s.line_ne_nil
      | cons s' settings =>
        rw [List.map_cons, List.map_cons, List.intercalate_cons_cons]
        rw [List.append_assoc]
        exact (Lib.fields_append_cons s.newline_notMem_line _).trans (congrArg _ ih)

theorem wellFormed_writeConf : WellFormed (lines (writeConf terminated settings)) ↔
    ∀ s ∈ settings, s.value ≠ [] := by
  rw [wellFormed_lines, fields_writeConf]
  constructor
  · intro well s mem
    exact s.complete_iff.1 (well s.line (List.mem_map_of_mem mem) _ s.entryText)
  · intro more line mem t text
    obtain ⟨s, inside, rfl⟩ := List.mem_map.1 mem
    have same : t = s.line := text.eq_trim.trans s.entryText.eq_trim.symm
    exact same ▸ s.complete_iff.2 (more s inside)

/-- With distinct keys, the last entry of a key is the one of its setting. -/
theorem lastEntry_writeConf (distinct : (settings.map Setting.key).Nodup) {s : Setting} (mem : s ∈ settings)
    {value : Bytes} : LastEntry (settings.map Setting.line) s.key value ↔ Entry s.line s.key value := by
  induction settings using List.reverseRecOn with
  | nil => simp at mem
  | append_singleton settings last ih =>
    rw [List.map_append, List.map_cons, List.map_nil, lastEntry_concat]
    rw [List.map_append, List.nodup_append] at distinct
    obtain ⟨distinct, -, apart⟩ := distinct
    rcases List.mem_append.1 mem with inside | here
    · have other : s.key ≠ last.key := apart s.key (List.mem_map_of_mem inside) last.key (by simp)
      have none : ∀ v, ¬ Entry last.line s.key v := fun v entry => other (last.entry_iff.1 entry).1
      simp only [none, not_false_eq_true, implies_true, true_and, false_or]
      exact ih distinct inside
    · obtain rfl := List.mem_singleton.1 here
      refine ⟨fun h => h.elim id fun h => ?_, .inl⟩
      obtain ⟨l, inside, v, entry⟩ := exists_lastEntry_iff.1 ⟨value, h.2⟩
      obtain ⟨s', before, rfl⟩ := List.mem_map.1 inside
      exact (apart s'.key (List.mem_map_of_mem before) s.key (by simp) (s'.entry_iff.1 entry).1.symm).elim

end Write

/-- The key `description` with an empty value: what the template writes when
`project()` gives no description. -/
def noDescription : Setting where
  key := bytes "description"
  value := []

/-- A description with an `=` in it. -/
def formula : Setting where
  key := bytes "description"
  value := bytes "E=mc2"

/-- A description with spaces and a `#` in it. -/
def sentence : Setting where
  key := bytes "description"
  value := bytes "A daemon, # of its kind: 1"

/-- What the template writes above the description. -/
def nameAndVersion : List Setting :=
  [{ key := bytes "name", value := bytes "my_daemon" }, { key := bytes "version", value := bytes "0.0.1" }]

/-- The file without a description is not read back: `parts[1]` is out of range. -/
theorem noDescription_lost : ¬ RoundTrips (bytes "my_daemon.conf") false [noDescription] := by
  rintro ⟨cfg, run, -⟩
  have fault : fromFile (bytes "my_daemon.conf") (.ofContent (writeConf false [noDescription])) = .error ⟨1, 1⟩ := rfl
  rw [fault] at run
  cases run

/-- **Which settings survive**: writing and loading gives back exactly the
settings when every value is non-empty and has no `=`, and only then. -/
theorem roundTrips_iff {filename : Bytes} (named : filename ≠ []) (terminated : Bool)
    {settings : List Setting} (distinct : (settings.map Setting.key).Nodup) :
    RoundTrips filename terminated settings ↔ ∀ s ∈ settings, s.value ≠ [] ∧ equals ∉ s.value := by
  have last : ∀ key value, LastEntry (lines (writeConf terminated settings)) key value ↔
      LastEntry (settings.map Setting.line) key value := by
    intro key value
    rw [lastEntry_lines, fields_writeConf]
  constructor
  · rintro ⟨cfg, run, get, -⟩ s mem
    -- the file was loaded, so every value is non-empty and `cfg` is the grammar's map
    have well : WellFormed (lines (writeConf terminated settings)) := by
      by_contra bad
      rw [fromFile_fault named bad] at run
      cases run
    obtain ⟨cfg', run', map⟩ := fromFile_loads named well
    cases run.symm.trans run'
    refine ⟨wellFormed_writeConf.1 well s mem, ?_⟩
    obtain ⟨v, upto⟩ := Lib.exists_upto (d := equals) s.value
    have entry : Entry s.line s.key (trim v) := s.entry_iff.2 ⟨rfl, v, upto, Lib.stripped_strip v⟩
    have value := Dconfig.get_of_lastEntry map ((last _ _).2 ((lastEntry_writeConf distinct mem).2 entry))
    rw [get s mem] at value
    exact s.entry_self_iff.1 (value ▸ entry)
  · intro plain
    obtain ⟨cfg, run, map⟩ := fromFile_loads named (wellFormed_writeConf.2 fun s mem => (plain s mem).1)
    refine ⟨cfg, run, fun s mem => ?_, fun key => ?_⟩
    · have entry := s.entry_self_iff.2 (plain s mem).2
      exact Dconfig.get_of_lastEntry map ((last _ _).2 ((lastEntry_writeConf distinct mem).2 entry))
    · rw [Finmap.mem_iff]
      simp only [map, last, exists_lastEntry_iff, List.mem_map]
      constructor
      · rintro ⟨l, ⟨s, mem, rfl⟩, value, entry⟩
        exact ⟨s, mem, (s.entry_iff.1 entry).1.symm⟩
      · rintro ⟨s, mem, rfl⟩
        exact ⟨s.line, ⟨s, mem, rfl⟩, s.value, s.entry_self_iff.2 (plain s mem).2⟩

/-- The template is read back with the one description, and with the other it is not. -/
theorem roundTrips_template : bytes "my_daemon.conf" ≠ [] ∧
    ((nameAndVersion ++ [sentence]).map Setting.key).Nodup ∧
    RoundTrips (bytes "my_daemon.conf") true (nameAndVersion ++ [sentence]) ∧
    ((nameAndVersion ++ [formula]).map Setting.key).Nodup ∧
    ¬ RoundTrips (bytes "my_daemon.conf") true (nameAndVersion ++ [formula]) := by
  have named : bytes "my_daemon.conf" ≠ [] := by decide
  have distinct : ((nameAndVersion ++ [sentence]).map Setting.key).Nodup := by decide
  have distinct' : ((nameAndVersion ++ [formula]).map Setting.key).Nodup := by decide
  refine ⟨named, distinct, (roundTrips_iff named true distinct).2 (by decide), distinct', fun trips => ?_⟩
  exact absurd ((roundTrips_iff named true distinct').1 trips) (by decide)

end Daemonpp
