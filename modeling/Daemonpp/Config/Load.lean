import Daemonpp.Config.Grammar

/-!
# Loading a configuration file

`from_file` on a readable file of any content. It stays inside its containers
exactly on the files whose entry lines are complete (`readsInRange_iff`): a line
such as `verbose` or `description=` splits into one part, and `parts[1]` is out
of range. On those files its map is the one the line grammar assigns
(`fromFile_meaning`).
-/

namespace Daemonpp

/-- No index that `from_file` uses on this file is out of range. -/
def ReadsInRange (filename content : Bytes) : Prop :=
  ∀ fault, fromFile filename (.ofContent content) ≠ .error fault

section Lines

variable {content key value : Bytes}

theorem not_entryText_nil (s : Bytes) : ¬ EntryText [] s := fun h => h.nonempty h.eq_trim

/-- The grammar's lines are those the loop visits, and perhaps a blank one. -/
theorem wellFormed_lines : WellFormed (lines content) ↔ WellFormed (Lib.fields newline content) := by
  rcases Lib.splitOn_eq_fields (d := newline) content with same | same <;> rw [lines, same]
  simp [WellFormed, or_imp, forall_and, not_entryText_nil]

theorem lastEntry_lines : LastEntry (lines content) key value ↔
    LastEntry (Lib.fields newline content) key value := by
  rcases Lib.splitOn_eq_fields (d := newline) content with same | same <;> rw [lines, same]
  have none : ∀ v, ¬ Entry [] key v := fun v entry => entry.text.elim not_entryText_nil
  rw [lastEntry_concat]
  simp [none]

end Lines

variable {filename content : Bytes}

/-- A well-formed file is loaded, and its map is the grammar's. -/
theorem fromFile_loads (named : filename ≠ []) (well : WellFormed (lines content)) :
    ∃ cfg, fromFile filename (.ofContent content) = .ok cfg ∧
      ∀ key value, cfg.values.lookup key = some value ↔ LastEntry (lines content) key value := by
  obtain ⟨cfg, run, map⟩ := loads (wellFormed_lines.1 well)
  exact ⟨cfg, (fromFile_eq named content).trans run, fun key value => (map key value).trans lastEntry_lines.symm⟩

/-- Any other file is read out of range, at `parts[1]`. -/
theorem fromFile_fault (named : filename ≠ []) (bad : ¬ WellFormed (lines content)) :
    fromFile filename (.ofContent content) = .error ⟨1, 1⟩ :=
  (fromFile_eq named content).trans (loads_fault (mt wellFormed_lines.2 bad) _)

/-- **Where the parser is safe**: on the files all of whose entry lines have
something behind their first `=`. -/
theorem readsInRange_iff (filename content : Bytes) :
    ReadsInRange filename content ↔ filename = [] ∨ WellFormed (lines content) := by
  by_cases named : filename = []
  · subst named
    simp [ReadsInRange, fromFile]
  · simp only [named, false_or]
    constructor
    · intro safe
      by_contra bad
      exact safe _ (fromFile_fault named bad)
    · intro well fault
      obtain ⟨cfg, run, -⟩ := fromFile_loads named well
      simp [run]

/-- The line the configuration template produces for a project without a description. -/
theorem description_out_of_range : ¬ ReadsInRange (bytes "my_daemon.conf") (bytes "description=") := by
  intro safe
  exact safe ⟨1, 1⟩ rfl

/-- A map that holds the last entries, read back by `get`. -/
theorem Dconfig.get_of_lastEntry {cfg : Dconfig} {ls : List Bytes}
    (map : ∀ key value, cfg.values.lookup key = some value ↔ LastEntry ls key value) {key value : Bytes}
    (last : LastEntry ls key value) : cfg.get key = value := by
  rw [Dconfig.get, (map key value).2 last]

theorem Dconfig.mem_iff_entry {cfg : Dconfig} {ls : List Bytes}
    (map : ∀ key value, cfg.values.lookup key = some value ↔ LastEntry ls key value) (key : Bytes) :
    key ∈ cfg.values ↔ ∃ line ∈ ls, ∃ value, Entry line key value := by
  rw [Finmap.mem_iff, ← exists_lastEntry_iff]
  exact exists_congr fun value => map key value

/-- A key that is not in the map reads as the empty string. -/
theorem Dconfig.get_of_notMem {cfg : Dconfig} {key : Bytes} (absent : key ∉ cfg.values) : cfg.get key = [] := by
  rw [Dconfig.get, Finmap.lookup_eq_none.2 absent]

/-- **The meaning of a well-formed file**: the keys are those of its entry
lines, each key has the value of its last one, and any other key reads as the
empty string. -/
theorem fromFile_meaning {filename content : Bytes} (named : filename ≠ [])
    (well : WellFormed (lines content)) :
    ∃ cfg, fromFile filename (.ofContent content) = .ok cfg ∧
      (∀ key, key ∈ cfg.values ↔ ∃ line ∈ lines content, ∃ value, Entry line key value) ∧
      (∀ key value, LastEntry (lines content) key value → cfg.get key = value) ∧
      ∀ key, (∀ line ∈ lines content, ∀ value, ¬ Entry line key value) → cfg.get key = [] := by
  obtain ⟨cfg, run, map⟩ := fromFile_loads named well
  have mem := Dconfig.mem_iff_entry map
  refine ⟨cfg, run, mem, fun key value => Dconfig.get_of_lastEntry map, fun key none => ?_⟩
  refine Dconfig.get_of_notMem fun present => ?_
  obtain ⟨line, inside, value, entry⟩ := (mem key).1 present
  exact none line inside value entry

/-- A file with a comment, a blank line, a repeated key, a second `=` and no
final newline. -/
def sampleConf : Bytes := bytes "# settings\n\n name = a\r\nlevel=\t3\nname=b=c"

theorem fromFile_meaning_sample : bytes "my_daemon.conf" ≠ [] ∧ WellFormed (lines sampleConf) ∧
    ∃ cfg, fromFile (bytes "my_daemon.conf") (.ofContent sampleConf) = .ok cfg ∧
      (∀ key, key ∈ cfg.values ↔ ∃ line ∈ lines sampleConf, ∃ value, Entry line key value) ∧
      (∀ key value, LastEntry (lines sampleConf) key value → cfg.get key = value) ∧
      ∀ key, (∀ line ∈ lines sampleConf, ∀ value, ¬ Entry line key value) → cfg.get key = [] :=
  ⟨by decide, by decide, fromFile_meaning (by decide) (by decide)⟩

end Daemonpp
