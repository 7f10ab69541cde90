import Daemonpp.Config.Load

/-!
# Reading that fails

`from_file` tests its stream only as the condition of the loop, which ends the
same way at the end of the file, when the open fails and when a read fails. So
what it returns is the map of the lines that were delivered whole, and a caller
cannot tell it from the map of the file (`failed_read_mistaken`). The two are the
same only if the lines that were not delivered assign nothing new
(`failed_read_iff`).
-/

namespace Daemonpp

/-- How reading a file fails: it cannot be opened, or a read fails once the bytes
`delivered` have been read. -/
inductive ReadFailure where
  | open
  | read (delivered : Bytes)
  deriving DecidableEq, Repr

namespace ReadFailure

/-- The stream `from_file` reads from. -/
def stream : ReadFailure → IStream
  | .open => .closed
  | .read delivered => { rest := delivered, ending := .error }

/-- The bytes that are read. -/
def delivered : ReadFailure → Bytes
  | .open => []
  | .read delivered => delivered

/-- The lines of which all bytes and the newline are read. -/
def linesRead (failure : ReadFailure) : List Bytes := (lines failure.delivered).dropLast

/-- The other lines of the content. -/
def linesMissed (failure : ReadFailure) (content : Bytes) : List Bytes :=
  (lines content).drop failure.linesRead.length

end ReadFailure

/-- What the caller of `from_file` receives is the configuration of the complete content.
An index out of range is undefined behaviour, and no error that the caller could tell from it. -/
def Faithful (content : Bytes) : Except OutOfRange Dconfig → Prop
  | .ok cfg => ∀ key value, cfg.values.lookup key = some value ↔ LastEntry (lines content) key value
  | .error _ => False

section Failure

variable {filename content : Bytes} {failure : ReadFailure} {key value : Bytes}

/-- `from_file` performs the loop on the lines that were read whole, and returns. -/
theorem fromFile_failure (named : filename ≠ []) (failure : ReadFailure) :
    fromFile filename failure.stream = failure.linesRead.foldlM addLine {} := by
  rw [fromFile, if_neg (by simpa using named)]
  cases failure with
  | «open» => rfl
  | read delivered => exact whileGetline_error addLine delivered _ _ (Nat.lt_succ_self _)

/-- The whole lines of a prefix of the content are its first lines. -/
theorem dropLast_lines_isPrefix (delivered rest : Bytes) :
    (lines delivered).dropLast <+: lines (delivered ++ rest) := by
  unfold lines
  induction delivered using Lib.fields_induction (d := newline) with
  | nil => exact List.nil_prefix
  | last part clean nonempty =>
    rw [List.splitOn_eq_singleton clean]
    exact List.nil_prefix
  | cons part more clean ih =>
    rw [List.append_assoc, List.cons_append, List.splitOn_append_cons_self_of_not_mem clean,
      List.splitOn_append_cons_self_of_not_mem clean,
      List.dropLast_cons_of_ne_nil (List.splitOn_ne_nil newline more)]
    exact List.cons_prefix_cons.2 ⟨rfl, ih⟩

theorem lines_eq_read_missed (part : failure.delivered <+: content) :
    lines content = failure.linesRead ++ failure.linesMissed content := by
  obtain ⟨rest, rfl⟩ := part
  exact (List.prefix_iff_eq_append.1 (dropLast_lines_isPrefix failure.delivered rest)).symm

/-- Lines behind others change nothing exactly when they assign nothing new. -/
theorem lastEntry_append_eq_iff {ls missed : List Bytes} :
    (∀ key value, LastEntry ls key value ↔ LastEntry (ls ++ missed) key value) ↔
      ∀ key value, LastEntry missed key value → LastEntry ls key value := by
  constructor
  · intro same key value last
    exact (same key value).2 (lastEntry_append.2 (.inl last))
  · intro nothing key value
    rw [lastEntry_append]
    constructor
    · intro last
      by_cases again : ∃ l ∈ missed, ∃ v, Entry l key v
      · obtain ⟨v, last'⟩ := exists_lastEntry_iff.2 again
        exact .inl (last.unique (nothing key v last') ▸ last')
      · exact .inr ⟨fun l mem v entry => again ⟨l, mem, v, entry⟩, last⟩
    · exact fun last => last.elim (nothing key value) fun last => last.2

/-- **When a failed read does no harm**: the lines read whole are well formed, and the lines
that were missed assign no key a value it does not have by then. -/
theorem failed_read_iff (named : filename ≠ []) (part : failure.delivered <+: content) :
    Faithful content (fromFile filename failure.stream) ↔
      WellFormed failure.linesRead ∧
        ∀ key value, LastEntry (failure.linesMissed content) key value → LastEntry failure.linesRead key value := by
  rw [fromFile_failure named, ← lastEntry_append_eq_iff, ← lines_eq_read_missed part]
  by_cases well : WellFormed failure.linesRead
  · obtain ⟨cfg, run, map⟩ := loads well
    rw [run]
    simp only [Faithful, map, well, true_and]
  · rw [loads_fault well]
    exact iff_of_false id fun h => well h.1

end Failure

/-- Two settings and a comment. -/
def twoSettings : Bytes := bytes "name=a\nlevel=3\n# end"

/-- A read that fails inside the comment. -/
theorem failed_read_inComment : bytes "my_daemon.conf" ≠ [] ∧
    (ReadFailure.read (bytes "name=a\nlevel=3\n# e")).delivered <+: twoSettings ∧
    (Faithful twoSettings (fromFile (bytes "my_daemon.conf") (ReadFailure.read (bytes "name=a\nlevel=3\n# e")).stream) ↔
      WellFormed (ReadFailure.read (bytes "name=a\nlevel=3\n# e")).linesRead ∧
        ∀ key value, LastEntry ((ReadFailure.read (bytes "name=a\nlevel=3\n# e")).linesMissed twoSettings) key value →
          LastEntry (ReadFailure.read (bytes "name=a\nlevel=3\n# e")).linesRead key value) :=
  ⟨by decide, by decide, failed_read_iff (by decide) (by decide)⟩

/-- **A failed read is taken for the configuration**: an empty one when the open fails, and one
without `level` when the read of its line does. -/
theorem failed_read_mistaken :
    (∃ cfg, fromFile (bytes "my_daemon.conf") ReadFailure.open.stream = .ok cfg ∧ cfg.get (bytes "name") = []) ∧
      ¬ Faithful twoSettings (fromFile (bytes "my_daemon.conf") ReadFailure.open.stream) ∧
      ¬ Faithful twoSettings (fromFile (bytes "my_daemon.conf") (ReadFailure.read (bytes "name=a\nlev")).stream) := by
  have level : LastEntry (lines twoSettings) (bytes "level") (bytes "3") := by
    refine ⟨[bytes "name=a"], bytes "level=3", [bytes "# end"], by decide, ?_, ?_⟩
    · exact (@entry_equals (bytes "level") (bytes "3") _ _ (by decide)).2
        ⟨by decide, by decide, bytes "3", ⟨by decide, .inl rfl⟩, by decide⟩
    · intro l mem v entry
      obtain ⟨s, text⟩ := entry.text
      refine text.noComment ?_
      rw [text.eq_trim, List.mem_singleton.1 mem]
      decide
  have first : fromFile (bytes "my_daemon.conf") (ReadFailure.read (bytes "name=a\nlev")).stream =
      .ok { values := (∅ : Finmap fun _ : Bytes => Bytes).insert (bytes "name") (bytes "a") } := rfl
  refine ⟨⟨{}, rfl, rfl⟩, fun faithful => ?_, fun faithful => ?_⟩
  · have missing : (∅ : Finmap fun _ : Bytes => Bytes).lookup (bytes "level") = some (bytes "3") :=
      (faithful (bytes "level") (bytes "3")).2 level
    rw [Finmap.lookup_empty] at missing
    cases missing
  · rw [first] at faithful
    have missing := (faithful (bytes "level") (bytes "3")).2 level
    rw [Finmap.lookup_insert_of_ne _ (by decide), Finmap.lookup_empty] at missing
    cases missing

end Daemonpp
