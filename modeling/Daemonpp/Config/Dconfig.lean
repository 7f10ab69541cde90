import Daemonpp.Config.Stream
import Mathlib.Data.Finmap

/-!
# `dconfig`

The configuration map and `dconfig::from_file`, statement by statement. Every
`operator[]` goes through `index`, so an access outside its container is the
outcome `.error` instead of undefined behaviour. The stream `ifs` is the opened
file: its content, and whether opening or reading it fails.
-/

namespace Daemonpp

/-- `struct dconfig`; `std::map` is a finite map. -/
structure Dconfig where
  values : Finmap fun _ : Bytes => Bytes := ∅
  deriving DecidableEq

/-- `dconfig::get`. -/
def Dconfig.get (cfg : Dconfig) (key : Bytes) : Bytes :=
  match cfg.values.lookup key with
  | some value => value
  | none => []

/-- `std::isspace` in the C locale: space, and `\t \n \v \f \r`. -/
def isspace (ch : Byte) : Bool := ch == 32 || (9 ≤ ch && ch ≤ 13)

/-- `'#'`. -/
def hash : Byte := 35

/-- `'='`. -/
def equals : Byte := 61

/-- The lambda `trim`: erase up to the first non-space from the left, then from
the right. -/
def trim (s : Bytes) : Bytes :=
  let s := s.dropWhile isspace
  s.rdropWhile isspace

/-- The lambda `split`. -/
def split (str : Bytes) (delim : Byte) : Except OutOfRange (List Bytes) :=
  let oss := IStream.ofContent str
  whileGetline delim (fun parts part => .ok (parts ++ [part])) oss.rounds oss []

/-- The body of the loop over the lines; `continue` returns the map unchanged. -/
def addLine (cfg : Dconfig) (line : Bytes) : Except OutOfRange Dconfig := do
  let line := trim line
  if line.isEmpty then return cfg
  if (← index line 0) == hash then return cfg
  let parts ← split line equals
  let key ← index parts 0
  let value ← index parts 1
  return { cfg with values := cfg.values.insert (trim key) (trim value) }

/-- `dconfig::from_file`. -/
def fromFile (filename : Bytes) (ifs : IStream) : Except OutOfRange Dconfig :=
  if filename.isEmpty then .ok {}
  else whileGetline newline addLine ifs.rounds ifs {}

/-- `split` never fails and returns the delimited fields. -/
theorem split_eq (str : Bytes) (delim : Byte) : split str delim = .ok (Lib.fields delim str) := by
  have push : ∀ (parts acc : List Bytes), parts.foldlM (m := Except OutOfRange)
      (fun acc part => .ok (acc ++ [part])) acc = .ok (acc ++ parts) := by
    intro parts
    induction parts with
    | nil => intro acc; rw [List.append_nil]; rfl
    | cons part parts ih =>
      intro acc
      rw [List.foldlM_cons]
      exact (ih _).trans (by rw [List.append_assoc]; rfl)
  rw [split, whileGetline_content, push, List.nil_append]

/-- What `split` promises of the parts of `str`. -/
structure SplitsInto (str : Bytes) (delim : Byte) (parts : List Bytes) : Prop where
  clean : ∀ part ∈ parts, delim ∉ part
  /-- Joined with the delimiter, and one more where `str` ends in it, they give `str` back. -/
  joined : [delim].intercalate parts ++ (if str.getLast? = some delim then [delim] else []) = str
  length : parts.length = str.count delim + if str ≠ [] ∧ str.getLast? ≠ some delim then 1 else 0
  first : str ≠ [] → 1 ≤ parts.length
  second : 2 ≤ parts.length ↔ ∃ part rest, str = part ++ delim :: rest ∧ delim ∉ part ∧ rest ≠ []

/-- **`split` loses nothing but a final empty part.** -/
theorem split_lossless (str : Bytes) (delim : Byte) :
    ∃ parts, split str delim = .ok parts ∧ SplitsInto str delim parts := by
  refine ⟨Lib.fields delim str, split_eq str delim, ?_⟩
  constructor
  · exact fun part => Lib.notMem_of_mem_fields
  · exact Lib.intercalate_fields str
  · exact Lib.length_fields str
  · exact fun nonempty => List.length_pos_of_ne_nil (mt Lib.fields_eq_nil_iff.1 nonempty)
  · exact Lib.one_lt_length_fields

/-- A readable file is a fold of the loop body over its lines. -/
theorem fromFile_eq {filename : Bytes} (named : filename ≠ []) (content : Bytes) :
    fromFile filename (.ofContent content) = (Lib.fields newline content).foldlM addLine {} := by
  rw [fromFile, if_neg (by simpa using named), whileGetline_content]

section Line

variable {cfg : Dconfig} {line : Bytes}

/-- Blank lines change nothing. -/
theorem addLine_blank (blank : trim line = []) : addLine cfg line = .ok cfg := by
  simp only [addLine, blank]; rfl

/-- Comment lines change nothing. -/
theorem addLine_comment {rest : Bytes} (comment : trim line = hash :: rest) :
    addLine cfg line = .ok cfg := by
  simp only [addLine, comment]; rfl

/-- What the rest of the body does with a line that is neither. -/
theorem addLine_of_parts {parts : List Bytes} (nonempty : trim line ≠ []) (entry : (trim line).head? ≠ some hash)
    (fields : Lib.fields equals (trim line) = parts) :
    addLine cfg line = (do
      let key ← index parts 0
      let value ← index parts 1
      return { cfg with values := cfg.values.insert (trim key) (trim value) }) := by
  obtain ⟨ch, rest, text⟩ := List.exists_cons_of_ne_nil nonempty
  have other : (ch == hash) = false := by simpa [text] using entry
  rw [text] at fields
  simp only [addLine, text, List.isEmpty_cons, Bool.false_eq_true, if_false, index_zero, ok_bind,
    other, split_eq, fields]

end Line

end Daemonpp
