import Daemonpp.Lib.Fields

/-!
# Byte strings and input streams

`std::string` is a list of bytes. An `IStream` is what `std::getline` reads
from: the bytes the device will still deliver, what it does after them, and the
stream's state bits. A `std::stringstream` ends in end of file; an
`std::ifstream` may also fail in the middle of the file, or not open at all.
`getline` and the loop `while(std::getline(is, str, delim))` are the standard
library's, and `whileGetline_eq` is the one fact the parser needs of them: on a
readable stream the loop visits the delimited fields of the content in order.
-/

namespace Daemonpp

abbrev Byte := UInt8

/-- `std::string`. -/
abbrev Bytes := List Byte

/-- The bytes of an ASCII literal. -/
def bytes (s : String) : Bytes := s.toList.map fun c => c.toNat.toUInt8

/-- `'\n'`, the delimiter `std::getline` takes by default. -/
def newline : Byte := 10

/-- An index outside the container it is applied to: undefined behaviour of
`operator[]`, which checks nothing. -/
structure OutOfRange where
  index : Nat
  size : Nat
  deriving DecidableEq, Repr

/-- `xs[i]`. -/
def index {α : Type} (xs : List α) (i : Nat) : Except OutOfRange α :=
  match xs[i]? with
  | some x => .ok x
  | none => .error ⟨i, xs.length⟩

@[simp] theorem ok_bind {α β : Type} (a : α) (f : α → Except OutOfRange β) :
    (Except.ok a >>= f) = f a := rfl

@[simp] theorem index_zero {α : Type} (x : α) (xs : List α) : index (x :: xs) 0 = .ok x := rfl

@[simp] theorem index_one {α : Type} (x y : α) (xs : List α) : index (x :: y :: xs) 1 = .ok y := rfl

/-- What a device does once its bytes are delivered. -/
inductive Ending where
  | eof
  | error
  deriving DecidableEq, Repr

/-- `std::istream`. -/
structure IStream where
  rest : Bytes
  ending : Ending := .eof
  eofbit : Bool := false
  failbit : Bool := false
  badbit : Bool := false
  deriving DecidableEq, Repr

namespace IStream

/-- `good()`, which the sentry of an input function requires. -/
def good (is : IStream) : Bool := !is.eofbit && !is.failbit && !is.badbit

/-- `operator bool`, the negation of `fail()`. -/
def ok (is : IStream) : Bool := !is.failbit && !is.badbit

/-- A stream over the whole of a content. -/
def ofContent (content : Bytes) : IStream := { rest := content }

/-- A file stream whose open failed. -/
def closed : IStream := { rest := [], failbit := true }

end IStream

/-- `std::getline(is, str, delim)`: the new `str` and the stream afterwards.
When the sentry refuses, `str` keeps its old value, which no loop reads. -/
def getline (is : IStream) (delim : Byte) : Bytes × IStream :=
  if is.good then
    let str := is.rest.takeWhile (· != delim)
    match is.rest.dropWhile (· != delim) with
    | _ :: rest => (str, { is with rest := rest })
    | [] =>
      match is.ending with
      | .eof => (str, { is with rest := [], eofbit := true, failbit := str.isEmpty })
      | .error => (str, { is with rest := [], badbit := true, failbit := str.isEmpty })
  else ([], { is with failbit := true })

/-- `while(std::getline(is, str, delim)) body`. Every round but the last takes a
byte from the stream, so `IStream.rounds` rounds are enough. -/
def whileGetline {σ : Type} (delim : Byte) (body : σ → Bytes → Except OutOfRange σ) :
    Nat → IStream → σ → Except OutOfRange σ
  | 0, _, acc => .ok acc
  | fuel + 1, is, acc =>
    let (str, is) := getline is delim
    if is.ok then do
      let acc ← body acc str
      whileGetline delim body fuel is acc
    else .ok acc

/-- A bound on the rounds of a `getline` loop over `is`. -/
def IStream.rounds (is : IStream) : Nat := is.rest.length + 1

section Getline

variable {delim : Byte}

/-- The bytes of a field are those `getline` extracts. -/
theorem bne_of_notMem {part : Bytes} (clean : delim ∉ part) : ∀ x ∈ part, (x != delim) = true := by
  intro x mem
  exact bne_iff_ne.2 fun same => clean (same ▸ mem)

/-- A delimited field is read and the delimiter is taken from the stream. -/
theorem getline_append_cons {part : Bytes} (clean : delim ∉ part) (rest : Bytes) :
    getline (.ofContent (part ++ delim :: rest)) delim = (part, .ofContent rest) := by
  have all := bne_of_notMem clean
  simp [getline, IStream.ofContent, IStream.good, List.takeWhile_append_of_pos all,
    Lib.dropWhile_append_of_all all]

/-- The last field is read up to the end of the file. -/
theorem getline_last {part : Bytes} (clean : delim ∉ part) (nonempty : part ≠ []) :
    getline (.ofContent part) delim = (part, { rest := [], eofbit := true }) := by
  have all := bne_of_notMem clean
  simp [getline, IStream.ofContent, IStream.good, List.takeWhile_eq_self_iff.2 all,
    List.dropWhile_eq_nil_iff.2 all, nonempty]

/-- **The loop visits the fields of the content**, in order, and stops behind
the last one; the rounds it needs are bounded by the content's length. -/
theorem whileGetline_eq {σ : Type} (body : σ → Bytes → Except OutOfRange σ) (content : Bytes) :
    ∀ fuel acc, content.length < fuel →
      whileGetline delim body fuel (.ofContent content) acc = (Lib.fields delim content).foldlM body acc := by
  induction content using Lib.fields_induction (d := delim) with
  | nil =>
    intro fuel acc enough
    obtain ⟨fuel, rfl⟩ := Nat.exists_eq_succ_of_ne_zero (Nat.ne_of_gt enough)
    rfl
  | last part clean nonempty =>
    intro fuel acc enough
    -- one round reads the field, the next one finds the stream at its end
    have size : 0 < part.length := List.length_pos_of_ne_nil nonempty
    obtain ⟨fuel, rfl⟩ : ∃ n, fuel = n + 2 := ⟨fuel - 2, by omega⟩
    have stop : ∀ acc, whileGetline delim body (fuel + 1) { rest := [], eofbit := true } acc = .ok acc :=
      fun _ => rfl
    rw [whileGetline, getline_last clean nonempty, Lib.fields_of_notMem clean nonempty]
    simp only [IStream.ok, Bool.not_false, Bool.and_self, if_true, stop, List.foldlM_cons, List.foldlM_nil]
    rfl
  | cons part rest clean ih =>
    intro fuel acc enough
    rw [List.length_append, List.length_cons] at enough
    obtain ⟨fuel, rfl⟩ := Nat.exists_eq_succ_of_ne_zero (Nat.ne_of_gt (Nat.zero_lt_of_lt enough))
    rw [whileGetline, getline_append_cons clean, Lib.fields_append_cons clean, List.foldlM_cons]
    simp only [IStream.ofContent, IStream.ok, Bool.not_false, Bool.and_self, if_true]
    exact congrArg _ (funext fun acc => ih fuel acc (by omega))

/-- A device that fails ends the loop in front of the field it is in the middle of. -/
theorem whileGetline_error {σ : Type} (body : σ → Bytes → Except OutOfRange σ) (delivered : Bytes) :
    ∀ fuel acc, delivered.length < fuel →
      whileGetline delim body fuel { rest := delivered, ending := .error } acc =
        (delivered.splitOn delim).dropLast.foldlM body acc := by
  induction delivered using Lib.fields_induction (d := delim) with
  | nil =>
    intro fuel acc enough
    obtain ⟨fuel, rfl⟩ := Nat.exists_eq_succ_of_ne_zero (Nat.ne_of_gt enough)
    rfl
  | last part clean nonempty =>
    intro fuel acc enough
    obtain ⟨fuel, rfl⟩ := Nat.exists_eq_succ_of_ne_zero (Nat.ne_of_gt (Nat.zero_lt_of_lt enough))
    have all := bne_of_notMem clean
    rw [List.splitOn_eq_singleton clean, whileGetline]
    simp only [getline, IStream.good, IStream.ok, List.dropWhile_eq_nil_iff.2 all, Bool.not_false, Bool.not_true,
      Bool.and_self, Bool.and_false, if_true, Bool.false_eq_true, if_false]
    rfl
  | cons part rest clean ih =>
    intro fuel acc enough
    rw [List.length_append, List.length_cons] at enough
    obtain ⟨fuel, rfl⟩ := Nat.exists_eq_succ_of_ne_zero (Nat.ne_of_gt (Nat.zero_lt_of_lt enough))
    have all := bne_of_notMem clean
    have read : getline { rest := part ++ delim :: rest, ending := .error } delim =
        (part, { rest := rest, ending := .error }) := by
      simp [getline, IStream.good, List.takeWhile_append_of_pos all, Lib.dropWhile_append_of_all all]
    rw [whileGetline, read, List.splitOn_append_cons_self_of_not_mem clean,
      List.dropLast_cons_of_ne_nil (List.splitOn_ne_nil delim rest), List.foldlM_cons]
    simp only [IStream.ok, Bool.not_false, Bool.and_self, if_true]
    exact congrArg _ (funext fun acc => ih fuel acc (by omega))

theorem whileGetline_content {σ : Type} (body : σ → Bytes → Except OutOfRange σ) (content : Bytes) (acc : σ) :
    whileGetline delim body (IStream.ofContent content).rounds (.ofContent content) acc =
      (Lib.fields delim content).foldlM body acc :=
  whileGetline_eq body content _ acc (Nat.lt_succ_self _)

end Getline

end Daemonpp
