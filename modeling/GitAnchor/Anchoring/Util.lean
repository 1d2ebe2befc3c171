import GitAnchor.Foundation.Lines
import GitAnchor.Foundation.Offsets
import GitAnchor.Foundation.Result
import GitAnchor.Substrate.NormalForm

/-! Bytes, lines and spans: the conversions of the `git-anchor` crate between a 1-based
line range, a 0-based half-open line range and a byte span. A `usize` is 64 bits wide, so
it converts to and from `u64` without loss. -/

namespace GitAnchor.Anchoring
open GitAnchor.Foundation GitAnchor.Substrate

def U64_MAX : Nat := 0xFFFFFFFFFFFFFFFF
def ISIZE_MAX : Nat := 0x7FFFFFFFFFFFFFFF

def saturatingAdd (a b : Nat) : Nat := min (a + b) U64_MAX
def checkedAdd (a b : Nat) : Option Nat := if a + b ≤ U64_MAX then some (a + b) else none
def checkedSub (a b : Nat) : Option Nat := if b ≤ a then some (a - b) else none

theorem checkedAdd_of_le (a b : Nat) (fits : a + b ≤ U64_MAX) : checkedAdd a b = some (a + b) :=
  if_pos fits

theorem checkedSub_of_le (a b : Nat) (fits : b ≤ a) : checkedSub a b = some (a - b) := if_pos fits

/-- Bytes in memory: an allocation is at most `isize::MAX` long. -/
structure Data where
  bytes : Bytes
  fits : bytes.length ≤ ISIZE_MAX
deriving DecidableEq

/-- A 1-based inclusive range of lines, as a user supplies one. -/
structure LineRange where
  start : Nat
  stop : Nat
deriving DecidableEq

/-- A half-open byte range over a blob's bytes. -/
structure Span where
  start : Nat
  stop : Nat
deriving DecidableEq

/-- The whole of a blob `len` bytes long. -/
def Span.whole (len : Nat) : Span := ⟨0, len⟩

/-- `bytes[self]`, where the span fits. -/
def Span.slice (span : Span) (data : Data) : Option Bytes :=
  if span.start ≤ span.stop ∧ span.stop ≤ data.bytes.length then
    some ((data.bytes.take span.stop).drop span.start)
  else none

inductive Error (ObjectId : Type) where
  | resolve (revision : String)
  | object (message : String)
  | diff (message : String)
  | missingPath (commit : ObjectId) (path : String)
  | linesOutOfRange (path : String) (start stop len : Nat)
  | noWorkingTree
deriving DecidableEq

abbrev Result (ObjectId : Type) (Value : Type) := Except (Error ObjectId) Value

/-- A walk through trees returns a result unless its fuel runs out. -/
abbrev Walk (ObjectId Value : Type) := ExceptT (Error ObjectId) Option Value

def Walk.of {ObjectId Value : Type} (result : Result ObjectId Value) : Walk ObjectId Value := ExceptT.mk (some result)

theorem Walk.of_ok {ObjectId Value : Type} (value : Value) : (Walk.of (.ok value) : Walk ObjectId Value) = pure value :=
  rfl

/-- The lines of `data`, each with the newline that ends it. -/
def linesWithTerminator (data : Data) : List Bytes := Lines.lines 10 data.bytes

def boundariesFrom (offset : Nat) : List Bytes → List Nat
  | [] => []
  | line :: rest => saturatingAdd offset line.length :: boundariesFrom (saturatingAdd offset line.length) rest

/-- The byte offset of every line's start in `data`, and the length of `data` last. -/
def lineBoundaries (data : Data) : List Nat := 0 :: boundariesFrom 0 (linesWithTerminator data)

theorem lineBoundaries_length (data : Data) :
    (lineBoundaries data).length = (lineBoundaries data).length - 1 + 1 := rfl

variable {ObjectId : Type}

/-- The span of the 1-based inclusive `range`. -/
def byteSpanOf (data : Data) (path : String) (range : LineRange) : Result ObjectId Span :=
  let lineCount := (lineBoundaries data).length - 1
  let outOfRange : Error ObjectId := .linesOutOfRange path range.start range.stop lineCount
  match checkedSub range.start 1 with
  | none => .error outOfRange
  | some first =>
      if fits : first ≤ range.stop ∧ range.stop ≤ lineCount then
        have count := lineBoundaries_length data
        .ok { start := (lineBoundaries data).get ⟨first, by omega⟩
              stop := (lineBoundaries data).get ⟨range.stop, by omega⟩ }
      else .error outOfRange

/-- The 0-based half-open line range that `span` covers: every line a byte of it touches. -/
def spanToLines (data : Data) (span : Span) : Nat × Nat :=
  let boundaries := lineBoundaries data
  let startLine := (Offsets.rposition (fun b => decide (b ≤ span.start)) boundaries).getD 0
  let endLine :=
    if span.stop ≤ span.start then startLine
    else (boundaries.findIdx? (fun b => decide (span.stop ≤ b))).getD (boundaries.length - 1)
  (startLine, endLine)

/-- The span of a 0-based half-open line range. -/
def linesToSpan (data : Data) (startLine endLine : Nat) : Option Span := do
  let start ← (lineBoundaries data)[startLine]?
  let stop ← (lineBoundaries data)[endLine]?
  return ⟨start, stop⟩

/-! Boundaries are the offsets of the lines. -/

def Data.lineCount (data : Data) : Nat := (linesWithTerminator data).length

/-- Where line `k` starts, counted from 0. -/
def Data.lineStart (data : Data) (k : Nat) : Nat := Offsets.reach (linesWithTerminator data) k

/-- The text of the 0-based half-open line range from `a` to `b`. -/
def Data.lineText (data : Data) (a b : Nat) : Bytes := (((linesWithTerminator data).take b).drop a).flatten

def Data.lineSpan (data : Data) (a b : Nat) : Span := ⟨data.lineStart a, data.lineStart b⟩

theorem linesWithTerminator_flatten (data : Data) : (linesWithTerminator data).flatten = data.bytes :=
  Lines.lines_flatten 10 data.bytes

theorem lineStart_le (data : Data) (k : Nat) : data.lineStart k ≤ data.bytes.length := by
  rw [← linesWithTerminator_flatten data]
  exact Offsets.reach_le _ k

theorem lineStart_lineCount (data : Data) : data.lineStart data.lineCount = data.bytes.length := by
  rw [← linesWithTerminator_flatten data]
  exact Offsets.reach_length _

theorem lineStart_mono (data : Data) (a b : Nat) (ordered : a ≤ b) : data.lineStart a ≤ data.lineStart b := by
  have further := Offsets.reach_add (linesWithTerminator data) a b ordered
  unfold Data.lineStart
  omega

/-- There are no more lines than bytes. -/
theorem lineCount_le (data : Data) : data.lineCount ≤ data.bytes.length := by
  rw [← linesWithTerminator_flatten data]
  exact Offsets.length_le _ (Lines.ne_nil_of_mem_lines 10 data.bytes)

theorem boundariesFrom_eq (offset : Nat) (lines : List Bytes)
    (fits : offset + lines.flatten.length ≤ U64_MAX) :
    offset :: boundariesFrom offset lines = Offsets.offsets offset lines := by
  induction lines generalizing offset with
  | nil => rfl
  | cons line rest ih =>
    rw [List.flatten_cons, List.length_append] at fits
    have exact_sum : saturatingAdd offset line.length = offset + line.length :=
      Nat.min_eq_left (by omega)
    rw [boundariesFrom, exact_sum, ih _ (by omega)]
    rfl

theorem lineBoundaries_eq (data : Data) :
    lineBoundaries data = Offsets.offsets 0 (linesWithTerminator data) := by
  apply boundariesFrom_eq
  have bound := data.fits
  rw [linesWithTerminator_flatten]
  unfold ISIZE_MAX at bound
  unfold U64_MAX
  omega

theorem lineBoundaries_count (data : Data) : (lineBoundaries data).length = data.lineCount + 1 := by
  rw [lineBoundaries_eq, Offsets.offsets_length]
  rfl

theorem lineBoundaries_getElem? (data : Data) (k : Nat) (bound : k ≤ data.lineCount) :
    (lineBoundaries data)[k]? = some (data.lineStart k) := by
  rw [lineBoundaries_eq, Offsets.offsets_getElem? 0 _ k bound, Nat.zero_add]
  rfl

theorem mem_lineBoundaries (data : Data) (offset : Nat) :
    offset ∈ lineBoundaries data ↔ ∃ k, k ≤ data.lineCount ∧ data.lineStart k = offset := by
  rw [List.mem_iff_getElem?]
  have count := lineBoundaries_count data
  constructor
  · rintro ⟨k, located⟩
    obtain ⟨bound, _⟩ := List.getElem?_eq_some_iff.mp located
    have inside : k ≤ data.lineCount := by omega
    rw [lineBoundaries_getElem? data k inside] at located
    exact ⟨k, inside, Option.some.inj located⟩
  · rintro ⟨k, inside, rfl⟩
    exact ⟨k, lineBoundaries_getElem? data k inside⟩

theorem le_length_of_mem_lineBoundaries (data : Data) (offset : Nat) (member : offset ∈ lineBoundaries data) :
    offset ≤ data.bytes.length := by
  obtain ⟨k, _, rfl⟩ := (mem_lineBoundaries data offset).mp member
  exact lineStart_le data k

theorem lineBoundaries_ascending (data : Data) : (lineBoundaries data).Pairwise (· < ·) := by
  rw [lineBoundaries_eq]
  exact Offsets.offsets_ascending 0 _ (Lines.ne_nil_of_mem_lines 10 data.bytes)

/-! What the conversions return. -/

theorem linesToSpan_eq (data : Data) (a b : Nat) (first : a ≤ data.lineCount) (last : b ≤ data.lineCount) :
    linesToSpan data a b = some (data.lineSpan a b) := by
  unfold linesToSpan
  rw [lineBoundaries_getElem? data a first, lineBoundaries_getElem? data b last]
  rfl

theorem byteSpanOf_ok (data : Data) (path : String) (range : LineRange) (span : Span)
    (ok : (byteSpanOf data path range : Result ObjectId Span) = .ok span) :
    1 ≤ range.start ∧ range.start - 1 ≤ range.stop ∧ range.stop ≤ data.lineCount ∧
      span = data.lineSpan (range.start - 1) range.stop := by
  have count := lineBoundaries_count data
  unfold byteSpanOf checkedSub at ok
  by_cases positive : 1 ≤ range.start
  · simp only [if_pos positive] at ok
    split at ok
    · next fits =>
      have last : range.stop ≤ data.lineCount := by omega
      refine ⟨positive, fits.1, last, ?_⟩
      rw [← Except.ok.inj ok]
      have located (k : Nat) (bound : k ≤ data.lineCount) (inside : k < (lineBoundaries data).length) :
          (lineBoundaries data).get ⟨k, inside⟩ = data.lineStart k := by
        have found := lineBoundaries_getElem? data k bound
        rw [List.getElem?_eq_getElem inside] at found
        exact Option.some.inj found
      rw [located _ (by omega), located _ last]
      rfl
    · cases ok
  · simp [if_neg positive] at ok

/-- A span of whole lines covers those lines. -/
theorem spanToLines_lineSpan (data : Data) (a b : Nat) (ordered : a ≤ b) (last : b ≤ data.lineCount) :
    spanToLines data (data.lineSpan a b) = (a, b) := by
  have ascending := lineBoundaries_ascending data
  have start := Offsets.rposition_of_ascending _ ascending a _
    (lineBoundaries_getElem? data a (by omega))
  have stop := Offsets.position_of_ascending _ ascending b _ (lineBoundaries_getElem? data b last)
  have covered : spanToLines data (data.lineSpan a b) =
      ((Offsets.rposition (fun x => decide (x ≤ data.lineStart a)) (lineBoundaries data)).getD 0,
        if data.lineStart b ≤ data.lineStart a then
          (Offsets.rposition (fun x => decide (x ≤ data.lineStart a)) (lineBoundaries data)).getD 0
        else ((lineBoundaries data).findIdx? (fun x => decide (data.lineStart b ≤ x))).getD
          ((lineBoundaries data).length - 1)) := rfl
  rw [covered, start, stop, Option.getD_some, Option.getD_some]
  split
  · next empty =>
    -- no line is empty, so the span is empty only when the line range is
    rcases Nat.eq_or_lt_of_le ordered with same | less
    · rw [same]
    · obtain ⟨boundA, atA⟩ := List.getElem?_eq_some_iff.mp (lineBoundaries_getElem? data a (by omega))
      obtain ⟨boundB, atB⟩ := List.getElem?_eq_some_iff.mp (lineBoundaries_getElem? data b last)
      have before := List.pairwise_iff_getElem.mp ascending a b boundA boundB less
      omega
  · rfl

/-- Whatever the span, the lines it covers are an ordered range of lines of the text. -/
theorem spanToLines_range (data : Data) (span : Span) :
    (spanToLines data span).1 ≤ (spanToLines data span).2 ∧ (spanToLines data span).2 ≤ data.lineCount := by
  have count := lineBoundaries_count data
  have ascending := lineBoundaries_ascending data
  have inside (k value : Nat) (located : (lineBoundaries data)[k]? = some value) : k ≤ data.lineCount := by
    obtain ⟨bound, _⟩ := List.getElem?_eq_some_iff.mp located
    omega
  have start : ∃ k, (Offsets.rposition (fun b => decide (b ≤ span.start)) (lineBoundaries data)).getD 0 = k ∧
      ∃ low, (lineBoundaries data)[k]? = some low ∧ low ≤ span.start := by
    cases found : Offsets.rposition (fun b => decide (b ≤ span.start)) (lineBoundaries data) with
    | none => exact ⟨0, rfl, 0, rfl, Nat.zero_le _⟩
    | some k =>
      obtain ⟨low, located, below⟩ := Offsets.rposition_some _ _ _ found
      exact ⟨k, rfl, low, located, of_decide_eq_true below⟩
  obtain ⟨k, startLine, low, located, below⟩ := start
  have start_inside := inside k low located
  simp only [spanToLines, startLine]
  split
  · exact ⟨Nat.le_refl _, start_inside⟩
  · next some =>
    cases found : (lineBoundaries data).findIdx? (fun b => decide (span.stop ≤ b)) with
    | none =>
      rw [Option.getD_none]
      omega
    | some m =>
      rw [Option.getD_some]
      obtain ⟨bound, above, _⟩ := List.findIdx?_eq_some_iff_getElem.mp found
      have reached : span.stop ≤ (lineBoundaries data)[m] := of_decide_eq_true above
      have ordered := Offsets.ordered_of_ascending _ ascending k m low _ located
        (List.getElem?_eq_getElem bound) (by omega)
      omega

/-- The bytes of a span of whole lines are those lines. -/
theorem slice_lineSpan (data : Data) (a b : Nat) (ordered : a ≤ b) :
    (data.lineSpan a b).slice data = some (data.lineText a b) := by
  have fits : (data.lineSpan a b).start ≤ (data.lineSpan a b).stop ∧
      (data.lineSpan a b).stop ≤ data.bytes.length :=
    ⟨lineStart_mono data a b ordered, lineStart_le data b⟩
  rw [Span.slice, if_pos fits]
  have cut := Offsets.slice_flatten (linesWithTerminator data) a b ordered
  rw [linesWithTerminator_flatten] at cut
  exact congrArg some cut

theorem whole_eq_lineSpan (data : Data) : Span.whole data.bytes.length = data.lineSpan 0 data.lineCount := by
  rw [Data.lineSpan, lineStart_lineCount]
  rfl

end GitAnchor.Anchoring
