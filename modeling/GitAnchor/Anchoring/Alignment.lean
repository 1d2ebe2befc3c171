import GitAnchor.Anchoring.Placement

/-! Spans inside lines. The hunks move whole lines, so a span comes out of the mapping as the
lines it covers: it is moved as it is exactly when it begins and ends where lines do. -/

namespace GitAnchor.Anchoring
open GitAnchor.Foundation GitAnchor.Substrate
variable {ObjectId : Type} {gix : Gix ObjectId} {old new : Data} {span : Span}
  {above above' touched below below' : List Bytes}

/-- The new text has the lines that the span covers, with other lines above and below them,
and the hunks say so. -/
structure EditedAround (gix : Gix ObjectId) (old new : Data) (span : Span)
    (above above' touched below below' : List Bytes) : Prop where
  old_lines : linesWithTerminator old = above ++ touched ++ below
  new_lines : linesWithTerminator new = above' ++ touched ++ below'
  covered : spanToLines old span = (above.length, above.length + touched.length)
  hunks : ∃ upper lower, gix.hunksOf old new = upper ++ lower ∧ Script 0 0 above above' upper ∧
    Script (above.length + touched.length) (above'.length + touched.length) below below' lower

/-- The span moved by what the text above it grew. -/
def Span.shifted (span : Span) (above above' : List Bytes) : Span :=
  ⟨span.start + above'.flatten.length - above.flatten.length,
    span.stop + above'.flatten.length - above.flatten.length⟩

/-- The first line that a span covers starts no later than the span. -/
theorem lineStart_spanToLines_le (data : Data) (span : Span) :
    data.lineStart (spanToLines data span).1 ≤ span.start := by
  have inside := (spanToLines_range data span)
  have located := lineBoundaries_getElem? data (spanToLines data span).1 (by omega)
  have start : (spanToLines data span).1 =
      (Offsets.rposition (fun b => decide (b ≤ span.start)) (lineBoundaries data)).getD 0 := rfl
  cases found : Offsets.rposition (fun b => decide (b ≤ span.start)) (lineBoundaries data) with
  | none =>
    rw [found] at start
    rw [start]
    exact Nat.zero_le _
  | some k =>
    rw [found, Option.getD_some] at start
    obtain ⟨low, there, below⟩ := Offsets.rposition_some _ _ _ found
    rw [start, there] at located
    rw [start, ← Option.some.inj located]
    exact of_decide_eq_true below

theorem lineStart_append (data : Data) (before after : List Bytes) (split : linesWithTerminator data = before ++ after) :
    data.lineStart before.length = before.flatten.length := by
  rw [Data.lineStart, Offsets.reach, split, List.take_left]

/-- An edit around the span maps it to its lines in the new text. -/
theorem mapSpan_editedAround (edit : EditedAround gix old new span above above' touched below below')
    (some_lines : touched ≠ []) :
    mapSpan gix old new span = some (new.lineSpan above'.length (above'.length + touched.length)) := by
  obtain ⟨upper, lower, whole, script, script'⟩ := edit.hunks
  have size := List.length_pos_of_ne_nil some_lines
  have untouched : ¬ Touched gix old new span := by
    rintro ⟨hunk, member, begins, ends⟩
    rw [edit.covered] at begins ends
    rw [whole] at member
    rcases List.mem_append.mp member with higher | deeper
    · have range := script.ranges hunk higher
      omega
    · have range := script'.ranges hunk deeper
      omega
  obtain ⟨front, back, _, balanced, mapping⟩ := mapSpan_moved gix old new span untouched
  have later : ∀ hunk ∈ lower, above.length < hunk.before.stop := script'.later_below (by omega)
  obtain ⟨no_insert, no_delete⟩ := nothing_below above.length lower later
  have grown := script.balance
  rw [Nat.zero_add] at grown
  rw [whole, edit.covered] at balanced
  simp only [inserted_append, deleted_append, no_insert, no_delete] at balanced
  have front_length : front.length = above'.length := by omega
  rw [mapping, edit.covered, front_length]
  simp only [Nat.add_sub_cancel_left]

/-- A span that begins and ends where lines do is that of the lines it covers. -/
theorem lineSpan_of_aligned (edit : EditedAround gix old new span above above' touched below below')
    (some_bytes : span.start < span.stop)
    (aligned : span.start ∈ lineBoundaries old ∧ span.stop ∈ lineBoundaries old) :
    span = old.lineSpan above.length (above.length + touched.length) := by
  obtain ⟨a, first, at_start⟩ := (mem_lineBoundaries old _).mp aligned.1
  obtain ⟨b, last, at_stop⟩ := (mem_lineBoundaries old _).mp aligned.2
  have ordered : a ≤ b := by
    by_contra reversed
    have mono := lineStart_mono old b a (by omega)
    omega
  have whole : span = old.lineSpan a b := by
    rw [Data.lineSpan, at_start, at_stop]
  have lines := spanToLines_lineSpan old a b ordered last
  rw [← whole, edit.covered, Prod.mk.injEq] at lines
  rw [lines.2, lines.1]
  exact whole

/-- The lines in the new text are the span moved with them exactly when the span is of whole lines. -/
theorem lineSpan_eq_shifted_iff (edit : EditedAround gix old new span above above' touched below below')
    (some_bytes : span.start < span.stop) :
    new.lineSpan above'.length (above'.length + touched.length) = span.shifted above above' ↔
      span.start ∈ lineBoundaries old ∧ span.stop ∈ lineBoundaries old := by
  have count : old.lineCount = above.length + touched.length + below.length := by
    rw [Data.lineCount, edit.old_lines, List.length_append, List.length_append]
  have old_start : old.lineStart above.length = above.flatten.length :=
    lineStart_append old above (touched ++ below) (by rw [edit.old_lines, List.append_assoc])
  have old_stop : old.lineStart (above.length + touched.length) = above.flatten.length + touched.flatten.length := by
    rw [← List.length_append, lineStart_append old (above ++ touched) below edit.old_lines, List.flatten_append,
      List.length_append]
  have new_start : new.lineStart above'.length = above'.flatten.length :=
    lineStart_append new above' (touched ++ below') (by rw [edit.new_lines, List.append_assoc])
  have new_stop : new.lineStart (above'.length + touched.length) = above'.flatten.length + touched.flatten.length := by
    rw [← List.length_append, lineStart_append new (above' ++ touched) below' edit.new_lines, List.flatten_append,
      List.length_append]
  have begins := lineStart_spanToLines_le old span
  rw [edit.covered, old_start] at begins
  rw [Data.lineSpan, Span.shifted, new_start, new_stop, Span.mk.injEq]
  constructor
  · rintro ⟨start, stop⟩
    refine ⟨(mem_lineBoundaries old _).mpr ⟨above.length, by omega, by omega⟩, ?_⟩
    exact (mem_lineBoundaries old _).mpr ⟨above.length + touched.length, by omega, by omega⟩
  · intro aligned
    have whole := lineSpan_of_aligned edit some_bytes aligned
    rw [Data.lineSpan, old_start, old_stop] at whole
    rw [whole]
    dsimp only
    omega

/-- The span moved with its lines names the same bytes. -/
theorem shifted_slice (edit : EditedAround gix old new span above above' touched below below')
    (aligned : span = old.lineSpan above.length (above.length + touched.length))
    (moved : new.lineSpan above'.length (above'.length + touched.length) = span.shifted above above') :
    (span.shifted above above').slice new = span.slice old := by
  rw [← moved, aligned, slice_lineSpan new _ _ (Nat.le_add_right _ _), slice_lineSpan old _ _ (Nat.le_add_right _ _)]
  have text (lines before after : List Bytes) (split : lines = before ++ touched ++ after) :
      (lines.take (before.length + touched.length)).drop before.length = touched := by
    rw [split, ← List.length_append, List.take_left, List.drop_left]
  rw [Data.lineText, Data.lineText, text _ _ _ edit.new_lines, text _ _ _ edit.old_lines]

/-- A span with bytes in it covers a line. -/
theorem spanToLines_lt (data : Data) (span : Span) (some_bytes : span.start < span.stop)
    (inside : span.stop ≤ data.bytes.length) : (spanToLines data span).1 < (spanToLines data span).2 := by
  obtain ⟨ordered, last⟩ := spanToLines_range data span
  rcases Nat.lt_or_eq_of_le ordered with less | same
  · exact less
  · exfalso
    have begins := lineStart_spanToLines_le data span
    have stop_line : (spanToLines data span).2 = if span.stop ≤ span.start then (spanToLines data span).1 else
        ((lineBoundaries data).findIdx? (fun b => decide (span.stop ≤ b))).getD ((lineBoundaries data).length - 1) := rfl
    rw [if_neg (Nat.not_le.mpr some_bytes)] at stop_line
    cases found : (lineBoundaries data).findIdx? (fun b => decide (span.stop ≤ b)) with
    | none =>
      have ends : data.bytes.length ∈ lineBoundaries data :=
        (mem_lineBoundaries data _).mpr ⟨data.lineCount, Nat.le_refl _, lineStart_lineCount data⟩
      have beyond := List.findIdx?_eq_none_iff.mp found _ ends
      exact of_decide_eq_false beyond inside
    | some m =>
      obtain ⟨bound, reached, _⟩ := List.findIdx?_eq_some_iff_getElem.mp found
      rw [found, Option.getD_some] at stop_line
      have located := lineBoundaries_getElem? data m (by omega)
      rw [List.getElem?_eq_getElem bound] at located
      have covers : span.stop ≤ data.lineStart m := by
        rw [← Option.some.inj located]
        exact of_decide_eq_true reached
      rw [← stop_line, ← same] at covers
      omega

/-- An edit above and below moves a span with its lines, as the same bytes, exactly when the
span begins and ends where lines of the old text do. -/
theorem mapSpan_shifts_iff (edit : EditedAround gix old new span above above' touched below below')
    (some_bytes : span.start < span.stop) (inside : span.stop ≤ old.bytes.length) :
    (mapSpan gix old new span = some (span.shifted above above') ∧
        (span.shifted above above').slice new = span.slice old ∧
        (span.shifted above above').stop - (span.shifted above above').start = span.stop - span.start) ↔
      span.start ∈ lineBoundaries old ∧ span.stop ∈ lineBoundaries old := by
  have some_lines : touched ≠ [] := by
    rintro rfl
    have covers := spanToLines_lt old span some_bytes inside
    rw [edit.covered] at covers
    exact Nat.lt_irrefl _ covers
  rw [mapSpan_editedAround edit some_lines, Option.some.injEq, lineSpan_eq_shifted_iff edit some_bytes]
  constructor
  · rintro ⟨aligned, _⟩
    exact aligned
  · intro aligned
    have moved := (lineSpan_eq_shifted_iff edit some_bytes).mpr aligned
    have begins := lineStart_spanToLines_le old span
    rw [edit.covered, lineStart_append old above (touched ++ below) (by rw [edit.old_lines, List.append_assoc])] at begins
    refine ⟨aligned, shifted_slice edit (lineSpan_of_aligned edit some_bytes aligned) moved, ?_⟩
    simp only [Span.shifted]
    omega

section Sample

/-- One line. -/
def oneLine : Data := ⟨[97, 98, 99, 10], by decide⟩

/-- The same line under another. -/
def lineBelow : Data := ⟨[120, 10, 97, 98, 99, 10], by decide⟩

theorem insertedAbove (span : Span) (covered : spanToLines oneLine span = (0, 1)) :
    EditedAround plainGix oneLine lineBelow span [] [[120, 10]] [[97, 98, 99, 10]] [] [] :=
  { old_lines := by decide
    new_lines := by decide
    covered := covered
    hunks := ⟨[⟨⟨0, 0⟩, ⟨0, 1⟩⟩], [], by decide, .hunk 0 0 [] [] [[120, 10]] [] [] [] (.rest 0 1 []), .rest 1 2 []⟩ }

/-- The whole line is moved as it is. -/
theorem mapSpan_shifts_line : mapSpan plainGix oneLine lineBelow ⟨0, 4⟩ = some ⟨2, 6⟩ :=
  ((mapSpan_shifts_iff (insertedAbove ⟨0, 4⟩ (by decide)) (by decide) (by decide)).mpr (by decide)).1

/-- One byte inside it becomes the whole line. -/
theorem mapSpan_widens : EditedAround plainGix oneLine lineBelow ⟨1, 2⟩ [] [[120, 10]] [[97, 98, 99, 10]] [] [] ∧
    mapSpan plainGix oneLine lineBelow ⟨1, 2⟩ = some ⟨2, 6⟩ ∧
      (⟨1, 2⟩ : Span).shifted [] [[120, 10]] = ⟨3, 4⟩ ∧ (⟨2, 6⟩ : Span).slice lineBelow ≠ (⟨1, 2⟩ : Span).slice oneLine := by
  refine ⟨insertedAbove ⟨1, 2⟩ (by decide), by decide, by decide, by decide⟩

end Sample

end GitAnchor.Anchoring
