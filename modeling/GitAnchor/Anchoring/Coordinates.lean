import GitAnchor.Anchoring.Util

/-! Lines against bytes. A 1-based range of lines becomes a span, a span becomes the 0-based
lines it touches, and these become a span again: the least one on line boundaries around it. -/

namespace GitAnchor.Anchoring
open GitAnchor.Foundation GitAnchor.Substrate
variable {ObjectId : Type}

/-- Later lines start further on. -/
theorem lineStart_strict (data : Data) (a b : Nat) (less : a < b) (last : b ≤ data.lineCount) :
    data.lineStart a < data.lineStart b := by
  have first := lineBoundaries_getElem? data a (by omega)
  have second := lineBoundaries_getElem? data b last
  obtain ⟨boundA, atA⟩ := List.getElem?_eq_some_iff.mp first
  obtain ⟨boundB, atB⟩ := List.getElem?_eq_some_iff.mp second
  have before := List.pairwise_iff_getElem.mp (lineBoundaries_ascending data) a b boundA boundB less
  rw [atA, atB] at before
  exact before

/-! Ranges of lines. -/

/-- All that the conversion of a range does: it is accepted unless it is inverted by more
than one line, or runs past either end. -/
theorem byteSpanOf_eq (data : Data) (path : String) (range : LineRange) :
    (byteSpanOf data path range : Result ObjectId Span) =
      if 1 ≤ range.start ∧ range.start - 1 ≤ range.stop ∧ range.stop ≤ data.lineCount then
        .ok (data.lineSpan (range.start - 1) range.stop)
      else .error (.linesOutOfRange path range.start range.stop data.lineCount) := by
  have count : (lineBoundaries data).length - 1 = data.lineCount := by rw [lineBoundaries_count]; rfl
  cases returned : (byteSpanOf data path range : Result ObjectId Span) with
  | ok span =>
    obtain ⟨first, ordered, last, rfl⟩ := byteSpanOf_ok data path range span returned
    rw [if_pos ⟨first, ordered, last⟩]
  | error failure =>
    unfold byteSpanOf checkedSub at returned
    by_cases positive : 1 ≤ range.start
    · simp only [if_pos positive] at returned
      split at returned
      · cases returned
      · next outside =>
        rw [count] at outside
        rw [if_neg (fun fits => outside fits.2), ← Except.error.inj returned, count]
    · simp only [if_neg positive] at returned
      rw [if_neg (fun fits => positive fits.1), ← Except.error.inj returned, count]

def LineRange.Fits (range : LineRange) (data : Data) : Prop :=
  1 ≤ range.start ∧ range.start ≤ range.stop ∧ range.stop ≤ data.lineCount

variable (ObjectId) in
/-- A range is converted where it is one of lines of the text, to the text of those lines,
and refused as out of range elsewhere. -/
structure Canonicalizes (data : Data) (path : String) (range : LineRange) : Prop where
  accepted : (∃ span, (byteSpanOf data path range : Result ObjectId Span) = .ok span) ↔ range.Fits data
  spanned : ∀ span, (byteSpanOf data path range : Result ObjectId Span) = .ok span →
    span.start < span.stop ∧ span.stop ≤ data.bytes.length ∧
      span.slice data = some (data.lineText (range.start - 1) range.stop)
  refused : ¬ range.Fits data → (byteSpanOf data path range : Result ObjectId Span) =
    .error (.linesOutOfRange path range.start range.stop data.lineCount)

/-- The range that ends one line before it starts is no range of lines, but is accepted. -/
theorem byteSpanOf_canonicalizes_iff (data : Data) (path : String) (range : LineRange) :
    Canonicalizes ObjectId data path range ↔
      ¬ (1 ≤ range.start ∧ range.start = range.stop + 1 ∧ range.stop ≤ data.lineCount) := by
  constructor
  · intro canonical inverted
    have accepted : (byteSpanOf data path range : Result ObjectId Span) =
        .ok (data.lineSpan (range.start - 1) range.stop) := by
      rw [byteSpanOf_eq, if_pos ⟨inverted.1, by omega, inverted.2.2⟩]
    have fits := canonical.accepted.mp ⟨_, accepted⟩
    have ordered := fits.2.1
    omega
  · intro upright
    have exactly : (1 ≤ range.start ∧ range.start - 1 ≤ range.stop ∧ range.stop ≤ data.lineCount) ↔
        range.Fits data := by
      unfold LineRange.Fits
      omega
    by_cases fits : range.Fits data
    · have converted : (byteSpanOf data path range : Result ObjectId Span) =
          .ok (data.lineSpan (range.start - 1) range.stop) := by
        rw [byteSpanOf_eq, if_pos (exactly.mpr fits)]
      refine ⟨iff_of_true ⟨_, converted⟩ fits, ?_, fun unfit => absurd fits unfit⟩
      intro span ok
      obtain rfl := Except.ok.inj (converted.symm.trans ok)
      obtain ⟨first, ordered, last⟩ := fits
      exact ⟨lineStart_strict data _ _ (by omega) last, lineStart_le data _, slice_lineSpan data _ _ (by omega)⟩
    · have refused : (byteSpanOf data path range : Result ObjectId Span) =
          .error (.linesOutOfRange path range.start range.stop data.lineCount) := by
        rw [byteSpanOf_eq, if_neg (fun covered => fits (exactly.mp covered))]
      refine ⟨iff_of_false ?_ fits, ?_, fun _ => refused⟩
      · intro ⟨span, ok⟩
        cases refused.symm.trans ok
      · intro span ok
        cases refused.symm.trans ok

/-- Lines 1 to 0 of the empty file. -/
theorem inverted_range_accepted :
    ¬ Canonicalizes Nat ⟨[], by decide⟩ "file.txt" ⟨1, 0⟩ ∧
      (byteSpanOf ⟨[], by decide⟩ "file.txt" ⟨1, 0⟩ : Result Nat Span) = .ok ⟨0, 0⟩ := by
  have empty : (byteSpanOf ⟨[], by decide⟩ "file.txt" ⟨1, 0⟩ : Result Nat Span) = .ok ⟨0, 0⟩ := by decide
  refine ⟨?_, empty⟩
  intro canonical
  exact Nat.lt_irrefl 0 (canonical.spanned _ empty).1

/-! Spans and the lines they touch. -/

def LineAligned (data : Data) (span : Span) : Prop :=
  span.start ∈ lineBoundaries data ∧ span.stop ∈ lineBoundaries data

def Span.Within (inner outer : Span) : Prop := outer.start ≤ inner.start ∧ inner.stop ≤ outer.stop

/-- The least span on line boundaries around `span`. -/
structure LineHull (data : Data) (span hull : Span) : Prop where
  aligned : LineAligned data hull
  around : span.Within hull
  least : ∀ other, LineAligned data other → span.Within other → hull.Within other

theorem Span.eq_of_within (one other : Span) (inner : one.Within other) (outer : other.Within one) :
    one = other := by
  obtain ⟨start, stop⟩ := one
  obtain ⟨start', stop'⟩ := other
  obtain ⟨less, more⟩ := inner
  obtain ⟨less', more'⟩ := outer
  dsimp only at *
  rw [Nat.le_antisymm less' less, Nat.le_antisymm more more']

theorem LineHull.eq_iff {data : Data} {span hull : Span} (is_hull : LineHull data span hull) :
    hull = span ↔ LineAligned data span := by
  constructor
  · intro same
    exact same ▸ is_hull.aligned
  · intro aligned
    exact Span.eq_of_within hull span (is_hull.least span aligned ⟨Nat.le_refl _, Nat.le_refl _⟩) is_hull.around

/-- To lines and back to bytes. -/
def toLinesAndBack (data : Data) (span : Span) : Option Span :=
  linesToSpan data (spanToLines data span).1 (spanToLines data span).2

theorem toLinesAndBack_eq (data : Data) (span : Span) :
    toLinesAndBack data span = some (data.lineSpan (spanToLines data span).1 (spanToLines data span).2) := by
  have inside := spanToLines_range data span
  exact linesToSpan_eq data _ _ (by omega) inside.2

theorem lineSpan_aligned (data : Data) (a b : Nat) (first : a ≤ data.lineCount) (last : b ≤ data.lineCount) :
    LineAligned data (data.lineSpan a b) :=
  ⟨(mem_lineBoundaries data _).mpr ⟨a, first, rfl⟩, (mem_lineBoundaries data _).mpr ⟨b, last, rfl⟩⟩

/-- The first line touched is the last one to start at or before the span. -/
theorem spanToLines_first (data : Data) (span : Span) :
    data.lineStart (spanToLines data span).1 ≤ span.start ∧
      ∀ k, k ≤ data.lineCount → data.lineStart k ≤ span.start → k ≤ (spanToLines data span).1 := by
  have returned : (spanToLines data span).1 =
      (Offsets.rposition (fun b => decide (b ≤ span.start)) (lineBoundaries data)).getD 0 := rfl
  obtain ⟨i, found⟩ := Offsets.rposition_isSome (fun b => decide (b ≤ span.start)) (lineBoundaries data) 0
    List.mem_cons_self (decide_eq_true (Nat.zero_le _))
  rw [returned, found, Option.getD_some]
  obtain ⟨low, located, below⟩ := Offsets.rposition_some _ _ _ found
  obtain ⟨bound, _⟩ := List.getElem?_eq_some_iff.mp located
  have count := lineBoundaries_count data
  rw [lineBoundaries_getElem? data i (by omega)] at located
  refine ⟨Option.some.inj located ▸ of_decide_eq_true below, ?_⟩
  intro k inside before
  by_contra further
  have missed := Offsets.rposition_last _ _ _ found k _ (by omega) (lineBoundaries_getElem? data k inside)
  exact of_decide_eq_false missed before

/-- The lines touched end at the first boundary at or past the end of the span. -/
theorem spanToLines_last (data : Data) (span : Span) (some_byte : span.start < span.stop)
    (fits : span.stop ≤ data.bytes.length) :
    span.stop ≤ data.lineStart (spanToLines data span).2 ∧
      ∀ k, span.stop ≤ data.lineStart k → (spanToLines data span).2 ≤ k := by
  have returned : (spanToLines data span).2 =
      ((lineBoundaries data).findIdx? (fun b => decide (span.stop ≤ b))).getD ((lineBoundaries data).length - 1) := by
    simp only [spanToLines]
    exact if_neg (by omega)
  have count := lineBoundaries_count data
  have whole := lineBoundaries_getElem? data data.lineCount (Nat.le_refl _)
  rw [lineStart_lineCount] at whole
  cases found : (lineBoundaries data).findIdx? (fun b => decide (span.stop ≤ b)) with
  | none =>
    have missed := List.findIdx?_eq_none_iff.mp found _ (List.mem_of_getElem? whole)
    exact absurd fits (of_decide_eq_false missed)
  | some j =>
    rw [returned, found, Option.getD_some]
    obtain ⟨bound, reached, earlier⟩ := List.findIdx?_eq_some_iff_getElem.mp found
    have located := lineBoundaries_getElem? data j (by omega)
    rw [List.getElem?_eq_getElem bound] at located
    refine ⟨Option.some.inj located ▸ of_decide_eq_true reached, ?_⟩
    intro k past
    by_contra before
    have less : k < j := by omega
    have there := lineBoundaries_getElem? data k (by omega)
    rw [List.getElem?_eq_getElem (by omega)] at there
    exact earlier k less (decide_eq_true (Option.some.inj there ▸ past))

theorem toLinesAndBack_hull (data : Data) (span : Span) (some_byte : span.start < span.stop)
    (fits : span.stop ≤ data.bytes.length) :
    ∃ hull, toLinesAndBack data span = some hull ∧ LineHull data span hull := by
  obtain ⟨starts, latest⟩ := spanToLines_first data span
  obtain ⟨ends, earliest⟩ := spanToLines_last data span some_byte fits
  obtain ⟨ordered, last⟩ := spanToLines_range data span
  refine ⟨_, toLinesAndBack_eq data span, lineSpan_aligned data _ _ (by omega) last, ⟨starts, ends⟩, ?_⟩
  intro other aligned around
  obtain ⟨i, iInside, iStarts⟩ := (mem_lineBoundaries data _).mp aligned.1
  obtain ⟨j, _, jStarts⟩ := (mem_lineBoundaries data _).mp aligned.2
  have before : i ≤ (spanToLines data span).1 := latest i iInside (iStarts ▸ around.1)
  have after : (spanToLines data span).2 ≤ j := earliest j (jStarts ▸ around.2)
  exact ⟨iStarts ▸ lineStart_mono data _ _ before, jStarts ▸ lineStart_mono data _ _ after⟩

/-- Boundaries rise from 0 to the length, one more than there are lines. Lines come back from
bytes as they were, and bytes from lines as the least span on boundaries around them. -/
theorem coordinates_inverse (data : Data) :
    ((lineBoundaries data).Pairwise (· < ·) ∧ (lineBoundaries data).head? = some 0 ∧
      (lineBoundaries data).getLast? = some data.bytes.length ∧
      (lineBoundaries data).length = data.lineCount + 1) ∧
    (∀ a b, a ≤ b → b ≤ data.lineCount →
      ∃ span, linesToSpan data a b = some span ∧ spanToLines data span = (a, b)) ∧
    (∀ span, span.start < span.stop → span.stop ≤ data.bytes.length →
      ∃ hull, toLinesAndBack data span = some hull ∧ LineHull data span hull ∧
        (hull = span ↔ LineAligned data span) ∧ toLinesAndBack data hull = some hull) := by
  have count := lineBoundaries_count data
  refine ⟨⟨lineBoundaries_ascending data, rfl, ?_, count⟩, ?_, ?_⟩
  · rw [List.getLast?_eq_getElem?, count, Nat.add_sub_cancel, lineBoundaries_getElem? data _ (Nat.le_refl _),
      lineStart_lineCount]
  · intro a b ordered last
    exact ⟨_, linesToSpan_eq data a b (by omega) last, spanToLines_lineSpan data a b ordered last⟩
  · intro span some_byte fits
    obtain ⟨hull, there, is_hull⟩ := toLinesAndBack_hull data span some_byte fits
    refine ⟨hull, there, is_hull, is_hull.eq_iff, ?_⟩
    have around := is_hull.around
    have inside := le_length_of_mem_lineBoundaries data _ is_hull.aligned.2
    obtain ⟨again, twice, still⟩ := toLinesAndBack_hull data hull
      (around.1.trans_lt (some_byte.trans_le around.2)) inside
    rw [twice, still.eq_iff.mpr is_hull.aligned]

end GitAnchor.Anchoring
