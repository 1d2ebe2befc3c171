import GitAnchor.Anchoring.Capture

/-! The diff-trace oracle: an anchor is followed to a target revision by one tree diff, and
its span by the line diff of the two blobs. -/

namespace GitAnchor.Anchoring
open GitAnchor.Foundation GitAnchor.Substrate

inductive Oracle where
  | opLog | diffTrace | fingerprint
deriving DecidableEq

/-- One place an anchor might sit on a target revision. -/
structure Candidate where
  oracle : Oracle
  confidence : Rat
  path : String
  span : Option Span
deriving DecidableEq

variable {ObjectId : Type}

/-- The loop over the hunks: what those above the lines insert and delete, or none when one
touches the lines. -/
def shifts (startLine endLine : Nat) : List Hunk → Nat → Nat → Option (Nat × Nat)
  | [], added, removed => some (added, removed)
  | hunk :: later, added, removed =>
      if hunk.before.stop ≤ startLine then do
        let removed ← checkedAdd removed (← checkedSub hunk.before.stop hunk.before.start)
        let added ← checkedAdd added (← checkedSub hunk.after.stop hunk.after.start)
        shifts startLine endLine later added removed
      else if endLine ≤ hunk.before.start then some (added, removed)
      else none

def shiftLine (added removed line : Nat) : Option Nat := do
  checkedSub (← checkedAdd line added) removed

/-- The span of `new` that `span` of `old` becomes. -/
def mapSpan (gix : Gix ObjectId) (old new : Data) (span : Span) : Option Span := do
  let (startLine, endLine) := spanToLines old span
  if endLine < startLine then none
  else if (linesWithTerminator old).length < endLine then none
  else do
    let (added, removed) ← shifts startLine endLine
      (gix.hunks (linesWithTerminator old) (linesWithTerminator new)) 0 0
    linesToSpan new (← shiftLine added removed startLine) (← shiftLine added removed endLine)

/-- Where the changes lead the file at `path`: the first that removes, modifies or renames
it decides. -/
def destination (path : String) : List (Change ObjectId) → Option (String × ObjectId × Bool)
  | [] => none
  | .deletion location :: later => if location = path then none else destination path later
  | .modification location id mode :: later =>
      if location = path then some (path, id, mode.isBlob) else destination path later
  | .rewrite source location id mode copy :: later =>
      if copy = false ∧ source = path then some (location, id, mode.isBlob) else destination path later
  | .addition _ :: later => destination path later

def candidate (path : String) (span : Option Span) : Candidate :=
  { oracle := .diffTrace, confidence := 1, path := path, span := span }

variable {gix : Gix ObjectId} [DecidableEq ObjectId]

def diffTraceOnto (repo : Repository gix) (anchor : Anchor ObjectId) (targetTree : ObjectId) :
    Result ObjectId (List Candidate) :=
  if repo.hasObject anchor.identity.genesisRev then do
    let anchorCommit ← commitAt repo anchor.identity.genesisRev
    let anchorTree ← treeOf repo anchorCommit
    let anchorBlob ← blobAt repo anchorTree anchor.identity.path
    match anchorBlob with
    | none => return []
    | some anchorBlob => do
        let entry ← lookupEntry repo targetTree anchor.identity.path
        if entry.any (fun found => found.mode.isBlob ∧ found.oid = anchorBlob) then
          return [candidate anchor.identity.path (some anchor.identity.span)]
        else do
          let changes ← (repo.diffTreeToTree anchorTree targetTree).mapError .diff
          match destination anchor.identity.path changes with
          | none => return []
          | some (path, blob, isBlob) =>
              if isBlob = false then return []
              else if blob = anchorBlob then return [candidate path (some anchor.identity.span)]
              else do
                let oldBytes ← readBlob repo anchorBlob
                let newBytes ← readBlob repo blob
                match mapSpan gix oldBytes newBytes anchor.identity.span with
                | some mapped => return [candidate path (some mapped)]
                | none => return []
  else return []

/-- The candidates of the diff-trace oracle for `anchor` at the revision `target`. -/
def diffTrace (repo : Repository gix) (anchor : Anchor ObjectId) (target : String) :
    Result ObjectId (List Candidate) := do
  let targetCommit ← resolveCommit repo target
  let targetTree ← treeOf repo targetCommit
  diffTraceOnto repo anchor targetTree

/-! The loop over the hunks. -/

section Hunks
variable {i j : Nat} {olds news : List Bytes} {hunks : List Hunk}

/-- Where no hunk touches the lines, the loop counts what the hunks above them insert and
delete; the sums fit a `u64`. -/
theorem shifts_untouched (script : Script i j olds news hunks) (startLine endLine added removed : Nat)
    (untouched : ∀ hunk ∈ hunks, ¬ hunk.Touches startLine endLine)
    (adds : added + news.length ≤ U64_MAX) (removes : removed + olds.length ≤ U64_MAX) :
    shifts startLine endLine hunks added removed =
      some (added + inserted startLine hunks, removed + deleted startLine hunks) := by
  induction script generalizing added removed with
  | rest => rfl
  | hunk i j same cut put olds news later script ih =>
    simp only [List.length_append] at adds removes
    have apart := untouched _ List.mem_cons_self
    simp only [Hunk.Touches] at apart
    unfold shifts
    by_cases past : i + same.length + cut.length ≤ startLine
    · have removing : checkedAdd removed cut.length = some (removed + cut.length) :=
        checkedAdd_of_le _ _ (by omega)
      have adding : checkedAdd added put.length = some (added + put.length) :=
        checkedAdd_of_le _ _ (by omega)
      rw [if_pos past, checkedSub_of_le _ _ (Nat.le_add_right _ _),
        checkedSub_of_le _ _ (Nat.le_add_right _ _), Nat.add_sub_cancel_left, Nat.add_sub_cancel_left]
      simp only [Option.bind_eq_bind, Option.bind_some, removing, adding]
      rw [ih _ _ (fun hunk member => untouched hunk (List.mem_cons_of_mem _ member)) (by omega) (by omega),
        inserted_above _ _ later past, deleted_above _ _ later past]
      simp only [Range.length, Option.some.injEq, Prod.mk.injEq]
      omega
    · have under : endLine ≤ i + same.length := by omega
      have ends : ∀ hunk ∈ (⟨⟨i + same.length, i + same.length + cut.length⟩,
          ⟨j + same.length, j + same.length + put.length⟩⟩ : Hunk) :: later, startLine < hunk.before.stop := by
        intro hunk member
        rcases List.mem_cons.mp member with rfl | further
        · exact Nat.lt_of_not_le past
        · exact script.later_below (by omega) hunk further
      rw [if_neg past, if_pos under, (nothing_below _ _ ends).1, (nothing_below _ _ ends).2]
      rfl

/-- A hunk that touches the lines ends the loop without a result. -/
theorem shifts_touched (script : Script i j olds news hunks) (startLine endLine added removed : Nat)
    (touched : ∃ hunk ∈ hunks, hunk.Touches startLine endLine) :
    shifts startLine endLine hunks added removed = none := by
  induction script generalizing added removed with
  | rest =>
    obtain ⟨hunk, member, _⟩ := touched
    cases member
  | hunk i j same cut put olds news later script ih =>
    obtain ⟨hunk, member, begins, ends⟩ := touched
    unfold shifts
    by_cases past : i + same.length + cut.length ≤ startLine
    · rw [if_pos past]
      rcases List.mem_cons.mp member with rfl | further
      · simp only at ends
        omega
      · simp only [Option.bind_eq_bind, Option.bind_eq_none_iff]
        intro _ _ _ _ _ _ _ _
        exact ih _ _ ⟨hunk, further, begins, ends⟩
    · rw [if_neg past]
      have reaches : i + same.length < endLine := by
        rcases List.mem_cons.mp member with rfl | further
        · exact begins
        · have found := script.ranges hunk further
          omega
      rw [if_neg (Nat.not_le.mpr reaches)]

end Hunks

/-! What `mapSpan` returns. -/

/-- The hunks between two blobs. -/
def Gix.hunksOf (gix : Gix ObjectId) (old new : Data) : List Hunk :=
  gix.hunks (linesWithTerminator old) (linesWithTerminator new)

/-- Some hunk touches the lines that `span` covers in `old`. -/
def Touched (gix : Gix ObjectId) (old new : Data) (span : Span) : Prop :=
  ∃ hunk ∈ gix.hunksOf old new, hunk.Touches (spanToLines old span).1 (spanToLines old span).2

omit [DecidableEq ObjectId] in
theorem mapSpan_touched (gix : Gix ObjectId) (old new : Data) (span : Span)
    (touched : Touched gix old new span) : mapSpan gix old new span = none := by
  unfold mapSpan
  split
  next startLine endLine covered =>
  rw [Touched, covered] at touched
  split
  · rfl
  · split
    · rfl
    · have ended : shifts startLine endLine (gix.hunks (linesWithTerminator old) (linesWithTerminator new)) 0 0 =
          none := shifts_touched (gix.hunks_script _ _) startLine endLine 0 0 touched
      rw [ended]
      rfl

/-- A line is shifted as the lines above it are. -/
theorem shiftLine_moved (added removed front start line : Nat) (balanced : front + removed = start + added)
    (low : start ≤ line) (fits : line + added ≤ U64_MAX) :
    shiftLine added removed line = some (front + (line - start)) := by
  unfold shiftLine
  rw [checkedAdd_of_le _ _ fits]
  simp only [Option.bind_eq_bind, Option.bind_some]
  rw [checkedSub_of_le _ _ (by omega)]
  congr 1
  omega

omit [DecidableEq ObjectId] in
/-- Where no hunk touches the lines that the span covers, the new blob has these lines after
those that the hunks above them leave, and the span becomes theirs. -/
theorem mapSpan_moved (gix : Gix ObjectId) (old new : Data) (span : Span)
    (untouched : ¬ Touched gix old new span) : ∃ front back,
      linesWithTerminator new = front ++
        ((linesWithTerminator old).take (spanToLines old span).2).drop (spanToLines old span).1 ++ back ∧
      front.length + deleted (spanToLines old span).1 (gix.hunksOf old new) =
        (spanToLines old span).1 + inserted (spanToLines old span).1 (gix.hunksOf old new) ∧
      mapSpan gix old new span = some (new.lineSpan front.length
        (front.length + ((spanToLines old span).2 - (spanToLines old span).1))) := by
  obtain ⟨ordered, inside⟩ := spanToLines_range old span
  generalize covered : spanToLines old span = lines at ordered inside ⊢
  obtain ⟨startLine, endLine⟩ := lines
  simp only at ordered inside ⊢
  have script := gix.hunks_script (linesWithTerminator old) (linesWithTerminator new)
  have apart : ∀ hunk ∈ gix.hunks (linesWithTerminator old) (linesWithTerminator new),
      ¬ hunk.Touches startLine endLine := by
    intro hunk member touches
    exact untouched ⟨hunk, member, by rw [covered]; exact touches⟩
  -- every count of lines is bounded by a length in bytes, so the sums stay below 2^64
  have few : old.lineCount ≤ ISIZE_MAX := Nat.le_trans (lineCount_le old) old.fits
  have fewer : new.lineCount ≤ ISIZE_MAX := Nat.le_trans (lineCount_le new) new.fits
  simp only [Data.lineCount, ISIZE_MAX] at few fewer inside
  have counted := shifts_untouched script startLine endLine 0 0 apart
    (by simp only [U64_MAX]; omega) (by simp only [U64_MAX]; omega)
  rw [Nat.zero_add, Nat.zero_add] at counted
  have split : linesWithTerminator old = (linesWithTerminator old).take startLine ++
      ((linesWithTerminator old).take endLine).drop startLine ++ (linesWithTerminator old).drop endLine := by
    rw [Offsets.take_cut _ startLine endLine ordered, List.take_append_drop]
  have above : ((linesWithTerminator old).take startLine).length = startLine := by
    rw [List.length_take]
    omega
  have kept : (((linesWithTerminator old).take endLine).drop startLine).length = endLine - startLine := by
    rw [List.length_drop, List.length_take]
    omega
  obtain ⟨front, back, moved, balanced⟩ := script.survives _ _ _ split (by
    rw [Nat.zero_add, above, kept, Nat.add_sub_of_le ordered]
    exact apart)
  rw [Nat.zero_add, above] at balanced
  have totals := script.totals startLine
  have size : (linesWithTerminator new).length = front.length + (endLine - startLine) + back.length := by
    rw [moved, List.length_append, List.length_append, kept]
  have shifted (line : Nat) (low : startLine ≤ line) (high : line ≤ endLine) :
      shiftLine (inserted startLine (gix.hunks (linesWithTerminator old) (linesWithTerminator new)))
        (deleted startLine (gix.hunks (linesWithTerminator old) (linesWithTerminator new))) line =
        some (front.length + (line - startLine)) :=
    shiftLine_moved _ _ front.length startLine line balanced low (by simp only [U64_MAX]; omega)
  refine ⟨front, back, moved, balanced, ?_⟩
  unfold mapSpan
  rw [covered]
  simp only
  rw [if_neg (by omega), if_neg (by omega), counted]
  simp only [Option.bind_eq_bind, Option.bind_some, shifted startLine (Nat.le_refl _) ordered,
    shifted endLine ordered (Nat.le_refl _), Nat.sub_self, Nat.add_zero]
  apply linesToSpan_eq
  · unfold Data.lineCount
    omega
  · unfold Data.lineCount
    omega

omit [DecidableEq ObjectId] in
/-- Where no hunk touches the lines that the span covers, the span is mapped, and what it
names in the new blob is those lines. -/
theorem mapSpan_untouched (gix : Gix ObjectId) (old new : Data) (span : Span)
    (untouched : ¬ Touched gix old new span) : ∃ mapped, mapSpan gix old new span = some mapped ∧
      mapped.slice new = some (old.lineText (spanToLines old span).1 (spanToLines old span).2) := by
  obtain ⟨front, back, moved, _, mapping⟩ := mapSpan_moved gix old new span untouched
  obtain ⟨ordered, inside⟩ := spanToLines_range old span
  generalize spanToLines old span = lines at ordered inside moved mapping ⊢
  obtain ⟨startLine, endLine⟩ := lines
  simp only at ordered inside moved mapping ⊢
  have kept : (((linesWithTerminator old).take endLine).drop startLine).length = endLine - startLine := by
    rw [List.length_drop, List.length_take]
    unfold Data.lineCount at inside
    omega
  refine ⟨_, mapping, ?_⟩
  rw [slice_lineSpan new _ _ (Nat.le_add_right _ _), Data.lineText, moved, Data.lineText]
  have upto : (front ++ ((linesWithTerminator old).take endLine).drop startLine ++ back).take
      (front.length + (endLine - startLine)) = front ++ ((linesWithTerminator old).take endLine).drop startLine := by
    rw [← kept, ← List.length_append, List.take_left]
  rw [upto, List.drop_left]

omit [DecidableEq ObjectId] in
/-- The result is none exactly when a hunk touches the lines: no shift underflows, and the
lines it leads to are there. -/
theorem mapSpan_eq_none_iff (gix : Gix ObjectId) (old new : Data) (span : Span) :
    mapSpan gix old new span = none ↔ Touched gix old new span := by
  by_cases touched : Touched gix old new span
  · exact iff_of_true (mapSpan_touched gix old new span touched) touched
  · obtain ⟨mapped, found, _⟩ := mapSpan_untouched gix old new span touched
    rw [found]
    exact iff_of_false (Option.some_ne_none mapped) touched

end GitAnchor.Anchoring
