import GitAnchor.Anchoring.Placement

/-! A file whose clean-filtered bytes are the blob of `HEAD`, captured from the commit and from
the working tree. The second capture reads the disk as it is, so the two coincide exactly where
the range is at the same bytes of both texts. -/

namespace GitAnchor.Anchoring
open GitAnchor.Foundation GitAnchor.Substrate
variable {ObjectId : Type} [DecidableEq ObjectId] {gix : Gix ObjectId}

/-- The clean filter makes the blob of `HEAD` at `path` of what is on disk there. -/
structure Unmodified (repo : Repository gix) (clean : Data → Data) (path : String) (commit : ObjectId)
    (disk : Data) : Prop where
  resolved : resolveCommit repo "HEAD" = .ok commit
  entry : ∃ root found, treeOf repo commit = .ok root ∧ lookupEntry repo root path = .ok (some found) ∧
    found.mode.isBlob = true ∧ readBlob repo found.oid = .ok (clean disk)
  file : ∃ workdir, repo.workdir = some workdir ∧ workdir.isFile path = true ∧ workdir.read path = some disk

/-- The same anchor both ways, or a range that is refused both ways. -/
def Coincide (repo : Repository gix) (path : String) (lines : Option LineRange) : Prop :=
  (∃ anchor written, capture repo "HEAD" path lines = .ok anchor ∧
      captureWorktree repo path lines = .ok (anchor, written)) ∨
    ∃ start stop len len', capture repo "HEAD" path lines = .error (.linesOutOfRange path start stop len) ∧
      captureWorktree repo path lines = .error (.linesOutOfRange path start stop len')

/-! The range in one text. -/

/-- The text has the lines. -/
def Fits (content : Data) : Option LineRange → Prop
  | some range => 1 ≤ range.start ∧ range.start - 1 ≤ range.stop ∧ range.stop ≤ content.lineCount
  | none => True

/-- Where the lines are in the text. -/
def anchoredSpan (content : Data) (lines : Option LineRange) : Span :=
  content.lineSpan (anchoredLines content lines).1 (anchoredLines content lines).2

def anchoredText (content : Data) (lines : Option LineRange) : Bytes :=
  content.lineText (anchoredLines content lines).1 (anchoredLines content lines).2

omit [DecidableEq ObjectId] in
theorem spanFor_of_fits (content : Data) (path : String) (lines : Option LineRange) (fits : Fits content lines) :
    (spanFor content path lines : Result ObjectId Span) = .ok (anchoredSpan content lines) := by
  cases lines with
  | none => exact congrArg Except.ok (whole_eq_lineSpan content)
  | some range =>
    obtain ⟨positive, ordered, last⟩ := fits
    have count := lineBoundaries_count content
    have taken : ∃ span, (spanFor content path (some range) : Result ObjectId Span) = .ok span := by
      simp only [spanFor, byteSpanOf, checkedSub, if_pos positive]
      rw [dif_pos ⟨ordered, by omega⟩]
      exact ⟨_, rfl⟩
    obtain ⟨span, ok⟩ := taken
    obtain ⟨_, _, same⟩ := spanFor_ok content path (some range) span ok
    rw [ok, same]
    rfl

omit [DecidableEq ObjectId] in
variable (ObjectId) in
theorem spanFor_of_not_fits (content : Data) (path : String) (lines : Option LineRange) (out : ¬ Fits content lines) :
    ∃ range, lines = some range ∧ (spanFor content path lines : Result ObjectId Span) =
      .error (.linesOutOfRange path range.start range.stop content.lineCount) := by
  cases lines with
  | none => exact absurd trivial out
  | some range =>
    have count := lineBoundaries_count content
    have length : (lineBoundaries content).length - 1 = content.lineCount := by omega
    refine ⟨range, rfl, ?_⟩
    simp only [spanFor, byteSpanOf, checkedSub, length]
    by_cases positive : 1 ≤ range.start
    · rw [if_pos positive]
      dsimp only
      rw [dif_neg]
      rintro ⟨ordered, last⟩
      exact out ⟨positive, ordered, last⟩
    · rw [if_neg positive]

omit [DecidableEq ObjectId] in
theorem hintsFor_anchoredSpan (content : Data) (lines : Option LineRange) (fits : Fits content lines) :
    hintsFor content (anchoredSpan content lines) = ⟨[captureFingerprint (anchoredText content lines)], []⟩ := by
  have ordered : (anchoredLines content lines).1 ≤ (anchoredLines content lines).2 := by
    cases lines with
    | none => exact Nat.zero_le _
    | some range => exact fits.2.1
  rw [hintsFor, anchoredSpan, slice_lineSpan content _ _ ordered]
  rfl

/-! The two captures. -/

/-- The anchor of a range of a text. -/
def anchorOf (commit : ObjectId) (path : String) (content : Data) (span : Span) : Anchor ObjectId :=
  ⟨⟨commit, path, span⟩, hintsFor content span⟩

section Captures
variable {repo : Repository gix} {clean : Data → Data} {path : String} {commit : ObjectId} {disk : Data}

omit [DecidableEq ObjectId] in
theorem capture_unmodified (unmodified : Unmodified repo clean path commit disk) (lines : Option LineRange) :
    capture repo "HEAD" path lines =
      (spanFor (clean disk) path lines).map (anchorOf commit path (clean disk)) := by
  obtain ⟨root, found, rooted, looked, isBlob, read⟩ := unmodified.entry
  unfold capture
  rw [unmodified.resolved, Result.ok_bind, rooted, Result.ok_bind, looked, Result.ok_bind, found.kept_of_isBlob isBlob]
  dsimp only
  rw [read, Result.ok_bind]
  cases (spanFor (clean disk) path lines : Result ObjectId Span) <;> rfl

theorem captureWorktree_unmodified (unmodified : Unmodified repo clean path commit disk) (lines : Option LineRange) :
    captureWorktree repo path lines = (spanFor disk path lines >>= fun span =>
      (repo.writeBlob disk).mapError .object >>= fun written => pure (anchorOf commit path disk span, written)) := by
  obtain ⟨workdir, standing, isFile, read⟩ := unmodified.file
  unfold captureWorktree
  rw [standing]
  dsimp only
  rw [unmodified.resolved, Result.ok_bind, if_pos isFile, read]
  rfl

theorem captureWorktree_of_fits (unmodified : Unmodified repo clean path commit disk) (lines : Option LineRange)
    (fits : Fits disk lines) (writable : repo.readOnly = none) :
    ∃ written, captureWorktree repo path lines = .ok (anchorOf commit path disk (anchoredSpan disk lines), written) := by
  rw [captureWorktree_unmodified unmodified, spanFor_of_fits disk path lines fits, Result.ok_bind]
  unfold Repository.writeBlob
  rw [writable]
  exact ⟨_, rfl⟩

theorem captureWorktree_of_readOnly (unmodified : Unmodified repo clean path commit disk) (lines : Option LineRange)
    (fits : Fits disk lines) (failure : String) (refused : repo.readOnly = some failure) :
    captureWorktree repo path lines = .error (.object failure) := by
  rw [captureWorktree_unmodified unmodified, spanFor_of_fits disk path lines fits, Result.ok_bind]
  unfold Repository.writeBlob
  rw [refused]
  rfl

omit [DecidableEq ObjectId] in
theorem anchorOf_eq_iff (stored : Data) (lines : Option LineRange) (fits : Fits disk lines)
    (stored_fits : Fits stored lines) :
    anchorOf commit path disk (anchoredSpan disk lines) = anchorOf commit path stored (anchoredSpan stored lines) ↔
      anchoredSpan disk lines = anchoredSpan stored lines ∧
        captureFingerprint (anchoredText disk lines) = captureFingerprint (anchoredText stored lines) := by
  rw [anchorOf, anchorOf, hintsFor_anchoredSpan disk lines fits, hintsFor_anchoredSpan stored lines stored_fits]
  simp

/-- Both captures give one result exactly when the range fits both texts or neither and, where
it fits, the blob can be written and the two texts have the range at the same bytes, with one
fingerprint. -/
theorem captures_coincide_iff (unmodified : Unmodified repo clean path commit disk) (lines : Option LineRange) :
    Coincide repo path lines ↔ (Fits disk lines ↔ Fits (clean disk) lines) ∧
      (Fits (clean disk) lines → repo.readOnly = none ∧ anchoredSpan disk lines = anchoredSpan (clean disk) lines ∧
        captureFingerprint (anchoredText disk lines) = captureFingerprint (anchoredText (clean disk) lines)) := by
  unfold Coincide
  rw [capture_unmodified unmodified]
  by_cases stored_fits : Fits (clean disk) lines
  · rw [spanFor_of_fits _ path lines stored_fits]
    by_cases disk_fits : Fits disk lines
    · cases writable : repo.readOnly with
      | some failure =>
        rw [captureWorktree_of_readOnly unmodified lines disk_fits failure writable]
        refine iff_of_false ?_ ?_
        · rintro (⟨anchor, written, _, took⟩ | ⟨_, _, _, _, failed, _⟩)
          · cases took
          · cases failed
        · rintro ⟨_, same⟩
          cases (same stored_fits).1
      | none =>
        obtain ⟨written, took⟩ := captureWorktree_of_fits unmodified lines disk_fits writable
        rw [took]
        constructor
        · rintro (⟨anchor, written', captured, same⟩ | ⟨_, _, _, _, failed, _⟩)
          · have one := (Prod.mk.inj (Except.ok.inj same)).1.trans (Except.ok.inj captured).symm
            refine ⟨iff_of_true disk_fits stored_fits, fun _ => ⟨rfl, ?_⟩⟩
            exact (anchorOf_eq_iff (clean disk) lines disk_fits stored_fits).mp one
          · cases failed
        · rintro ⟨_, same⟩
          have one : anchorOf commit path disk (anchoredSpan disk lines) =
              anchorOf commit path (clean disk) (anchoredSpan (clean disk) lines) :=
            (anchorOf_eq_iff (clean disk) lines disk_fits stored_fits).mpr (same stored_fits).2
          exact .inl ⟨_, written, rfl, by rw [one]⟩
    · obtain ⟨range, _, refused⟩ := spanFor_of_not_fits ObjectId disk path lines disk_fits
      rw [captureWorktree_unmodified unmodified, refused]
      refine iff_of_false ?_ ?_
      · rintro (⟨anchor, written, _, took⟩ | ⟨_, _, _, _, failed, _⟩)
        · cases took
        · cases failed
      · rintro ⟨same, _⟩
        exact disk_fits (same.mpr stored_fits)
  · obtain ⟨range, wanted, refused⟩ := spanFor_of_not_fits ObjectId (clean disk) path lines stored_fits
    rw [refused]
    by_cases disk_fits : Fits disk lines
    · refine iff_of_false ?_ ?_
      · rintro (⟨anchor, written, took, _⟩ | ⟨_, _, _, _, _, failed⟩)
        · cases took
        · cases writable : repo.readOnly with
          | some failure =>
            rw [captureWorktree_of_readOnly unmodified lines disk_fits failure writable] at failed
            cases failed
          | none =>
            obtain ⟨written, took⟩ := captureWorktree_of_fits unmodified lines disk_fits writable
            rw [took] at failed
            cases failed
      · rintro ⟨same, _⟩
        exact stored_fits (same.mp disk_fits)
    · obtain ⟨range', wanted', refused'⟩ := spanFor_of_not_fits ObjectId disk path lines disk_fits
      obtain rfl := Option.some.inj (wanted.symm.trans wanted')
      rw [captureWorktree_unmodified unmodified, refused']
      refine iff_of_true (.inr ⟨_, _, _, _, rfl, rfl⟩) ⟨iff_of_false disk_fits stored_fits, ?_⟩
      exact fun fits => absurd fits stored_fits

end Captures

section Sample

/-- A clean filter that stores line ends as they are without carriage returns. -/
def dropReturns : Bytes → Bytes
  | 13 :: 10 :: rest => 10 :: dropReturns rest
  | byte :: rest => byte :: dropReturns rest
  | [] => []

theorem dropReturns_length (bytes : Bytes) : (dropReturns bytes).length ≤ bytes.length := by
  fun_induction dropReturns bytes with
  | case1 rest ih =>
    simp only [List.length_cons]
    omega
  | case2 byte rest _ ih =>
    simp only [List.length_cons]
    omega
  | case3 => exact Nat.le_refl _

def cleanReturns (disk : Data) : Data := ⟨dropReturns disk.bytes, (dropReturns_length disk.bytes).trans disk.fits⟩

/-- The two lines of `HEAD` as they are on disk. -/
def returnedLines : Data := ⟨[97, 13, 10, 98, 13, 10], by decide⟩

def checkedOut (disk : Data) : Repository plainGix := plainRepository plainRevisions [("file.txt", disk)]

theorem unmodified_checkedOut (clean : Data → Data) (disk : Data) (stored : clean disk = twoLines) :
    Unmodified (checkedOut disk) clean "file.txt" (.commit [("file.txt", twoLines)]) disk :=
  { resolved := rfl
    entry := ⟨.tree [("file.txt", twoLines)], ⟨.blob, .blob twoLines⟩, rfl, rfl, rfl, by rw [stored]; rfl⟩
    file := ⟨_, rfl, rfl, rfl⟩ }

/-- The same two lines, only the second with a carriage return. -/
def mixedLines : Data := ⟨[97, 10, 98, 13, 10], by decide⟩

/-- Where the filter changes bytes only below the lines, the captures coincide. -/
theorem captures_coincide_plain :
    cleanReturns mixedLines ≠ mixedLines ∧ Coincide (checkedOut mixedLines) "file.txt" (some ⟨1, 1⟩) := by
  have stored : cleanReturns mixedLines = twoLines := by decide
  refine ⟨by decide, (captures_coincide_iff (unmodified_checkedOut cleanReturns mixedLines stored) (some ⟨1, 1⟩)).mpr ?_⟩
  have fits : Fits mixedLines (some ⟨1, 1⟩) := ⟨by decide, by decide, by decide +kernel⟩
  have fits' : Fits (cleanReturns mixedLines) (some ⟨1, 1⟩) := ⟨by decide, by decide, by decide +kernel⟩
  exact ⟨iff_of_true fits fits', fun _ => ⟨rfl, by decide +kernel, by decide +kernel⟩⟩

/-- With carriage returns on disk, the second line is at other bytes there. -/
theorem captures_differ_returns :
    Unmodified (checkedOut returnedLines) cleanReturns "file.txt" (.commit [("file.txt", twoLines)]) returnedLines ∧
      ¬ Coincide (checkedOut returnedLines) "file.txt" (some ⟨2, 2⟩) := by
  have unmodified := unmodified_checkedOut cleanReturns returnedLines (by decide)
  refine ⟨unmodified, ?_⟩
  rintro (⟨anchor, written, captured, took⟩ | ⟨_, _, _, _, failed, _⟩)
  · have stored : (capture (checkedOut returnedLines) "HEAD" "file.txt" (some ⟨2, 2⟩)).map (fun a => a.identity.span) =
        .ok ⟨2, 4⟩ := by decide +kernel
    have read : (captureWorktree (checkedOut returnedLines) "file.txt" (some ⟨2, 2⟩)).map (fun a => a.1.identity.span) =
        .ok ⟨3, 6⟩ := by decide +kernel
    rw [captured] at stored
    rw [took] at read
    exact absurd ((Except.ok.inj stored).symm.trans (Except.ok.inj read)) (by decide)
  · have taken : (capture (checkedOut returnedLines) "HEAD" "file.txt" (some ⟨2, 2⟩)).isOk = true := by decide +kernel
    rw [failed] at taken
    cases taken

end Sample

end GitAnchor.Anchoring
