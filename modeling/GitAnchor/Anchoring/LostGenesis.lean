import GitAnchor.Anchoring.Plain
import GitAnchor.Anchoring.Validity

/-! Positions whose commit is gone. Only the fingerprint is left then, and it keeps no more of a
text than the least hashes of its shingles: a target is called valid where some window has them. -/

namespace GitAnchor.Anchoring
open GitAnchor.Foundation GitAnchor.Substrate
variable {ObjectId : Type} [DecidableEq ObjectId] {gix : Gix ObjectId}

/-- The repository can read the blob at `path` in `commit`. -/
def ReadsAt (repo : Repository gix) (commit : ObjectId) (path : String) (data : Data) : Prop :=
  ∃ root entry, treeOf repo commit = .ok root ∧ lookupEntry repo root path = .ok (some entry) ∧
    entry.mode.isBlob = true ∧ readBlob repo entry.oid = .ok data

/-- The text is in the blob, from a line boundary on. -/
def StandsIn (text : Bytes) (data : Data) : Prop :=
  ∃ start ∈ lineBoundaries data, (⟨start, start + text.length⟩ : Span).slice data = some text

/-- Bytes of the blob as many as the text, from a line boundary on, have the text's fingerprint. -/
def LooksLike (text : Bytes) (data : Data) : Prop :=
  ∃ start ∈ lineBoundaries data, ∃ window, (⟨start, start + text.length⟩ : Span).slice data = some window ∧
    minhashShingle window SHINGLE_LEN NUM_HASHES = minhashShingle text SHINGLE_LEN NUM_HASHES

omit [DecidableEq ObjectId] in
theorem readsAt_unique (repo : Repository gix) (commit : ObjectId) (path : String) (data data' : Data)
    (reads : ReadsAt repo commit path data) (reads' : ReadsAt repo commit path data') : data = data' := by
  obtain ⟨root, entry, rooted, looked, _, read⟩ := reads
  obtain ⟨root', entry', rooted', looked', _, read'⟩ := reads'
  obtain rfl := Except.ok.inj (rooted.symm.trans rooted')
  obtain rfl := Option.some.inj (Except.ok.inj (looked.symm.trans looked'))
  exact Except.ok.inj (read.symm.trans read')

/-- The anchor of a text, as a capture leaves it. -/
structure Remembers (anchor : Anchor ObjectId) (text : Bytes) : Prop where
  hints : anchor.hints = ⟨[captureFingerprint text], []⟩
  length : anchor.identity.span.stop - anchor.identity.span.start = text.length
  some_bytes : text ≠ []

/-- A window of the text's length is a sure candidate exactly when it has its fingerprint. -/
theorem windowCandidate_sure_iff (text : Bytes) (path : String) (data : Data) (start : Nat)
    (inside : start ≤ data.bytes.length) (narrow : text.length ≤ data.bytes.length) :
    (∃ candidate, windowCandidate MINHASH_SHINGLE_V2 (captureFingerprint text).value path data text.length start =
        some candidate ∧ 1 ≤ candidate.confidence) ↔
      ∃ window, (⟨start, start + text.length⟩ : Span).slice data = some window ∧
        minhashShingle window SHINGLE_LEN NUM_HASHES = minhashShingle text SHINGLE_LEN NUM_HASHES := by
  have bound := data.fits
  have fits : checkedAdd start text.length = some (start + text.length) :=
    checkedAdd_of_le _ _ (by simp only [ISIZE_MAX] at bound; simp only [U64_MAX]; omega)
  have algorithm (window : Bytes) : fingerprintFor MINHASH_SHINGLE_V2 window =
      some (minhashShingle window SHINGLE_LEN NUM_HASHES) := rfl
  have whole (window : Bytes) : 1 ≤ minhashSimilarity (minhashShingle window SHINGLE_LEN NUM_HASHES)
      (captureFingerprint text).value ↔
        minhashShingle window SHINGLE_LEN NUM_HASHES = minhashShingle text SHINGLE_LEN NUM_HASHES :=
    minhashSimilarity_ge_one_iff _ _ NUM_HASHES (by decide) (minhashShingle_length _ _ _) (minhashShingle_length _ _ _)
  unfold windowCandidate
  simp only [fits, Option.bind_eq_bind, Option.bind_some]
  cases sliced : (⟨start, start + text.length⟩ : Span).slice data with
  | none => simp
  | some window =>
    simp only [Option.bind_some, algorithm, Option.some.injEq, exists_eq_left']
    rw [← whole window]
    constructor
    · rintro ⟨candidate, found, sure⟩
      split at found
      · rw [← Option.some.inj found] at sure
        exact sure
      · cases found
    · intro sure
      have positive : 0 < minhashSimilarity (minhashShingle window SHINGLE_LEN NUM_HASHES)
          (captureFingerprint text).value := lt_of_lt_of_le (by decide) sure
      rw [if_pos positive]
      exact ⟨_, rfl, sure⟩

/-- The candidates of a blob: its windows of the text's length, where there are some. -/
def windowCandidates (text : Bytes) (path : String) (data : Data) : List Candidate :=
  if text.length = 0 ∨ data.bytes.length < text.length then []
  else List.filterMap (windowCandidate MINHASH_SHINGLE_V2 (captureFingerprint text).value path data text.length)
    (lineBoundaries data)

/-- One of them is sure exactly when the blob looks like the text. -/
theorem windowCandidates_sure_iff (text : Bytes) (path : String) (data : Data) (some_bytes : text ≠ []) :
    (∃ candidate ∈ windowCandidates text path data, 1 ≤ candidate.confidence) ↔ LooksLike text data := by
  have some_length := List.length_pos_of_ne_nil some_bytes
  unfold windowCandidates
  by_cases narrow : text.length ≤ data.bytes.length
  · rw [if_neg (by omega)]
    constructor
    · rintro ⟨candidate, member, sure⟩
      obtain ⟨start, boundary, found⟩ := List.mem_filterMap.mp member
      have inside := le_length_of_mem_lineBoundaries data start boundary
      exact ⟨start, boundary, (windowCandidate_sure_iff text path data start inside narrow).mp ⟨candidate, found, sure⟩⟩
    · rintro ⟨start, boundary, window⟩
      have inside := le_length_of_mem_lineBoundaries data start boundary
      obtain ⟨candidate, found, sure⟩ := (windowCandidate_sure_iff text path data start inside narrow).mpr window
      exact ⟨candidate, List.mem_filterMap.mpr ⟨start, boundary, found⟩, sure⟩
  · rw [if_pos (by omega)]
    refine iff_of_false (by simp) ?_
    rintro ⟨start, _, window, sliced, _⟩
    unfold Span.slice at sliced
    rw [if_neg (by dsimp only; omega)] at sliced
    cases sliced

omit [DecidableEq ObjectId] in
/-- A retained fingerprint is the reference, whatever is left of the commit. -/
theorem referenceFor_remembered (repo : Repository gix) (anchor : Anchor ObjectId) (text : Bytes)
    (remembers : Remembers anchor text) :
    referenceFor repo anchor = .ok (some (MINHASH_SHINGLE_V2, (captureFingerprint text).value)) := by
  unfold referenceFor
  rw [remembers.hints]
  rfl

omit [DecidableEq ObjectId] in
/-- What the oracle returns for a remembered text, once the target is resolved. -/
theorem fingerprint_remembered (repo : Repository gix) (anchor : Anchor ObjectId) (text : Bytes)
    (remembers : Remembers anchor text) (target : String) (commit : ObjectId)
    (resolved : resolveCommit repo target = .ok commit) :
    fingerprint repo anchor target = (do
      let root ← treeOf repo commit
      let found ← lookupEntry repo root anchor.identity.path
      match found.filter (·.mode.isBlob) with
      | none => return []
      | some entry => do
          let data ← readBlob repo entry.oid
          return windowCandidates text anchor.identity.path data) := by
  unfold fingerprint
  rw [referenceFor_remembered repo anchor text remembers, Result.ok_bind]
  dsimp only
  rw [resolved, Result.ok_bind, remembers.length]
  congr 1
  funext root
  congr 1
  funext found
  cases found.filter (fun entry => entry.mode.isBlob) with
  | none => rfl
  | some entry =>
    dsimp only
    congr 1
    funext data
    unfold windowCandidates
    split <;> rfl

omit [DecidableEq ObjectId] in
/-- What it returns where the target has a blob at the anchor's path. -/
theorem fingerprint_reads (repo : Repository gix) (anchor : Anchor ObjectId) (text : Bytes)
    (remembers : Remembers anchor text) (target : String) (commit : ObjectId)
    (resolved : resolveCommit repo target = .ok commit) (data : Data)
    (reads : ReadsAt repo commit anchor.identity.path data) :
    fingerprint repo anchor target = .ok (windowCandidates text anchor.identity.path data) := by
  obtain ⟨root, entry, rooted, looked, isBlob, read⟩ := reads
  rw [fingerprint_remembered repo anchor text remembers target commit resolved, rooted, Result.ok_bind, looked,
    Result.ok_bind, entry.kept_of_isBlob isBlob]
  dsimp only
  rw [read, Result.ok_bind]
  rfl

omit [DecidableEq ObjectId] in
/-- The oracle has a sure candidate exactly when the target's blob looks like the text. -/
theorem fingerprint_sure_iff (repo : Repository gix) (anchor : Anchor ObjectId) (text : Bytes)
    (remembers : Remembers anchor text) (target : String) (commit : ObjectId)
    (resolved : resolveCommit repo target = .ok commit) :
    (∃ found, fingerprint repo anchor target = .ok found ∧ ∃ candidate ∈ found, 1 ≤ candidate.confidence) ↔
      ∃ data, ReadsAt repo commit anchor.identity.path data ∧ LooksLike text data := by
  constructor
  · rintro ⟨found, ran, candidate, member, sure⟩
    rw [fingerprint_remembered repo anchor text remembers target commit resolved] at ran
    obtain ⟨root, rooted, ran⟩ := Result.bind_eq_ok.mp ran
    obtain ⟨entry, looked, ran⟩ := Result.bind_eq_ok.mp ran
    cases kept : entry.filter (fun entry => entry.mode.isBlob) with
    | none =>
      simp only [kept] at ran
      cases ran
      cases member
    | some entry' =>
      obtain ⟨there, isBlob⟩ := Option.filter_eq_some_iff.mp kept
      simp only [kept] at ran
      obtain ⟨data, read, ran⟩ := Result.bind_eq_ok.mp ran
      obtain rfl := Except.ok.inj ran
      exact ⟨data, ⟨root, entry', rooted, by rw [looked, there], isBlob, read⟩,
        (windowCandidates_sure_iff text _ data remembers.some_bytes).mp ⟨candidate, member, sure⟩⟩
  · rintro ⟨data, reads, like⟩
    obtain ⟨candidate, member, sure⟩ := (windowCandidates_sure_iff text anchor.identity.path data remembers.some_bytes).mpr like
    exact ⟨_, fingerprint_reads repo anchor text remembers target commit resolved data reads, candidate, member, sure⟩

/-- Without the commit there is nothing to trace. -/
theorem diffTrace_lost (repo : Repository gix) (anchor : Anchor ObjectId) (target : String) (commit : ObjectId)
    (resolved : resolveCommit repo target = .ok commit) (lost : repo.hasObject anchor.identity.genesisRev = false) :
    diffTrace repo anchor target = (treeOf repo commit).map (fun _ => []) := by
  unfold diffTrace diffTraceOnto
  rw [resolved, Result.ok_bind, lost]
  cases treeOf repo commit <;> rfl

/-- Once the commit is gone, a target is valid exactly when its blob looks like the text. -/
theorem positionValidity_lost (repo : Repository gix) (anchor : Anchor ObjectId) (text : Bytes)
    (remembers : Remembers anchor text) (target : String) (commit : ObjectId)
    (resolved : resolveCommit repo target = .ok commit) (lost : repo.hasObject anchor.identity.genesisRev = false) :
    positionValidity repo anchor target = .ok .valid ↔
      ∃ data, ReadsAt repo commit anchor.identity.path data ∧ LooksLike text data := by
  unfold positionValidity
  rw [diffTrace_lost repo anchor target commit resolved lost]
  cases rooted : treeOf repo commit with
  | error failure =>
    refine iff_of_false ?_ ?_
    · cases failure <;> simp [Except.map]
    · rintro ⟨data, ⟨root, entry, read, _⟩, _⟩
      rw [rooted] at read
      cases read
  | ok root =>
    rw [← fingerprint_sure_iff repo anchor text remembers target commit resolved]
    simp only [Except.map, ne_eq, not_true_eq_false, if_false, lost, if_true]
    cases searched : fingerprint repo anchor target with
    | error failure => cases failure <;> simp
    | ok found =>
      simp only [Except.ok.injEq, exists_eq_left']
      by_cases sure : found.any (fun candidate => 1 ≤ candidate.confidence) = true
      · rw [if_pos sure]
        simpa using sure
      · rw [if_neg sure]
        simpa using sure

theorem slice_length (data : Data) (span : Span) (text : Bytes) (sliced : span.slice data = some text) :
    text.length = span.stop - span.start := by
  unfold Span.slice at sliced
  split at sliced
  · next fits =>
    rw [← Option.some.inj sliced, List.length_drop, List.length_take]
    omega
  · cases sliced

omit [DecidableEq ObjectId] in
/-- The captured text is what the span names in the blob that the capture read. -/
theorem remembers_of_capture (captured : Repository gix) (revision path : String) (lines : Option LineRange)
    (anchor : Anchor ObjectId) (took : capture captured revision path lines = .ok anchor)
    (some_bytes : anchor.identity.span.start < anchor.identity.span.stop) :
    ∃ root blob content text, Captured gix anchor root blob content lines ∧
      anchor.identity.span.slice content = some text ∧ Remembers anchor text := by
  obtain ⟨_, _, root, blob, content, there⟩ := capture_ok captured revision path lines anchor took
  obtain ⟨ordered, _, whole⟩ := spanFor_ok content _ lines _ there.span
  have sliced := slice_lineSpan content _ _ ordered
  rw [← whole] at sliced
  have length := slice_length content anchor.identity.span _ sliced
  refine ⟨root, blob, content, _, there, sliced, ?_, length.symm, ?_⟩
  · rw [there.hints, hintsFor, sliced, Option.getD_some]
  · rintro empty
    rw [empty, List.length_nil] at length
    omega

/-- With its commit gone, an anchor is called valid only where its text stands, exactly when no
other window of the target's blob has the fingerprint, unless the text stands there as well. -/
theorem lost_genesis_iff (captured : Repository gix) (revision path : String) (lines : Option LineRange)
    (anchor : Anchor ObjectId) (took : capture captured revision path lines = .ok anchor)
    (some_bytes : anchor.identity.span.start < anchor.identity.span.stop) :
    ∃ root blob content text, Captured gix anchor root blob content lines ∧
      anchor.identity.span.slice content = some text ∧
      ∀ (repo : Repository gix) (target : String) (commit : ObjectId), resolveCommit repo target = .ok commit →
        repo.hasObject anchor.identity.genesisRev = false →
        ((positionValidity repo anchor target = .ok .valid →
            ∃ data, ReadsAt repo commit anchor.identity.path data ∧ StandsIn text data) ↔
          ∀ data, ReadsAt repo commit anchor.identity.path data → LooksLike text data → StandsIn text data) := by
  obtain ⟨root, blob, content, text, there, sliced, remembers⟩ :=
    remembers_of_capture captured revision path lines anchor took some_bytes
  refine ⟨root, blob, content, text, there, sliced, ?_⟩
  intro repo target commit resolved lost
  rw [positionValidity_lost repo anchor text remembers target commit resolved lost]
  constructor
  · intro stands data reads like
    obtain ⟨data', reads', standing⟩ := stands ⟨data, reads, like⟩
    rw [readsAt_unique repo commit _ data data' reads reads']
    exact standing
  · rintro stands ⟨data, reads, like⟩
    exact ⟨data, reads, stands data reads like⟩

section Sample

/-- Four bytes at a time, `abababab` and `babababa` are made of the same. -/
def alternating : Data := ⟨[97, 98, 97, 98, 97, 98, 97, 98], by decide⟩
def alternated : Data := ⟨[98, 97, 98, 97, 98, 97, 98, 97], by decide⟩

def alternatingRepo : Repository plainGix :=
  plainRepository (fun revision => if revision = "HEAD" then some [("file.txt", alternating)] else none) []

/-- A repository without that commit, and with another. -/
def prunedRepo : Repository plainGix :=
  { plainRepository (fun revision => if revision = "next" then some [("file.txt", alternated)] else none) [] with
    hasObject := fun id => decide (id ≠ .commit [("file.txt", alternating)]) }

def alternatingAnchor : Anchor Plain :=
  { identity := { genesisRev := .commit [("file.txt", alternating)], path := "file.txt", span := ⟨0, 8⟩ }
    hints := hintsFor alternating ⟨0, 8⟩ }

/-- What the samples come to. -/
structure AlternatingRun : Prop where
  took : capture alternatingRepo "HEAD" "file.txt" none = .ok alternatingAnchor
  lost : prunedRepo.hasObject alternatingAnchor.identity.genesisRev = false
  next : resolveCommit prunedRepo "next" = .ok (.commit [("file.txt", alternated)])
  valid : positionValidity prunedRepo alternatingAnchor "next" = .ok .valid

theorem alternatingRun : AlternatingRun :=
  ⟨by decide +kernel, by decide +kernel, by decide +kernel, by decide +kernel⟩

theorem lost_genesis_iff_alternating : ∃ content text, alternatingAnchor.identity.span.slice content = some text ∧
    ((positionValidity prunedRepo alternatingAnchor "next" = .ok .valid → ∃ data,
        ReadsAt prunedRepo (.commit [("file.txt", alternated)]) "file.txt" data ∧ StandsIn text data) ↔
      ∀ data, ReadsAt prunedRepo (.commit [("file.txt", alternated)]) "file.txt" data →
        LooksLike text data → StandsIn text data) := by
  obtain ⟨_, _, content, text, _, sliced, exact_condition⟩ :=
    lost_genesis_iff alternatingRepo "HEAD" "file.txt" none alternatingAnchor alternatingRun.took (by decide)
  exact ⟨content, text, sliced, exact_condition prunedRepo "next" _ alternatingRun.next alternatingRun.lost⟩

/-- The captured `abababab` is gone, and `babababa` in its place is called valid. -/
theorem lost_genesis_misjudged :
    capture alternatingRepo "HEAD" "file.txt" none = .ok alternatingAnchor ∧
      alternatingAnchor.identity.span.slice alternating = some alternating.bytes ∧
      prunedRepo.hasObject alternatingAnchor.identity.genesisRev = false ∧
      resolveCommit prunedRepo "next" = .ok (.commit [("file.txt", alternated)]) ∧
      positionValidity prunedRepo alternatingAnchor "next" = .ok .valid ∧
      ¬ ∃ data, ReadsAt prunedRepo (.commit [("file.txt", alternated)]) "file.txt" data ∧
        StandsIn alternating.bytes data := by
  obtain ⟨took, lost, next, valid⟩ := alternatingRun
  refine ⟨took, by decide, lost, next, valid, ?_⟩
  rintro ⟨data, reads, stands⟩
  have there : ReadsAt prunedRepo (.commit [("file.txt", alternated)]) "file.txt" alternated :=
    ⟨.tree [("file.txt", alternated)], ⟨.blob, .blob alternated⟩, rfl, rfl, rfl, rfl⟩
  rw [readsAt_unique prunedRepo _ "file.txt" data alternated reads there] at stands
  revert stands
  unfold StandsIn
  decide

end Sample

end GitAnchor.Anchoring
