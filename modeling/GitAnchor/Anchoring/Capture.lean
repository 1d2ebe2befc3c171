import GitAnchor.Anchoring.Fingerprint
import GitAnchor.Anchoring.Repository

/-! Capturing an anchor: from a commit, or from the working tree with `HEAD` recorded as the
commit. The span is over the bytes that were read, always a range of their whole lines. -/

namespace GitAnchor.Anchoring
open GitAnchor.Foundation GitAnchor.Substrate

/-- What an anchor id is the hash of. -/
structure AnchorIdentity (ObjectId : Type) where
  genesisRev : ObjectId
  path : String
  span : Span
deriving DecidableEq

structure Descriptor where
  grammarId : String
  grammarVersion : String
  nodeKind : String
  namePath : List String
deriving DecidableEq

structure AnchorHints where
  fingerprints : List Fingerprint
  descriptors : List Descriptor
deriving DecidableEq

structure Anchor (ObjectId : Type) where
  identity : AnchorIdentity ObjectId
  hints : AnchorHints
deriving DecidableEq

variable {ObjectId : Type} {gix : Gix ObjectId}

def spanFor (content : Data) (path : String) : Option LineRange → Result ObjectId Span
  | some range => byteSpanOf content path range
  | none => .ok (Span.whole content.bytes.length)

def hintsFor (content : Data) (span : Span) : AnchorHints :=
  { fingerprints := [captureFingerprint ((span.slice content).getD content.bytes)], descriptors := [] }

/-- The anchor of `path`, or of `lines` of it, as it is at `revision`. -/
def capture (repo : Repository gix) (revision path : String) (lines : Option LineRange) :
    Result ObjectId (Anchor ObjectId) := do
  let commitId ← resolveCommit repo revision
  let tree ← treeOf repo commitId
  let found ← lookupEntry repo tree path
  match found.filter (·.mode.isBlob) with
  | none => throw (.missingPath commitId path)
  | some entry => do
      let content ← readBlob repo entry.oid
      let span ← spanFor content path lines
      return { identity := { genesisRev := commitId, path := path, span := span }
               hints := hintsFor content span }

/-- The anchor of `path` as it is on disk, and the repository with its bytes written. -/
def captureWorktree [DecidableEq ObjectId] (repo : Repository gix) (path : String) (lines : Option LineRange) :
    Result ObjectId (Anchor ObjectId × Repository gix) :=
  match repo.workdir with
  | none => throw .noWorkingTree
  | some workdir => do
      let commitId ← resolveCommit repo "HEAD"
      if workdir.isFile path then
        match workdir.read path with
        | none => throw (.missingPath commitId path)
        | some content => do
            let span ← spanFor content path lines
            let written ← (repo.writeBlob content).mapError .object
            let identity := { genesisRev := commitId, path := path, span := span }
            return (⟨identity, hintsFor content span⟩, written)
      else throw (.missingPath commitId path)

/-- The 0-based half-open range of the lines that a capture of `lines` anchors. -/
def anchoredLines (content : Data) : Option LineRange → Nat × Nat
  | some range => (range.start - 1, range.stop)
  | none => (0, content.lineCount)

/-- A capture's span is that of a range of whole lines of what was read. -/
theorem spanFor_ok (content : Data) (path : String) (lines : Option LineRange) (span : Span)
    (ok : (spanFor content path lines : Result ObjectId Span) = .ok span) :
    (anchoredLines content lines).1 ≤ (anchoredLines content lines).2 ∧
      (anchoredLines content lines).2 ≤ content.lineCount ∧
      span = content.lineSpan (anchoredLines content lines).1 (anchoredLines content lines).2 := by
  cases lines with
  | none =>
    have whole := Except.ok.inj ok
    exact ⟨Nat.zero_le _, Nat.le_refl _, whole.symm.trans (whole_eq_lineSpan content)⟩
  | some range =>
    obtain ⟨_, ordered, fits, same⟩ := byteSpanOf_ok content path range span ok
    exact ⟨ordered, fits, same⟩

/-- What a capture read from the repository, and the anchor it made of it. -/
structure ReadFrom (repo : Repository gix) (anchor : Anchor ObjectId) (root : ObjectId) (entry : Entry ObjectId)
    (content : Data) (lines : Option LineRange) : Prop where
  rooted : treeOf repo anchor.identity.genesisRev = .ok root
  located : lookupEntry repo root anchor.identity.path = .ok (some entry)
  isBlob : entry.mode.isBlob = true
  fetched : readBlob repo entry.oid = .ok content
  span : (spanFor content anchor.identity.path lines : Result ObjectId Span) = .ok anchor.identity.span
  hints : anchor.hints = hintsFor content anchor.identity.span

theorem capture_reads (repo : Repository gix) (revision path : String) (lines : Option LineRange)
    (anchor : Anchor ObjectId) (ok : capture repo revision path lines = .ok anchor) :
    resolveCommit repo revision = .ok anchor.identity.genesisRev ∧ anchor.identity.path = path ∧
      ∃ root entry content, ReadFrom repo anchor root entry content lines := by
  simp only [capture, Result.bind_eq_ok] at ok
  obtain ⟨commit, resolved, root, rooted, found, looked, read⟩ := ok
  cases kept : found.filter (·.mode.isBlob) with
  | none => simp [kept, throw, throwThe, MonadExceptOf.throw] at read
  | some entry =>
    obtain ⟨located, isBlob⟩ := Option.filter_eq_some_iff.mp kept
    simp only [kept, Result.bind_eq_ok, Result.pure_eq_ok] at read
    obtain ⟨content, fetched, span, spanned, rfl⟩ := read
    refine ⟨resolved, rfl, root, entry, content, ?_⟩
    exact {
      rooted := rooted
      located := by rw [looked, located]
      isBlob := isBlob
      fetched := fetched
      span := spanned
      hints := rfl }

/-- What is true of the objects that a capture from `revision` read. -/
structure Captured (gix : Gix ObjectId) (anchor : Anchor ObjectId) (root blob : ObjectId) (content : Data)
    (lines : Option LineRange) : Prop where
  rootTree : gix.rootTree anchor.identity.genesisRev = some root
  entry : ∃ found, gix.entryAt root anchor.identity.path = some found ∧ found.mode.isBlob = true ∧
    found.oid = blob
  stored : gix.content blob = some content
  span : (spanFor content anchor.identity.path lines : Result ObjectId Span) = .ok anchor.identity.span
  hints : anchor.hints = hintsFor content anchor.identity.span

theorem capture_ok (repo : Repository gix) (revision path : String) (lines : Option LineRange)
    (anchor : Anchor ObjectId) (ok : capture repo revision path lines = .ok anchor) :
    resolveCommit repo revision = .ok anchor.identity.genesisRev ∧ anchor.identity.path = path ∧
      ∃ root blob content, Captured gix anchor root blob content lines := by
  obtain ⟨resolved, same, root, entry, content, read⟩ := capture_reads repo revision path lines anchor ok
  refine ⟨resolved, same, root, entry.oid, content, ?_⟩
  exact {
    rootTree := treeOf_ok repo _ root read.rooted
    entry := ⟨entry, (lookupEntry_ok repo root _ _ read.located).symm, read.isBlob, rfl⟩
    stored := readBlob_ok repo entry.oid content read.fetched
    span := read.span
    hints := read.hints }

theorem captureWorktree_ok [DecidableEq ObjectId] (repo written : Repository gix) (path : String)
    (lines : Option LineRange) (anchor : Anchor ObjectId)
    (ok : captureWorktree repo path lines = .ok (anchor, written)) :
    resolveCommit repo "HEAD" = .ok anchor.identity.genesisRev ∧ anchor.identity.path = path ∧
      ∃ workdir content, repo.workdir = some workdir ∧ workdir.read path = some content ∧
        (spanFor content path lines : Result ObjectId Span) = .ok anchor.identity.span ∧
        anchor.hints = hintsFor content anchor.identity.span ∧ repo.writeBlob content = .ok written := by
  unfold captureWorktree at ok
  split at ok
  · cases ok
  · next workdir standing =>
    simp only [Result.bind_eq_ok] at ok
    obtain ⟨commit, resolved, rest⟩ := ok
    split at rest
    · split at rest
      · cases rest
      · next content read =>
        simp only [Result.bind_eq_ok, Result.pure_eq_ok, Prod.mk.injEq] at rest
        obtain ⟨span, spanned, stored, wrote, rfl, rfl⟩ := rest
        exact ⟨resolved, rfl, workdir, content, standing, read, spanned, rfl,
          Result.mapError_eq_ok.mp wrote⟩
    · cases rest

end GitAnchor.Anchoring
