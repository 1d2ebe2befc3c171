import GitAnchor.Anchoring.Placement

/-! Tracing an anchor that was captured from the working tree. Its span is over the bytes on
disk, but the trace reads it as a span of the blob that `HEAD` had there. -/

namespace GitAnchor.Anchoring
open GitAnchor.Foundation GitAnchor.Substrate
variable {ObjectId : Type} [DecidableEq ObjectId] {gix : Gix ObjectId}

/-- What the trace reads of the recorded commit's blob is the captured text: the bytes at the
span where the target has that blob, and where it has another whose diff leaves them alone,
the lines that the span covers. -/
def ReadsAsCaptured (repo : Repository gix) (anchor : Anchor ObjectId) (targetTree : ObjectId)
    (text : Bytes) : Prop :=
  repo.hasObject anchor.identity.genesisRev = true → ∀ root blob,
    gix.rootTree anchor.identity.genesisRev = some root →
    gix.blobIdAt root anchor.identity.path = some blob → ∀ location id,
    followed gix anchor.identity.path root blob targetTree = some (location, id) →
    (id = blob → ∃ old, gix.content blob = some old ∧ anchor.identity.span.slice old = some text) ∧
      (id ≠ blob → ∀ old new, gix.content blob = some old → gix.content id = some new →
        ¬ Touched gix old new anchor.identity.span →
        old.lineText (spanToLines old anchor.identity.span).1 (spanToLines old anchor.identity.span).2 = text)

/-- The condition at the one root and blob there are. -/
theorem readsAsCaptured_iff (repo : Repository gix) (anchor : Anchor ObjectId) (targetTree : ObjectId)
    (text : Bytes) (root blob : ObjectId) (present : repo.hasObject anchor.identity.genesisRev = true)
    (rooted : gix.rootTree anchor.identity.genesisRev = some root)
    (named : gix.blobIdAt root anchor.identity.path = some blob) :
    ReadsAsCaptured repo anchor targetTree text ↔ ∀ location id,
      followed gix anchor.identity.path root blob targetTree = some (location, id) →
      (id = blob → ∃ old, gix.content blob = some old ∧ anchor.identity.span.slice old = some text) ∧
        (id ≠ blob → ∀ old new, gix.content blob = some old → gix.content id = some new →
          ¬ Touched gix old new anchor.identity.span →
          old.lineText (spanToLines old anchor.identity.span).1
            (spanToLines old anchor.identity.span).2 = text) := by
  constructor
  · intro reads
    exact reads present root blob rooted named
  · intro reads _ root' blob' rooted' named'
    obtain rfl := Option.some.inj (rooted.symm.trans rooted')
    obtain rfl := Option.some.inj (named.symm.trans named')
    exact reads

/-- The candidates of a trace name the text exactly when the recorded commit's blob reads as
that text. -/
theorem places_iff_reads (repo : Repository gix) (anchor : Anchor ObjectId) (targetTree : ObjectId)
    (candidates : List Candidate) (text : Bytes) (traced : Traces repo anchor targetTree candidates) :
    (∀ found ∈ candidates, Places gix targetTree text found) ↔
      ReadsAsCaptured repo anchor targetTree text := by
  cases traced with
  | gone absent =>
    apply iff_of_true (by simp)
    intro present
    exact absurd present (by rw [absent]; decide)
  | bare root present rooted missing =>
    apply iff_of_true (by simp)
    intro _ root' blob rooted' named
    obtain rfl := Option.some.inj (rooted.symm.trans rooted')
    exact absurd named (by rw [missing]; exact (Option.some_ne_none blob).symm)
  | lost root blob present rooted named nowhere =>
    rw [readsAsCaptured_iff repo anchor targetTree text root blob present rooted named]
    apply iff_of_true (by simp)
    intro location id there
    exact absurd there (by rw [nowhere]; exact (Option.some_ne_none _).symm)
  | kept root blob path present rooted named there =>
    rw [readsAsCaptured_iff repo anchor targetTree text root blob present rooted named,
      List.forall_mem_singleton, places_followed_iff gix _ path root blob blob targetTree there]
    constructor
    · intro reads location id there'
      obtain ⟨rfl, rfl⟩ := Prod.mk.inj (Option.some.inj (there.symm.trans there'))
      exact ⟨fun _ => reads, fun different => absurd rfl different⟩
    · intro reads
      exact (reads path blob there).1 rfl
  | changed root blob id path old new present rooted named there different before after =>
    rw [readsAsCaptured_iff repo anchor targetTree text root blob present rooted named]
    cases mapping : mapSpan gix old new anchor.identity.span with
    | none =>
      have touched := (mapSpan_eq_none_iff gix old new _).mp mapping
      apply iff_of_true (by simp)
      intro location id' there'
      obtain ⟨rfl, rfl⟩ := Prod.mk.inj (Option.some.inj (there.symm.trans there'))
      refine ⟨fun same => absurd same different, ?_⟩
      intro _ old' new' before' after' untouched
      obtain rfl := Option.some.inj (before.symm.trans before')
      obtain rfl := Option.some.inj (after.symm.trans after')
      exact absurd touched untouched
    | some mapped =>
      obtain ⟨untouched, moved⟩ := mapSpan_some gix old new _ mapped mapping
      rw [Option.map_some, Option.toList_some, List.forall_mem_singleton,
        places_followed_iff gix _ path root blob id targetTree there]
      constructor
      · intro reads location id' there'
        obtain ⟨rfl, rfl⟩ := Prod.mk.inj (Option.some.inj (there.symm.trans there'))
        refine ⟨fun same => absurd same different, ?_⟩
        intro _ old' new' before' _ _
        obtain rfl := Option.some.inj (before.symm.trans before')
        obtain ⟨content, stored, sliced⟩ := reads
        obtain rfl := Option.some.inj (after.symm.trans stored)
        exact Option.some.inj (moved.symm.trans sliced)
      · intro reads
        have lines := (reads path id there).2 different old new before after untouched
        exact ⟨new, after, by rw [moved, lines]⟩

/-- A trace of an anchor captured from disk names the captured text exactly when the blob of
`HEAD` reads as that text. -/
theorem worktree_trace_iff (captured written : Repository gix) (path : String) (lines : Option LineRange)
    (anchor : Anchor ObjectId) (took : captureWorktree captured path lines = .ok (anchor, written)) :
    ∃ workdir content text, captured.workdir = some workdir ∧ workdir.read path = some content ∧
      anchor.identity.span.slice content = some text ∧
      ∀ (repo : Repository gix) (target : String) (candidates : List Candidate),
        diffTrace repo anchor target = .ok candidates →
        ∃ commit targetTree, resolveCommit repo target = .ok commit ∧ gix.rootTree commit = some targetTree ∧
          ((∀ found ∈ candidates, Places gix targetTree text found) ↔
            ReadsAsCaptured repo anchor targetTree text) := by
  obtain ⟨resolved, _, workdir, content, standing, read, spanned, _, _⟩ :=
    captureWorktree_ok captured written path lines anchor took
  obtain ⟨ordered, _, whole_lines⟩ := spanFor_ok content path lines _ spanned
  refine ⟨workdir, content, _, standing, read, by rw [whole_lines]; exact slice_lineSpan content _ _ ordered, ?_⟩
  intro repo target candidates traced
  obtain ⟨commit, targetTree, target_resolved, target_rooted, traces⟩ :=
    diffTrace_ok repo anchor target candidates (resolveCommit_isCommit captured "HEAD" _ resolved) traced
  exact ⟨commit, targetTree, target_resolved, target_rooted,
    places_iff_reads repo anchor targetTree candidates _ traces⟩

/-- Where the blob of the recorded commit agrees with the captured text, both at the span and
on the lines the span covers, it reads as captured in every target. -/
theorem readsAsCaptured_of_agrees (repo : Repository gix) (anchor : Anchor ObjectId) (text : Bytes)
    (agrees : ∀ root blob, gix.rootTree anchor.identity.genesisRev = some root →
      gix.blobIdAt root anchor.identity.path = some blob →
      ∃ old, gix.content blob = some old ∧ anchor.identity.span.slice old = some text ∧
        old.lineText (spanToLines old anchor.identity.span).1 (spanToLines old anchor.identity.span).2 = text)
    (targetTree : ObjectId) : ReadsAsCaptured repo anchor targetTree text := by
  intro _ root blob rooted named location id _
  obtain ⟨old, stored, sliced, lines⟩ := agrees root blob rooted named
  refine ⟨fun _ => ⟨old, stored, sliced⟩, ?_⟩
  intro _ old' _ before _ _
  obtain rfl := Option.some.inj (stored.symm.trans before)
  exact lines

/-- An unmodified file reads as captured in every target. -/
theorem readsAsCaptured_of_clean (captured written repo : Repository gix) (path : String)
    (lines : Option LineRange) (anchor : Anchor ObjectId)
    (took : captureWorktree captured path lines = .ok (anchor, written)) (content : Data) (text : Bytes)
    (read : ∃ workdir, captured.workdir = some workdir ∧ workdir.read path = some content)
    (sliced : anchor.identity.span.slice content = some text)
    (clean : ∀ root blob, gix.rootTree anchor.identity.genesisRev = some root →
      gix.blobIdAt root path = some blob → gix.content blob = some content) (targetTree : ObjectId) :
    ReadsAsCaptured repo anchor targetTree text := by
  obtain ⟨_, rfl, workdir, content', standing, read', spanned, _, _⟩ :=
    captureWorktree_ok captured written path lines anchor took
  obtain ⟨workdir', standing', read⟩ := read
  obtain rfl := Option.some.inj (standing.symm.trans standing')
  obtain rfl := Option.some.inj (read.symm.trans read')
  obtain ⟨ordered, inside, whole_lines⟩ := spanFor_ok content _ lines _ spanned
  apply readsAsCaptured_of_agrees repo anchor text
  intro root blob rooted named
  refine ⟨content, clean root blob rooted named, sliced, ?_⟩
  rw [whole_lines, slice_lineSpan content _ _ ordered] at sliced
  rw [whole_lines, spanToLines_lineSpan content _ _ ordered inside]
  exact Option.some.inj sliced

section Sample

/-- A capture that succeeds with an anchor leaves some repository. -/
theorem captureWorktree_of_anchor (captured : Repository gix) (path : String) (lines : Option LineRange)
    (anchor : Anchor ObjectId) (took : (captureWorktree captured path lines).map Prod.fst = .ok anchor) :
    ∃ written, captureWorktree captured path lines = .ok (anchor, written) := by
  cases outcome : captureWorktree captured path lines with
  | error source =>
    rw [outcome] at took
    cases took
  | ok result =>
    rw [outcome] at took
    exact ⟨result.2, by rw [← Except.ok.inj took]⟩

/-- The disk has `x` above the two lines of `HEAD`; this is its second line, `a`. -/
def diskLine : Anchor Plain :=
  { identity := { genesisRev := .commit [("file.txt", twoLines)], path := "file.txt", span := ⟨2, 4⟩ }
    hints := hintsFor threeLines ⟨2, 4⟩ }

/-- On disk the second line is changed to `x`; the first is anchored. -/
def editedBelow : Data := ⟨[97, 10, 120, 10], by decide⟩

def editedRepo : Repository plainGix := plainRepository plainRevisions [("file.txt", editedBelow)]

def firstLine : Anchor Plain :=
  { identity := { genesisRev := .commit [("file.txt", twoLines)], path := "file.txt", span := ⟨0, 2⟩ }
    hints := hintsFor editedBelow ⟨0, 2⟩ }

/-- A change below the anchored line leaves `HEAD` reading as the disk does. -/
theorem worktree_trace_iff_below : ∃ targetTree,
    diffTrace editedRepo firstLine "next" = .ok [candidate "file.txt" (some ⟨2, 4⟩)] ∧
    ReadsAsCaptured editedRepo firstLine targetTree [97, 10] := by
  obtain ⟨written, took⟩ := captureWorktree_of_anchor editedRepo "file.txt" (some ⟨1, 1⟩) firstLine
    (by decide +kernel)
  have traced : diffTrace editedRepo firstLine "next" = .ok [candidate "file.txt" (some ⟨2, 4⟩)] := by
    decide +kernel
  obtain ⟨workdir, content, text, standing, read, sliced, traces⟩ :=
    worktree_trace_iff editedRepo written "file.txt" (some ⟨1, 1⟩) firstLine took
  obtain rfl := Option.some.inj standing
  have disk : some editedBelow = some content := Eq.trans (by decide +kernel) read
  obtain rfl := Option.some.inj disk
  have captured : some [97, 10] = some text := Eq.trans (by decide +kernel) sliced
  obtain rfl := Option.some.inj captured
  obtain ⟨commit, targetTree, resolved, rooted, same⟩ := traces editedRepo "next" _ traced
  have target : resolveCommit editedRepo "next" = .ok (.commit [("file.txt", threeLines)]) := by decide +kernel
  obtain rfl := Except.ok.inj (target.symm.trans resolved)
  obtain rfl := Option.some.inj rooted
  refine ⟨_, traced, same.mp ?_⟩
  intro found member
  obtain rfl := List.mem_singleton.mp member
  exact ⟨⟨.blob, .blob threeLines⟩, threeLines, ⟨2, 4⟩, by decide +kernel, rfl, rfl, by decide +kernel⟩

/-- With a line inserted above on disk, the trace to `HEAD` itself names another line. -/
theorem worktree_trace_misplaced : ¬ ∀ (captured written : Repository plainGix) (path : String)
    (lines : Option LineRange) (anchor : Anchor Plain),
    captureWorktree captured path lines = .ok (anchor, written) → ∀ workdir content text,
    captured.workdir = some workdir → workdir.read path = some content →
    anchor.identity.span.slice content = some text →
    ∀ (target : String) (candidates : List Candidate) (commit targetTree : Plain),
    diffTrace written anchor target = .ok candidates → resolveCommit written target = .ok commit →
    plainGix.rootTree commit = some targetTree → ∀ found ∈ candidates, Places plainGix targetTree text found := by
  intro always
  have took : captureWorktree plainRepo "file.txt" (some ⟨2, 2⟩) = .ok (diskLine, _) := rfl
  have placed := always plainRepo _ "file.txt" (some ⟨2, 2⟩) diskLine took _ threeLines [97, 10] rfl rfl rfl
    "HEAD" [candidate "file.txt" (some ⟨2, 4⟩)] (.commit [("file.txt", twoLines)]) (.tree [("file.txt", twoLines)])
    (by decide +kernel) (by decide +kernel) rfl _ List.mem_cons_self
  obtain ⟨entry, content, span, located, stored, spanned, sliced⟩ := placed
  obtain rfl := Option.some.inj spanned
  have there : some (⟨.blob, .blob twoLines⟩ : Entry Plain) = some entry := Eq.trans (by decide +kernel) located
  obtain rfl := Option.some.inj there
  obtain rfl := Option.some.inj stored
  revert sliced
  decide

end Sample

end GitAnchor.Anchoring
