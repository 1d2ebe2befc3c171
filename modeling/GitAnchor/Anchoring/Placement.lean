import GitAnchor.Anchoring.DiffTrace
import GitAnchor.Anchoring.Plain

/-! Where the diff trace puts an anchor: the candidates by where the anchored file went, and
that a candidate of a captured anchor names the text that was captured. -/

namespace GitAnchor.Anchoring
open GitAnchor.Foundation GitAnchor.Substrate
variable {ObjectId : Type} [DecidableEq ObjectId] {gix : Gix ObjectId}

/-- The blob id at `path` in a tree, where a file is there. -/
def Gix.blobIdAt (gix : Gix ObjectId) (root : ObjectId) (path : String) : Option ObjectId :=
  ((gix.entryAt root path).filter (·.mode.isBlob)).map (·.oid)

/-- Where the blob at `path` in one tree is followed to in another: it stays, or the tree
diff decides. -/
def followed (gix : Gix ObjectId) (path : String) (root blob targetTree : ObjectId) :
    Option (String × ObjectId) :=
  if (gix.entryAt targetTree path).any (fun found => found.mode.isBlob ∧ found.oid = blob) then
    some (path, blob)
  else
    match destination path (gix.changes root targetTree) with
    | some (location, id, true) => some (location, id)
    | _ => none

/-- Everything a trace can report, by where the anchored file went. -/
inductive Traces (repo : Repository gix) (anchor : Anchor ObjectId) (targetTree : ObjectId) :
    List Candidate → Prop where
  | gone (absent : repo.hasObject anchor.identity.genesisRev = false) : Traces repo anchor targetTree []
  | bare (root : ObjectId) (present : repo.hasObject anchor.identity.genesisRev = true)
      (rooted : gix.rootTree anchor.identity.genesisRev = some root)
      (missing : gix.blobIdAt root anchor.identity.path = none) : Traces repo anchor targetTree []
  | lost (root blob : ObjectId) (present : repo.hasObject anchor.identity.genesisRev = true)
      (rooted : gix.rootTree anchor.identity.genesisRev = some root)
      (named : gix.blobIdAt root anchor.identity.path = some blob)
      (nowhere : followed gix anchor.identity.path root blob targetTree = none) :
      Traces repo anchor targetTree []
  | kept (root blob : ObjectId) (path : String) (present : repo.hasObject anchor.identity.genesisRev = true)
      (rooted : gix.rootTree anchor.identity.genesisRev = some root)
      (named : gix.blobIdAt root anchor.identity.path = some blob)
      (there : followed gix anchor.identity.path root blob targetTree = some (path, blob)) :
      Traces repo anchor targetTree [candidate path (some anchor.identity.span)]
  | changed (root blob id : ObjectId) (path : String) (old new : Data)
      (present : repo.hasObject anchor.identity.genesisRev = true)
      (rooted : gix.rootTree anchor.identity.genesisRev = some root)
      (named : gix.blobIdAt root anchor.identity.path = some blob)
      (there : followed gix anchor.identity.path root blob targetTree = some (path, id))
      (different : id ≠ blob) (before : gix.content blob = some old) (after : gix.content id = some new) :
      Traces repo anchor targetTree
        ((mapSpan gix old new anchor.identity.span).map (fun mapped => candidate path (some mapped))).toList

omit [DecidableEq ObjectId] in
theorem blobAt_ok (repo : Repository gix) (root : ObjectId) (path : String) (found : Option ObjectId)
    (ok : blobAt repo root path = .ok found) : found = gix.blobIdAt root path := by
  simp only [blobAt, Result.bind_eq_ok, Result.pure_eq_ok] at ok
  obtain ⟨entry, looked, rfl⟩ := ok
  rw [lookupEntry_ok repo root path entry looked]
  rfl

theorem diffTraceOnto_ok (repo : Repository gix) (anchor : Anchor ObjectId) (targetTree : ObjectId)
    (candidates : List Candidate) (named : (gix.rootTree anchor.identity.genesisRev).isSome)
    (ok : diffTraceOnto repo anchor targetTree = .ok candidates) : Traces repo anchor targetTree candidates := by
  unfold diffTraceOnto at ok
  split at ok
  · next present =>
    simp only [Result.bind_eq_ok] at ok
    obtain ⟨commit, read, root, rooted, found, looked, rest⟩ := ok
    obtain rfl := commitAt_self repo _ commit named read
    have tree := treeOf_ok repo _ root rooted
    have blob_there := blobAt_ok repo root _ found looked
    cases found with
    | none =>
      obtain rfl := Result.pure_eq_ok.mp rest
      exact .bare root present tree blob_there.symm
    | some blob =>
      simp only [Result.bind_eq_ok] at rest
      obtain ⟨entry, target_looked, rest⟩ := rest
      obtain rfl := lookupEntry_ok repo targetTree _ entry target_looked
      split at rest
      · next stays =>
        obtain rfl := Result.pure_eq_ok.mp rest
        exact .kept root blob _ present tree blob_there.symm (if_pos stays)
      · next moves =>
        obtain ⟨changes, diffed, rest⟩ := Result.bind_eq_ok.mp rest
        obtain rfl := repo.diff_changes root targetTree changes (Result.mapError_eq_ok.mp diffed)
        have leads : followed gix anchor.identity.path root blob targetTree =
            match destination anchor.identity.path (gix.changes root targetTree) with
            | some (location, id, true) => some (location, id)
            | _ => none := if_neg moves
        split at rest
        · next nowhere =>
          obtain rfl := Result.pure_eq_ok.mp rest
          rw [nowhere] at leads
          exact .lost root blob present tree blob_there.symm leads
        · next path id isBlob somewhere =>
          rw [somewhere] at leads
          cases isBlob with
          | false =>
            obtain rfl := Result.pure_eq_ok.mp rest
            exact .lost root blob present tree blob_there.symm leads
          | true =>
            rw [if_neg (by decide)] at rest
            split at rest
            · next same =>
              obtain rfl := Result.pure_eq_ok.mp rest
              rw [same] at leads
              exact .kept root blob path present tree blob_there.symm leads
            · next different =>
              simp only [Result.bind_eq_ok] at rest
              obtain ⟨old, read_old, new, read_new, rest⟩ := rest
              have traced := Traces.changed root blob id path old new present tree blob_there.symm leads
                different (readBlob_ok repo blob old read_old) (readBlob_ok repo id new read_new)
              split at rest
              · next mapped found =>
                obtain rfl := Result.pure_eq_ok.mp rest
                rw [found] at traced
                exact traced
              · next none_found =>
                obtain rfl := Result.pure_eq_ok.mp rest
                rw [none_found] at traced
                exact traced
  · next absent =>
    obtain rfl := Result.pure_eq_ok.mp ok
    exact .gone (by simpa using absent)

/-! What the candidates name. -/

/-- The candidate names a blob of the tree whose bytes at the candidate's span are `text`. -/
def Places (gix : Gix ObjectId) (targetTree : ObjectId) (text : Bytes) (found : Candidate) : Prop :=
  ∃ entry content span, gix.entryAt targetTree found.path = some entry ∧
    gix.content entry.oid = some content ∧ found.span = some span ∧ span.slice content = some text

omit [DecidableEq ObjectId] in
theorem destination_some (path location : String) (id : ObjectId) (isBlob : Bool)
    (changes : List (Change ObjectId)) (found : destination path changes = some (location, id, isBlob)) :
    ∃ change ∈ changes, change.destination = some (location, id) := by
  induction changes with
  | nil => cases found
  | cons change later ih =>
    have further (rest : destination path later = some (location, id, isBlob)) :
        ∃ other ∈ change :: later, other.destination = some (location, id) := by
      obtain ⟨other, member, leads⟩ := ih rest
      exact ⟨other, List.mem_cons_of_mem _ member, leads⟩
    cases change with
    | addition _ => exact further found
    | deletion _ =>
      unfold destination at found
      split at found
      · cases found
      · exact further found
    | modification there blob mode =>
      unfold destination at found
      split at found
      · next same =>
        obtain ⟨rfl, rfl, _⟩ : path = location ∧ blob = id ∧ mode.isBlob = isBlob := by simpa using found
        exact ⟨_, List.mem_cons_self, by rw [same]; rfl⟩
      · exact further found
    | rewrite source there blob mode copy =>
      unfold destination at found
      split at found
      · obtain ⟨rfl, rfl, _⟩ : there = location ∧ blob = id ∧ mode.isBlob = isBlob := by simpa using found
        exact ⟨_, List.mem_cons_self, rfl⟩
      · exact further found

/-- A file is followed to an entry of the target that has the id the trace goes on with. -/
theorem followed_entry (gix : Gix ObjectId) (path location : String) (root blob id targetTree : ObjectId)
    (there : followed gix path root blob targetTree = some (location, id)) :
    ∃ entry, gix.entryAt targetTree location = some entry ∧ entry.oid = id := by
  unfold followed at there
  split at there
  · next stays =>
    obtain ⟨rfl, rfl⟩ : path = location ∧ blob = id := by simpa using there
    obtain ⟨entry, located, same⟩ := (Option.any_eq_true _ _).mp stays
    exact ⟨entry, located, (of_decide_eq_true same).2⟩
  · split at there
    · next leads =>
      obtain ⟨rfl, rfl⟩ := Prod.mk.inj (Option.some.inj there)
      obtain ⟨change, member, same⟩ := destination_some path _ _ true _ leads
      exact gix.changes_entry root targetTree change member _ _ same
    · cases there

/-- A candidate where the file was followed to is judged by the blob followed to. -/
theorem places_followed_iff (gix : Gix ObjectId) (path location : String) (root blob id targetTree : ObjectId)
    (there : followed gix path root blob targetTree = some (location, id)) (span : Span) (text : Bytes) :
    Places gix targetTree text (candidate location (some span)) ↔
      ∃ content, gix.content id = some content ∧ span.slice content = some text := by
  obtain ⟨entry, located, same⟩ := followed_entry gix path location root blob id targetTree there
  constructor
  · intro places
    obtain ⟨other, content, own, located', stored, spanned, sliced⟩ := places
    have same_entry : entry = other := Option.some.inj (located.symm.trans located')
    have same_span : span = own := Option.some.inj spanned
    rw [← same_entry, same] at stored
    rw [← same_span] at sliced
    exact ⟨content, stored, sliced⟩
  · intro reads
    obtain ⟨content, stored, sliced⟩ := reads
    exact ⟨entry, content, span, located, by rw [same, stored], rfl, sliced⟩

omit [DecidableEq ObjectId] in
theorem Captured.blobIdAt {anchor : Anchor ObjectId} {root blob : ObjectId} {content : Data}
    {lines : Option LineRange} (captured : Captured gix anchor root blob content lines) :
    gix.blobIdAt root anchor.identity.path = some blob := by
  obtain ⟨found, located, isBlob, rfl⟩ := captured.entry
  simp [Gix.blobIdAt, located, isBlob]

omit [DecidableEq ObjectId] in
/-- A mapped span names in the new blob the lines that the span covers in the old one. -/
theorem mapSpan_some (gix : Gix ObjectId) (old new : Data) (span mapped : Span)
    (mapping : mapSpan gix old new span = some mapped) : ¬ Touched gix old new span ∧
      mapped.slice new = some (old.lineText (spanToLines old span).1 (spanToLines old span).2) := by
  have untouched : ¬ Touched gix old new span := by
    rw [← mapSpan_eq_none_iff, mapping]
    exact Option.some_ne_none mapped
  obtain ⟨span', mapping', sliced⟩ := mapSpan_untouched gix old new span untouched
  have same : mapped = span' := Option.some.inj (mapping.symm.trans mapping')
  exact ⟨untouched, by rw [same, sliced]⟩

/-- What a trace reports of an anchor whose span reads as `text` in the blob of its own
commit, and covers the lines that `text` is. -/
theorem traces_keep_text (repo : Repository gix) (anchor : Anchor ObjectId) (targetTree root blob : ObjectId)
    (content : Data) (text : Bytes) (candidates : List Candidate)
    (rooted : gix.rootTree anchor.identity.genesisRev = some root)
    (named : gix.blobIdAt root anchor.identity.path = some blob) (stored : gix.content blob = some content)
    (sliced : anchor.identity.span.slice content = some text)
    (covers : content.lineText (spanToLines content anchor.identity.span).1
      (spanToLines content anchor.identity.span).2 = text)
    (traced : Traces repo anchor targetTree candidates) :
    candidates.length ≤ 1 ∧ ∀ found ∈ candidates, Places gix targetTree text found := by
  cases traced with
  | gone _ => exact ⟨Nat.zero_le _, by simp⟩
  | bare _ _ _ _ => exact ⟨Nat.zero_le _, by simp⟩
  | lost _ _ _ _ _ _ => exact ⟨Nat.zero_le _, by simp⟩
  | kept root' blob' location present rooted' named' there =>
    obtain rfl := Option.some.inj (rooted.symm.trans rooted')
    obtain rfl := Option.some.inj (named.symm.trans named')
    refine ⟨Nat.le_refl _, ?_⟩
    intro found member
    rw [List.mem_singleton.mp member, places_followed_iff gix _ location root blob blob targetTree there]
    exact ⟨content, stored, sliced⟩
  | changed root' blob' id location old new present rooted' named' there different before after =>
    obtain rfl := Option.some.inj (rooted.symm.trans rooted')
    obtain rfl := Option.some.inj (named.symm.trans named')
    obtain rfl := Option.some.inj (stored.symm.trans before)
    cases mapping : mapSpan gix content new anchor.identity.span with
    | none => exact ⟨Nat.zero_le _, by simp⟩
    | some mapped =>
      refine ⟨Nat.le_refl _, ?_⟩
      intro found member
      rw [List.mem_singleton.mp member, places_followed_iff gix _ location root blob id targetTree there]
      exact ⟨new, after, by rw [(mapSpan_some gix content new _ mapped mapping).2, covers]⟩

theorem diffTrace_ok (repo : Repository gix) (anchor : Anchor ObjectId) (target : String)
    (candidates : List Candidate) (named : (gix.rootTree anchor.identity.genesisRev).isSome)
    (ok : diffTrace repo anchor target = .ok candidates) :
    ∃ commit targetTree, resolveCommit repo target = .ok commit ∧ gix.rootTree commit = some targetTree ∧
      Traces repo anchor targetTree candidates := by
  simp only [diffTrace, Result.bind_eq_ok] at ok
  obtain ⟨commit, resolved, targetTree, rooted, onto⟩ := ok
  exact ⟨commit, targetTree, resolved, treeOf_ok repo commit targetTree rooted,
    diffTraceOnto_ok repo anchor targetTree candidates named onto⟩

/-- A trace of a captured anchor has at most one candidate, and it names the text that was
captured; the span is lost only where a hunk touches the captured lines. -/
theorem trace_keeps_text (captured : Repository gix) (revision path : String) (lines : Option LineRange)
    (anchor : Anchor ObjectId) (took : capture captured revision path lines = .ok anchor) :
    ∃ root blob content text, Captured gix anchor root blob content lines ∧
      anchor.identity.span.slice content = some text ∧
      text = content.lineText (anchoredLines content lines).1 (anchoredLines content lines).2 ∧
      (∀ (repo : Repository gix) (target : String) (candidates : List Candidate),
        diffTrace repo anchor target = .ok candidates →
        ∃ commit targetTree, resolveCommit repo target = .ok commit ∧ gix.rootTree commit = some targetTree ∧
          candidates.length ≤ 1 ∧ ∀ found ∈ candidates, Places gix targetTree text found) ∧
      ∀ new, mapSpan gix content new anchor.identity.span = none ↔ ∃ hunk ∈ gix.hunksOf content new,
        hunk.Touches (anchoredLines content lines).1 (anchoredLines content lines).2 := by
  obtain ⟨resolved, _, root, blob, content, there⟩ := capture_ok captured revision path lines anchor took
  obtain ⟨ordered, inside, whole_lines⟩ := spanFor_ok content _ lines _ there.span
  have covered : spanToLines content anchor.identity.span = anchoredLines content lines := by
    rw [whole_lines]
    exact spanToLines_lineSpan content _ _ ordered inside
  have sliced : anchor.identity.span.slice content =
      some (content.lineText (anchoredLines content lines).1 (anchoredLines content lines).2) := by
    rw [whole_lines]
    exact slice_lineSpan content _ _ ordered
  refine ⟨root, blob, content, _, there, sliced, rfl, ?_, ?_⟩
  · intro repo target candidates traced
    obtain ⟨commit, targetTree, target_resolved, target_rooted, traces⟩ :=
      diffTrace_ok repo anchor target candidates (resolveCommit_isCommit captured revision _ resolved) traced
    refine ⟨commit, targetTree, target_resolved, target_rooted, ?_⟩
    exact traces_keep_text repo anchor targetTree root blob content _ candidates there.rootTree
      there.blobIdAt there.stored sliced (by rw [covered]) traces
  · intro new
    rw [mapSpan_eq_none_iff, Touched, covered]

section Sample

/-- The lines `a` and `b`. -/
def twoLines : Data := ⟨[97, 10, 98, 10], by decide⟩

/-- The same below a new line `x`. -/
def threeLines : Data := ⟨[120, 10, 97, 10, 98, 10], by decide⟩

def plainRevisions (revision : String) : Option Files :=
  if revision = "HEAD" then some [("file.txt", twoLines)]
  else if revision = "next" then some [("file.txt", threeLines)]
  else none

def plainRepo : Repository plainGix := plainRepository plainRevisions [("file.txt", threeLines)]

/-- The second line of the file at `HEAD`. -/
def secondLine : Anchor Plain :=
  { identity := { genesisRev := .commit [("file.txt", twoLines)], path := "file.txt", span := ⟨2, 4⟩ }
    hints := hintsFor twoLines ⟨2, 4⟩ }

/-- The line is followed past the line inserted above it. -/
theorem trace_keeps_text_shifted : ∃ targetTree text,
    diffTrace plainRepo secondLine "next" = .ok [candidate "file.txt" (some ⟨4, 6⟩)] ∧
    Places plainGix targetTree text (candidate "file.txt" (some ⟨4, 6⟩)) := by
  have took : capture plainRepo "HEAD" "file.txt" (some ⟨2, 2⟩) = .ok secondLine := by decide +kernel
  have traced : diffTrace plainRepo secondLine "next" = .ok [candidate "file.txt" (some ⟨4, 6⟩)] := by
    decide +kernel
  obtain ⟨_, _, _, text, _, _, _, traces, _⟩ :=
    trace_keeps_text plainRepo "HEAD" "file.txt" (some ⟨2, 2⟩) secondLine took
  obtain ⟨_, targetTree, _, _, _, places⟩ := traces plainRepo "next" _ traced
  exact ⟨targetTree, text, traced, places _ List.mem_cons_self⟩

end Sample

end GitAnchor.Anchoring
