import GitAnchor.Anchoring.OracleExact
import GitAnchor.Anchoring.Placement

/-! The chain of the three oracles, and that they agree. Where the trace finds a captured text
in place, the fingerprint finds it there too, as sure as the trace is; so a position that is
valid in place stays so when the commit of its anchor is collected. -/

namespace GitAnchor.Anchoring
open GitAnchor.Foundation GitAnchor.Substrate
variable {ObjectId : Type} {gix : Gix ObjectId}

/-- The candidates that an operation log records, if there is one. -/
def opLog (source : Option (ObjectId → ObjectId → List Candidate)) (anchorId target : ObjectId) : List Candidate :=
  source.elim [] (fun lookup => lookup anchorId target)

/-- The candidates of all oracles, in the order of their fidelity. -/
def project [DecidableEq ObjectId] (repo : Repository gix) (anchor : Anchor ObjectId) (anchorId : ObjectId)
    (target : String) (source : Option (ObjectId → ObjectId → List Candidate)) : Result ObjectId (List Candidate) := do
  let targetId ← resolveCommit repo target
  let traced ← diffTrace repo anchor target
  let found ← fingerprint repo anchor target
  return opLog source anchorId targetId ++ traced ++ found

/-- A change gives the entry that it leads to the mode that the entry has there. -/
def ModesAgree (gix : Gix ObjectId) : Prop :=
  ∀ source target, ∀ change ∈ gix.changes source target, ∀ location id mode,
    (change = .modification location id mode ∨ ∃ before copy, change = .rewrite before location id mode copy) →
    ∀ entry, gix.entryAt target location = some entry → entry.mode = mode

/-! Where a trace leads. -/

theorem destination_mode (path location : String) (id : ObjectId) (isBlob : Bool) (changes : List (Change ObjectId))
    (found : destination path changes = some (location, id, isBlob)) :
    ∃ change ∈ changes, ∃ mode, mode.isBlob = isBlob ∧
      (change = .modification location id mode ∨ ∃ before copy, change = .rewrite before location id mode copy) := by
  fun_induction destination path changes with
  | case1 => cases found
  | case2 => cases found
  | case3 | case5 | case7 | case8 =>
    rename_i ih
    obtain ⟨change, member, mode⟩ := ih found
    exact ⟨change, List.mem_cons_of_mem _ member, mode⟩
  | case4 id' mode later =>
    cases found
    exact ⟨_, List.mem_cons_self, mode, rfl, .inl rfl⟩
  | case6 =>
    cases found
    exact ⟨_, List.mem_cons_self, _, rfl, .inr ⟨_, _, rfl⟩⟩

/-- The entry that a file is followed to is a file. -/
theorem followed_isBlob [DecidableEq ObjectId] (modes : ModesAgree gix) (path location : String)
    (root blob id targetTree : ObjectId) (there : followed gix path root blob targetTree = some (location, id)) :
    ∃ entry, gix.entryAt targetTree location = some entry ∧ entry.oid = id ∧ entry.mode.isBlob = true := by
  obtain ⟨entry, located, same⟩ := followed_entry gix path location root blob id targetTree there
  refine ⟨entry, located, same, ?_⟩
  unfold followed at there
  split at there
  · next stays =>
    obtain ⟨rfl, rfl⟩ := Prod.mk.inj (Option.some.inj there)
    rw [located] at stays
    exact (of_decide_eq_true stays).1
  · split at there
    · next leads =>
      obtain ⟨rfl, rfl⟩ := Prod.mk.inj (Option.some.inj there)
      obtain ⟨change, member, mode, isBlob, led⟩ := destination_mode path _ _ true _ leads
      rw [modes root targetTree change member _ _ mode led entry located, isBlob]
    · cases there

/-- The span begins where a line of the blob does, and names the text there. -/
def Aligned (text : Bytes) (data : Data) (span : Span) : Prop :=
  span.start ∈ lineBoundaries data ∧ span = ⟨span.start, span.start + text.length⟩ ∧ span.slice data = some text

theorem span_of_slice (data : Data) (span : Span) (text : Bytes) (sliced : span.slice data = some text) :
    span = ⟨span.start, span.start + text.length⟩ := by
  have length := slice_length data span text sliced
  unfold Span.slice at sliced
  split at sliced
  · next fits =>
    have stop : span.start + text.length = span.stop := by omega
    rw [stop]
  · cases sliced

theorem aligned_lineSpan (data : Data) (a b : Nat) (ordered : a ≤ b) (last : b ≤ data.lineCount) :
    Aligned (data.lineText a b) data (data.lineSpan a b) := by
  have sliced := slice_lineSpan data a b ordered
  have boundary : data.lineStart a ∈ lineBoundaries data :=
    (mem_lineBoundaries data _).mpr ⟨a, Nat.le_trans ordered last, rfl⟩
  exact ⟨boundary, span_of_slice data _ _ sliced, sliced⟩

/-- A span that is mapped begins where a line does, whatever it was before. -/
theorem aligned_mapSpan (old new : Data) (span mapped : Span) (mapping : mapSpan gix old new span = some mapped) :
    Aligned (old.lineText (spanToLines old span).1 (spanToLines old span).2) new mapped := by
  obtain ⟨untouched, sliced⟩ := mapSpan_some gix old new span mapped mapping
  obtain ⟨front, back, moved, _, found⟩ := mapSpan_moved gix old new span untouched
  obtain rfl := Option.some.inj (mapping.symm.trans found)
  refine ⟨?_, span_of_slice new _ _ sliced, sliced⟩
  apply (mem_lineBoundaries new _).mpr
  refine ⟨front.length, ?_, rfl⟩
  calc
    front.length ≤ (linesWithTerminator new).length := by
      rw [moved, List.append_assoc, List.length_append]
      exact Nat.le_add_right _ _
    _ = new.lineCount := rfl

/-- Every candidate of a trace stands at the beginning of a line of a file of the target. -/
theorem traces_aligned [DecidableEq ObjectId] (modes : ModesAgree gix) (repo : Repository gix) (anchor : Anchor ObjectId)
    (targetTree root blob : ObjectId) (content : Data) (lines : Option LineRange) (text : Bytes)
    (candidates : List Candidate) (captured : Captured gix anchor root blob content lines)
    (sliced : anchor.identity.span.slice content = some text) (traced : Traces repo anchor targetTree candidates) :
    ∀ found ∈ candidates, ∃ entry data span, found = candidate found.path (some span) ∧
      gix.entryAt targetTree found.path = some entry ∧ entry.mode.isBlob = true ∧
      gix.content entry.oid = some data ∧ Aligned text data span := by
  obtain ⟨ordered, last, whole⟩ := spanFor_ok content _ lines _ captured.span
  have own := aligned_lineSpan content _ _ ordered last
  have covers := spanToLines_lineSpan content _ _ ordered last
  rw [← whole] at own covers
  obtain rfl := Option.some.inj (own.2.2.symm.trans sliced)
  have named := captured.blobIdAt
  cases traced with
  | gone | bare | lost => exact fun _ none => nomatch none
  | kept root' blob' location present rooted' named' there =>
    obtain rfl := Option.some.inj (captured.rootTree.symm.trans rooted')
    obtain rfl := Option.some.inj (named.symm.trans named')
    intro found member
    rw [List.mem_singleton.mp member]
    obtain ⟨entry, located, rfl, isBlob⟩ := followed_isBlob modes _ location root blob _ targetTree there
    exact ⟨entry, content, anchor.identity.span, rfl, located, isBlob, captured.stored, own⟩
  | changed root' blob' id location old new present rooted' named' there different before after =>
    obtain rfl := Option.some.inj (captured.rootTree.symm.trans rooted')
    obtain rfl := Option.some.inj (named.symm.trans named')
    obtain rfl := Option.some.inj (captured.stored.symm.trans before)
    intro found member
    cases mapping : mapSpan gix content new anchor.identity.span with
    | none =>
      rw [mapping] at member
      cases member
    | some mapped =>
      rw [mapping] at member
      rw [List.mem_singleton.mp member]
      obtain ⟨entry, located, rfl, isBlob⟩ := followed_isBlob modes _ location root blob id targetTree there
      have aligned := aligned_mapSpan content new _ mapped mapping
      rw [covers] at aligned
      exact ⟨entry, new, mapped, rfl, located, isBlob, after, aligned⟩

/-! What the fingerprint makes of that. -/

theorem windowCandidates_of_aligned (text : Bytes) (path : String) (data : Data) (span : Span) (some_bytes : text ≠ [])
    (aligned : Aligned text data span) : ⟨.fingerprint, 1, path, some span⟩ ∈ windowCandidates text path data := by
  obtain ⟨boundary, shape, stands⟩ := aligned
  rw [shape, slice_windowAt] at stands
  split at stands
  · next whole =>
    have same : windowAt data span.start text.length = text := Option.some.inj stands
    have shares : Shares text data span.start := ⟨whole, by rw [same, sharedSlots_self]; decide⟩
    have sixteen : (NUM_HASHES : Rat) ≠ 0 := by decide
    have sure : scored text path data span.start = ⟨.fingerprint, 1, path, some span⟩ := by
      rw [scored, same, sharedSlots_self, div_self sixteen, ← shape]
    rw [windowCandidates_eq text path data some_bytes, ← sure]
    exact List.mem_map_of_mem (List.mem_filter.mpr ⟨boundary, decide_eq_true shares⟩)
  · cases stands

theorem windowCandidates_bounds (text : Bytes) (path : String) (data : Data) (some_bytes : text ≠ []) :
    ∀ found ∈ windowCandidates text path data, found.oracle = .fingerprint ∧ found.path = path ∧
      0 < found.confidence ∧ found.confidence ≤ 1 := by
  intro found member
  rw [windowCandidates_eq text path data some_bytes] at member
  obtain ⟨start, kept, rfl⟩ := List.mem_map.mp member
  have shares : Shares text data start := of_decide_eq_true (List.mem_filter.mp kept).2
  have most : sharedSlots (windowAt data start text.length) text ≤ NUM_HASHES := sharedSlots_le _ _
  have sixteen : (0 : Rat) < (NUM_HASHES : Rat) := by decide
  exact ⟨rfl, rfl, (score_positive_iff _).mpr shares.2, (div_le_one sixteen).mpr (by exact_mod_cast most)⟩

/-- What the oracle returned for a remembered text: the windows of the target's blob, or
nothing where there is none. -/
theorem fingerprint_ok (repo : Repository gix) (anchor : Anchor ObjectId) (text : Bytes) (remembers : Remembers anchor text)
    (target : String) (commit targetTree : ObjectId) (resolved : resolveCommit repo target = .ok commit)
    (rooted : gix.rootTree commit = some targetTree) (found : List Candidate)
    (ran : fingerprint repo anchor target = .ok found) :
    (found = [] ∧ (gix.entryAt targetTree anchor.identity.path).filter (·.mode.isBlob) = none) ∨
      ∃ entry data, gix.entryAt targetTree anchor.identity.path = some entry ∧ gix.content entry.oid = some data ∧
        found = windowCandidates text anchor.identity.path data := by
  rw [fingerprint_remembered repo anchor text remembers target commit resolved] at ran
  obtain ⟨root, read, ran⟩ := Result.bind_eq_ok.mp ran
  obtain rfl := Option.some.inj (rooted.symm.trans (treeOf_ok repo commit root read))
  obtain ⟨entry, looked, ran⟩ := Result.bind_eq_ok.mp ran
  rw [← lookupEntry_ok repo targetTree _ entry looked]
  cases kept : entry.filter (fun entry => entry.mode.isBlob) with
  | none =>
    simp only [kept] at ran
    exact .inl ⟨(Except.ok.inj ran).symm, rfl⟩
  | some file =>
    simp only [kept] at ran
    obtain ⟨data, read, ran⟩ := Result.bind_eq_ok.mp ran
    exact .inr ⟨file, data, (Option.filter_eq_some_iff.mp kept).1, readBlob_ok repo file.oid data read,
      (Except.ok.inj ran).symm⟩

/-- What a trace of a captured anchor reports: at most one candidate, that names the captured
text at the beginning of a line of a file of the target. -/
theorem trace_in_place [DecidableEq ObjectId] (modes : ModesAgree gix) (captured : Repository gix)
    (revision path : String) (lines : Option LineRange) (anchor : Anchor ObjectId)
    (took : capture captured revision path lines = .ok anchor)
    (some_bytes : anchor.identity.span.start < anchor.identity.span.stop) :
    ∃ text, Remembers anchor text ∧ ∀ (repo : Repository gix) (target : String) (traced : List Candidate),
      diffTrace repo anchor target = .ok traced →
      ∃ commit targetTree, resolveCommit repo target = .ok commit ∧ gix.rootTree commit = some targetTree ∧
        traced.length ≤ 1 ∧ ∀ found ∈ traced, ∃ entry data span, found = candidate found.path (some span) ∧
          gix.entryAt targetTree found.path = some entry ∧ entry.mode.isBlob = true ∧
          gix.content entry.oid = some data ∧ Aligned text data span := by
  obtain ⟨root, blob, content, text, there, sliced, remembers⟩ :=
    remembers_of_capture captured revision path lines anchor took some_bytes
  have genesis := (capture_ok captured revision path lines anchor took).1
  refine ⟨text, remembers, ?_⟩
  intro repo target traced ran
  obtain ⟨commit, targetTree, resolved, rooted, traces⟩ :=
    diffTrace_ok repo anchor target traced (resolveCommit_isCommit captured revision _ genesis) ran
  refine ⟨commit, targetTree, resolved, rooted, ?_, traces_aligned modes repo anchor targetTree root blob content lines
    text traced there sliced traces⟩
  obtain ⟨ordered, last, whole⟩ := spanFor_ok content _ lines _ there.span
  have own := aligned_lineSpan content _ _ ordered last
  have covers := spanToLines_lineSpan content _ _ ordered last
  rw [← whole] at own covers
  exact (traces_keep_text repo anchor targetTree root blob content text traced there.rootTree there.blobIdAt
    there.stored sliced (by rw [covers]; exact Option.some.inj (own.2.2.symm.trans sliced)) traces).1

/-- The oracles agree. What the trace reports at the anchor's own path, the fingerprint reports
as well, at the same span and with the same confidence; and nothing it reports is surer. -/
theorem oracles_agree [DecidableEq ObjectId] (modes : ModesAgree gix) (captured : Repository gix)
    (revision path : String) (lines : Option LineRange) (anchor : Anchor ObjectId)
    (took : capture captured revision path lines = .ok anchor)
    (some_bytes : anchor.identity.span.start < anchor.identity.span.stop)
    (repo : Repository gix) (anchorId : ObjectId) (target : String)
    (source : Option (ObjectId → ObjectId → List Candidate)) (candidates : List Candidate)
    (ran : project repo anchor anchorId target source = .ok candidates) :
    ∃ commit traced found, resolveCommit repo target = .ok commit ∧
      candidates = opLog source anchorId commit ++ traced ++ found ∧
      diffTrace repo anchor target = .ok traced ∧ fingerprint repo anchor target = .ok found ∧
      traced.length ≤ 1 ∧ (∀ one ∈ traced, one.confidence = 1 ∧
        (one.path = anchor.identity.path → { one with oracle := .fingerprint } ∈ found)) ∧
      ∀ one ∈ found, one.path = anchor.identity.path ∧ 0 < one.confidence ∧ one.confidence ≤ 1 := by
  simp only [project, Result.bind_eq_ok, Result.pure_eq_ok] at ran
  obtain ⟨commit, resolved, traced, trace, found, fuzzy, rfl⟩ := ran
  obtain ⟨text, remembers, stands⟩ := trace_in_place modes captured revision path lines anchor took some_bytes
  obtain ⟨commit', targetTree, resolved', rooted, single, aligned⟩ := stands repo target traced trace
  obtain rfl := Except.ok.inj (resolved'.symm.trans resolved)
  have searched := fingerprint_ok repo anchor text remembers target commit' targetTree resolved rooted found fuzzy
  refine ⟨commit', traced, found, resolved, rfl, trace, fuzzy, single, ?_, ?_⟩
  · intro one member
    obtain ⟨entry, data, span, shape, located, isBlob, stored, place⟩ := aligned one member
    refine ⟨by rw [shape]; rfl, ?_⟩
    intro own
    rw [own] at located shape
    rcases searched with ⟨_, missing⟩ | ⟨entry', data', located', stored', rfl⟩
    · rw [located, entry.kept_of_isBlob isBlob] at missing
      cases missing
    · obtain rfl := Option.some.inj (located.symm.trans located')
      obtain rfl := Option.some.inj (stored.symm.trans stored')
      rw [shape]
      exact windowCandidates_of_aligned text anchor.identity.path data span remembers.some_bytes place
  · intro one member
    rcases searched with ⟨rfl, _⟩ | ⟨_, data, _, _, rfl⟩
    · cases member
    · exact (windowCandidates_bounds text anchor.identity.path data remembers.some_bytes one member).2

/-- A position that is valid in place at a commit is so still when its own commit has been
collected, in any repository that reads the file there. -/
theorem validity_survives_collection [DecidableEq ObjectId] (modes : ModesAgree gix) (captured : Repository gix)
    (revision path : String) (lines : Option LineRange) (anchor : Anchor ObjectId)
    (took : capture captured revision path lines = .ok anchor)
    (some_bytes : anchor.identity.span.start < anchor.identity.span.stop)
    (repo pruned : Repository gix) (target target' : String) (commit : ObjectId) (traced : List Candidate)
    (trace : diffTrace repo anchor target = .ok traced) (inPlace : ∃ one ∈ traced, one.path = anchor.identity.path)
    (resolved : resolveCommit repo target = .ok commit) (resolved' : resolveCommit pruned target' = .ok commit)
    (reads : ∃ data, ReadsAt pruned commit anchor.identity.path data)
    (lost : pruned.hasObject anchor.identity.genesisRev = false) :
    positionValidity repo anchor target = .ok .valid ∧ positionValidity pruned anchor target' = .ok .valid := by
  obtain ⟨one, member, own⟩ := inPlace
  obtain ⟨text, remembers, stands⟩ := trace_in_place modes captured revision path lines anchor took some_bytes
  obtain ⟨commit', targetTree, again, rooted, _, aligned⟩ := stands repo target traced trace
  obtain rfl := Except.ok.inj (again.symm.trans resolved)
  refine ⟨?_, ?_⟩
  · unfold positionValidity
    simp only [trace]
    exact if_pos (List.ne_nil_of_mem member)
  · obtain ⟨entry, data, span, shape, located, _, stored, boundary, extent, place⟩ := aligned one member
    rw [positionValidity_lost pruned anchor text remembers target' commit' resolved' lost]
    obtain ⟨found, root, entry', rooted', looked, isBlob, read⟩ := reads
    obtain rfl := Option.some.inj (rooted.symm.trans (treeOf_ok pruned commit' root rooted'))
    rw [own] at located
    obtain rfl := Option.some.inj (located.symm.trans (lookupEntry_ok pruned targetTree _ _ looked).symm)
    obtain rfl := Option.some.inj (stored.symm.trans (readBlob_ok pruned _ found read))
    refine ⟨data, ⟨targetTree, entry, rooted', looked, isBlob, read⟩, span.start, boundary, text, ?_, rfl⟩
    rw [← extent]
    exact place

section Sample

theorem plain_modes : ModesAgree plainGix := by
  intro source target change member location id mode led entry located
  obtain ⟨data, _, rfl⟩ := Option.map_eq_some_iff.mp located
  obtain ⟨⟨path, old⟩, _, became⟩ := List.mem_filterMap.mp member
  unfold plainChange at became
  split at became
  · split at became
    · cases became
    · obtain rfl := Option.some.inj became
      rcases led with same | ⟨_, _, same⟩ <;> cases same
      rfl
  · split at became
    · obtain rfl := Option.some.inj became
      rcases led with same | ⟨_, _, same⟩ <;> cases same
    · obtain ⟨found, _, rfl⟩ := Option.map_eq_some_iff.mp became
      rcases led with same | ⟨_, _, same⟩ <;> cases same
      rfl

theorem secondLine_took : capture plainRepo "HEAD" "file.txt" (some ⟨2, 2⟩) = .ok secondLine := by decide +kernel

/-- Below an inserted line, both oracles find the line. -/
theorem secondLine_projected : project plainRepo secondLine (.blob twoLines) "next" none =
    .ok [candidate "file.txt" (some ⟨4, 6⟩), ⟨.fingerprint, 1, "file.txt", some ⟨4, 6⟩⟩] := by decide +kernel

theorem oracles_agree_next : ∃ traced found, diffTrace plainRepo secondLine "next" = .ok traced ∧
    fingerprint plainRepo secondLine "next" = .ok found ∧
    ∀ one ∈ traced, one.path = "file.txt" → { one with oracle := .fingerprint } ∈ found := by
  obtain ⟨_, traced, found, _, _, trace, fuzzy, _, agree, _⟩ :=
    oracles_agree plain_modes plainRepo "HEAD" "file.txt" (some ⟨2, 2⟩) secondLine secondLine_took (by decide)
      plainRepo (.blob twoLines) "next" none _ secondLine_projected
  exact ⟨traced, found, trace, fuzzy, fun one member => (agree one member).2⟩

/-- The repository once the commit of the line has been collected. -/
def collectedRepo : Repository plainGix :=
  { plainRepo with hasObject := fun id => decide (id ≠ .commit [("file.txt", twoLines)]) }

theorem validity_survives_collection_next :
    positionValidity plainRepo secondLine "next" = .ok .valid ∧ positionValidity collectedRepo secondLine "next" = .ok .valid := by
  have traced : diffTrace plainRepo secondLine "next" = .ok [candidate "file.txt" (some ⟨4, 6⟩)] := by decide +kernel
  exact validity_survives_collection plain_modes plainRepo "HEAD" "file.txt" (some ⟨2, 2⟩) secondLine secondLine_took
    (by decide) plainRepo collectedRepo "next" "next" (.commit [("file.txt", threeLines)]) _ traced
    ⟨_, List.mem_cons_self, rfl⟩ (by decide +kernel) (by decide +kernel)
    ⟨threeLines, .tree [("file.txt", threeLines)], ⟨.blob, .blob threeLines⟩, rfl, rfl, rfl, rfl⟩ (by decide +kernel)

end Sample

end GitAnchor.Anchoring
