import GitAnchor.Anchoring.LostGenesis
import GitAnchor.Anchoring.MinHash

/-! All that the fingerprint oracle finds. A capture, a recomputation and a window are hashed
alike, so every window of the target is weighed against the captured text itself. -/

namespace GitAnchor.Anchoring
open GitAnchor.Foundation GitAnchor.Substrate
variable {ObjectId : Type} {gix : Gix ObjectId}

/-- In how many slots the fingerprints of two texts agree. -/
def sharedSlots (one other : Bytes) : Nat :=
  ((List.range NUM_HASHES).filter (fun i =>
    slot (captureFingerprint one).value i = slot (captureFingerprint other).value i)).length

def windowAt (data : Data) (start width : Nat) : Bytes := (data.bytes.take (start + width)).drop start

/-- The window of the text's length at `start` is inside the blob, and shares a slot. -/
def Shares (text : Bytes) (data : Data) (start : Nat) : Prop :=
  start + text.length ≤ data.bytes.length ∧ 0 < sharedSlots (windowAt data start text.length) text

instance (text : Bytes) (data : Data) (start : Nat) : Decidable (Shares text data start) :=
  inferInstanceAs (Decidable (_ ∧ _))

/-- The window at `start`, with the fraction of slots that it shares with the text. -/
def scored (text : Bytes) (path : String) (data : Data) (start : Nat) : Candidate :=
  { oracle := .fingerprint
    confidence := (sharedSlots (windowAt data start text.length) text : Rat) / (NUM_HASHES : Rat)
    path := path
    span := some ⟨start, start + text.length⟩ }

/-- The commit that an anchor was captured at is there, with the blob at the anchor's path. -/
structure GenesisPresent (repo : Repository gix) (anchor : Anchor ObjectId) : Prop where
  held : repo.hasObject anchor.identity.genesisRev = true
  peels : (repo.peelToCommit anchor.identity.genesisRev).isSome
  reads : ∃ content, ReadsAt repo anchor.identity.genesisRev anchor.identity.path content

def Anchor.withoutFingerprints (anchor : Anchor ObjectId) : Anchor ObjectId :=
  { anchor with hints := { anchor.hints with fingerprints := [] } }

/-! Scores. -/

theorem sharedSlots_le (one other : Bytes) : sharedSlots one other ≤ NUM_HASHES := by
  have all := List.length_filter_le (fun i => decide (slot (captureFingerprint one).value i =
    slot (captureFingerprint other).value i)) (List.range NUM_HASHES)
  rw [List.length_range] at all
  exact all

theorem sharedSlots_self (text : Bytes) : sharedSlots text text = NUM_HASHES := by
  unfold sharedSlots
  rw [List.filter_eq_self.mpr (by simp), List.length_range]

/-- The similarity of two fingerprints is the fraction of slots that they share. -/
theorem minhashSimilarity_capture (one other : Bytes) :
    minhashSimilarity (captureFingerprint one).value (captureFingerprint other).value =
      (sharedSlots one other : Rat) / (NUM_HASHES : Rat) := by
  have length (text : Bytes) : (captureFingerprint text).value.length = 8 * NUM_HASHES :=
    minhashShingle_length text SHINGLE_LEN NUM_HASHES
  have shaped : ¬ ((captureFingerprint one).value = [] ∨
      (captureFingerprint one).value.length ≠ (captureFingerprint other).value.length ∨
      ¬ 8 ∣ (captureFingerprint one).value.length) := by
    rw [← List.length_eq_zero_iff, length, length]
    decide
  have slots : (captureFingerprint one).value.length / 8 = NUM_HASHES := by
    rw [length]
    rfl
  unfold minhashSimilarity
  rw [if_neg shaped, slots]
  rfl

theorem score_positive_iff (shared : Nat) : (0 : Rat) < (shared : Rat) / (NUM_HASHES : Rat) ↔ 0 < shared := by
  have sixteen : (0 : Rat) < (NUM_HASHES : Rat) := by decide
  rw [div_pos_iff_of_pos_right sixteen, Nat.cast_pos]

/-! Windows. -/

theorem slice_windowAt (data : Data) (start width : Nat) :
    (⟨start, start + width⟩ : Span).slice data =
      if start + width ≤ data.bytes.length then some (windowAt data start width) else none := by
  unfold Span.slice
  simp only [Nat.le_add_right, true_and]
  rfl

/-- What the oracle makes of one boundary. -/
theorem windowCandidate_eq (text : Bytes) (path : String) (data : Data) (start : Nat)
    (inside : start ≤ data.bytes.length) (narrow : text.length ≤ data.bytes.length) :
    windowCandidate MINHASH_SHINGLE_V2 (captureFingerprint text).value path data text.length start =
      if Shares text data start then some (scored text path data start) else none := by
  have bound := data.fits
  have fits : checkedAdd start text.length = some (start + text.length) :=
    checkedAdd_of_le _ _ (by simp only [ISIZE_MAX] at bound; simp only [U64_MAX]; omega)
  have algorithm (window : Bytes) :
      fingerprintFor MINHASH_SHINGLE_V2 window = some (captureFingerprint window).value := rfl
  unfold windowCandidate
  simp only [fits, Option.bind_eq_bind, Option.bind_some, slice_windowAt]
  by_cases whole : start + text.length ≤ data.bytes.length
  · rw [if_pos whole]
    simp only [Option.bind_some, algorithm, minhashSimilarity_capture, score_positive_iff]
    have shares : Shares text data start ↔ 0 < sharedSlots (windowAt data start text.length) text :=
      and_iff_right whole
    simp only [shares]
    rfl
  · rw [if_neg whole, if_neg (fun shares => whole shares.1)]
    rfl

/-- The candidates of a blob are its boundaries that share a slot, in order. -/
theorem windowCandidates_eq (text : Bytes) (path : String) (data : Data) (some_bytes : text ≠ []) :
    windowCandidates text path data =
      ((lineBoundaries data).filter (fun start => decide (Shares text data start))).map (scored text path data) := by
  have positive := List.length_pos_of_ne_nil some_bytes
  unfold windowCandidates
  by_cases narrow : text.length ≤ data.bytes.length
  · rw [if_neg (by omega), ← List.filterMap_eq_map', List.filterMap_filter]
    apply List.filterMap_congr
    intro start boundary
    simp only [decide_eq_true_eq]
    exact windowCandidate_eq text path data start (le_length_of_mem_lineBoundaries data start boundary) narrow
  · rw [if_pos (by omega)]
    have none_share : (lineBoundaries data).filter (fun start => decide (Shares text data start)) = [] := by
      rw [List.filter_eq_nil_iff]
      intro start _ shares
      have inside := (of_decide_eq_true shares).1
      omega
    rw [none_share]
    rfl

/-! References. -/

/-- A fingerprint taken again from the commit is the one that was retained. -/
theorem recomputeReference_eq (repo : Repository gix) (anchor : Anchor ObjectId) (root blob : ObjectId)
    (content : Data) (lines : Option LineRange) (text : Bytes) (captured : Captured gix anchor root blob content lines)
    (sliced : anchor.identity.span.slice content = some text) (present : GenesisPresent repo anchor) :
    recomputeReference repo anchor.withoutFingerprints = .ok (some (captureFingerprint text).value) := by
  obtain ⟨held, peels, found, root', entry, rooted, looked, isBlob, read⟩ := present
  obtain ⟨commit, peeled⟩ := Option.isSome_iff_exists.mp peels
  obtain rfl : root' = root :=
    Option.some.inj ((treeOf_ok repo _ _ rooted).symm.trans captured.rootTree)
  obtain ⟨entry', there, _, rfl⟩ := captured.entry
  obtain rfl : entry = entry' := Option.some.inj ((lookupEntry_ok repo _ _ _ looked).trans there)
  obtain rfl : found = content := Option.some.inj ((readBlob_ok repo _ _ read).symm.trans captured.stored)
  have isCommit : (gix.rootTree anchor.identity.genesisRev).isSome := by
    rw [captured.rootTree]
    rfl
  obtain rfl := repo.peel_self _ commit peeled isCommit
  have again : commitAt repo anchor.identity.genesisRev = .ok anchor.identity.genesisRev := by
    rw [commitAt, peeled]
  have located := blobAt_of_isBlob repo root' _ entry looked isBlob
  unfold recomputeReference Anchor.withoutFingerprints
  dsimp only
  rw [if_pos held, again, Result.ok_bind, rooted, Result.ok_bind, located, Result.ok_bind]
  dsimp only
  rw [read, Result.ok_bind, sliced]
  rfl

/-- So the oracle finds the same without the fingerprints, while the commit is there. -/
theorem fingerprint_withoutFingerprints (repo : Repository gix) (anchor : Anchor ObjectId) (text : Bytes)
    (remembers : Remembers anchor text)
    (again : recomputeReference repo anchor.withoutFingerprints = .ok (some (captureFingerprint text).value))
    (target : String) : fingerprint repo anchor.withoutFingerprints target = fingerprint repo anchor target := by
  have recomputed : referenceFor repo anchor.withoutFingerprints =
      .ok (some (MINHASH_SHINGLE_V2, (captureFingerprint text).value)) := by
    unfold referenceFor
    change (do
      let value ← recomputeReference repo anchor.withoutFingerprints
      return value.map (fun value => (MINHASH_SHINGLE_V2, value)) : Result ObjectId _) = _
    rw [again]
    rfl
  unfold fingerprint
  rw [referenceFor_remembered repo anchor text remembers, recomputed]
  rfl

/-- For what a capture anchored, the oracle returns every boundary of the target's blob whose
window shares a slot with the captured text, in order, under the fraction of slots it shares;
a window that is the text is sure; and the commit, while it is there, stands in for the hints. -/
theorem fingerprint_exact (captured : Repository gix) (revision path : String) (lines : Option LineRange)
    (anchor : Anchor ObjectId) (took : capture captured revision path lines = .ok anchor)
    (some_bytes : anchor.identity.span.start < anchor.identity.span.stop) :
    ∃ root blob content text, Captured gix anchor root blob content lines ∧
      anchor.identity.span.slice content = some text ∧
      text.length = anchor.identity.span.stop - anchor.identity.span.start ∧
      ∀ (repo : Repository gix) (target : String) (commit : ObjectId) (data : Data),
        resolveCommit repo target = .ok commit → ReadsAt repo commit anchor.identity.path data →
        ∃ found, fingerprint repo anchor target = .ok found ∧
          found = ((lineBoundaries data).filter (fun start => decide (Shares text data start))).map
            (scored text anchor.identity.path data) ∧
          ((lineBoundaries data).filter (fun start => decide (Shares text data start))).Pairwise (· < ·) ∧
          (∀ candidate ∈ found, 0 < candidate.confidence ∧ candidate.confidence ≤ 1) ∧
          (∀ start ∈ lineBoundaries data, (⟨start, start + text.length⟩ : Span).slice data = some text →
            ⟨.fingerprint, 1, anchor.identity.path, some ⟨start, start + text.length⟩⟩ ∈ found) ∧
          (GenesisPresent repo anchor → fingerprint repo anchor.withoutFingerprints target = .ok found) := by
  obtain ⟨root, blob, content, text, there, sliced, remembers⟩ :=
    remembers_of_capture captured revision path lines anchor took some_bytes
  refine ⟨root, blob, content, text, there, sliced, remembers.length.symm, ?_⟩
  intro repo target commit data resolved reads
  have sixteen : (0 : Rat) < (NUM_HASHES : Rat) := by decide
  have found_eq := windowCandidates_eq text anchor.identity.path data remembers.some_bytes
  have found := fingerprint_reads repo anchor text remembers target commit resolved data reads
  refine ⟨_, found, found_eq, (lineBoundaries_ascending data).filter _, ?_, ?_, ?_⟩
  · intro candidate member
    rw [found_eq] at member
    obtain ⟨start, kept, rfl⟩ := List.mem_map.mp member
    have shares : Shares text data start := of_decide_eq_true (List.mem_filter.mp kept).2
    have most : sharedSlots (windowAt data start text.length) text ≤ NUM_HASHES := sharedSlots_le _ _
    exact ⟨(score_positive_iff _).mpr shares.2, (div_le_one sixteen).mpr (by exact_mod_cast most)⟩
  · intro start boundary stands
    rw [slice_windowAt] at stands
    split at stands
    · next whole =>
      have same : windowAt data start text.length = text := Option.some.inj stands
      have shares : Shares text data start := ⟨whole, by rw [same, sharedSlots_self]; decide⟩
      rw [found_eq]
      refine List.mem_map.mpr ⟨start, List.mem_filter.mpr ⟨boundary, decide_eq_true shares⟩, ?_⟩
      rw [scored, same, sharedSlots_self, div_self (ne_of_gt sixteen)]
    · cases stands
  · intro present
    have again := recomputeReference_eq repo anchor root blob content lines text there sliced present
    rw [fingerprint_withoutFingerprints repo anchor text remembers again, found]

section Sample

theorem fingerprint_exact_alternating : ∃ found, fingerprint alternatingRepo alternatingAnchor "HEAD" = .ok found ∧
    fingerprint alternatingRepo alternatingAnchor.withoutFingerprints "HEAD" = .ok found := by
  obtain ⟨_, _, content, text, _, _, _, exactly⟩ :=
    fingerprint_exact alternatingRepo "HEAD" "file.txt" none alternatingAnchor alternatingRun.took (by decide)
  have reads : ReadsAt alternatingRepo (.commit [("file.txt", alternating)]) "file.txt" alternating :=
    ⟨.tree [("file.txt", alternating)], ⟨.blob, .blob alternating⟩, rfl, rfl, rfl, rfl⟩
  obtain ⟨found, ran, _, _, _, _, cleared⟩ := exactly alternatingRepo "HEAD" _ alternating (by decide +kernel) reads
  exact ⟨found, ran, cleared ⟨rfl, rfl, alternating, reads⟩⟩

end Sample

end GitAnchor.Anchoring
