import Mathlib.Algebra.Order.Field.Basic
import Mathlib.Algebra.Order.Field.Rat
import GitAnchor.Anchoring.DiffTrace

/-! The fingerprint oracle: a window as wide as the anchor's span is laid at every line boundary
of the target blob, and compared with the anchor's fingerprint slot by slot. -/

namespace GitAnchor.Anchoring
open GitAnchor.Foundation GitAnchor.Substrate
variable {ObjectId : Type} {gix : Gix ObjectId}

def MINHASH_SHINGLE_V1 : String := "minhash-shingle-v1"
def V1_SHINGLE_LEN : Nat := 8

/-- The value that the algorithm of a fingerprint gives to other bytes. -/
def fingerprintFor (algo : String) (bytes : Bytes) : Option Bytes :=
  if algo = MINHASH_SHINGLE_V1 then some (minhashShingle bytes V1_SHINGLE_LEN 4)
  else if algo = MINHASH_SHINGLE_V2 then some (minhashShingle bytes SHINGLE_LEN NUM_HASHES)
  else none

/-- Slot `i` of a fingerprint value. -/
def slot (value : Bytes) (i : Nat) : Bytes := (value.drop (i * 8)).take 8

/-- The fraction of slots in which two values agree, none where they differ in shape. -/
def minhashSimilarity (a b : Bytes) : Rat :=
  if a = [] ∨ a.length ≠ b.length ∨ ¬ 8 ∣ a.length then 0
  else
    let slots := a.length / 8
    let alike := ((List.range slots).filter (fun i => slot a i = slot b i)).length
    (alike : Rat) / (slots : Rat)

/-- The fingerprint of the anchored bytes, taken again from the anchor's own commit. -/
def recomputeReference (repo : Repository gix) (anchor : Anchor ObjectId) : Result ObjectId (Option Bytes) :=
  if repo.hasObject anchor.identity.genesisRev then do
    let commit ← commitAt repo anchor.identity.genesisRev
    let tree ← treeOf repo commit
    let found ← blobAt repo tree anchor.identity.path
    match found with
    | none => return none
    | some blob => do
        let bytes ← readBlob repo blob
        return (anchor.identity.span.slice bytes).map (fun slice => (captureFingerprint slice).value)
  else return none

/-- What windows are compared with: the first retained fingerprint of a known algorithm, or
else one taken again. -/
def referenceFor (repo : Repository gix) (anchor : Anchor ObjectId) : Result ObjectId (Option (String × Bytes)) :=
  match anchor.hints.fingerprints.find?
      (fun found => found.algo = MINHASH_SHINGLE_V1 || found.algo = MINHASH_SHINGLE_V2) with
  | some found => return some (found.algo, found.value)
  | none => do
      let value ← recomputeReference repo anchor
      return value.map (fun value => (MINHASH_SHINGLE_V2, value))

/-- The candidate of the window at `start`, where it fits and agrees in some slot. -/
def windowCandidate (algo : String) (reference : Bytes) (path : String) (data : Data) (windowLen start : Nat) :
    Option Candidate := do
  let stop ← checkedAdd start windowLen
  let window ← (⟨start, stop⟩ : Span).slice data
  let own ← fingerprintFor algo window
  let score := minhashSimilarity own reference
  if 0 < score then some { oracle := .fingerprint, confidence := score, path := path, span := some ⟨start, stop⟩ }
  else none

/-- The candidates of the fingerprint oracle for `anchor` at the revision `target`. -/
def fingerprint (repo : Repository gix) (anchor : Anchor ObjectId) (target : String) :
    Result ObjectId (List Candidate) := do
  let known ← referenceFor repo anchor
  match known with
  | none => return []
  | some (algo, reference) => do
      let targetCommit ← resolveCommit repo target
      let targetTree ← treeOf repo targetCommit
      let found ← lookupEntry repo targetTree anchor.identity.path
      match found.filter (·.mode.isBlob) with
      | none => return []
      | some entry => do
          let data ← readBlob repo entry.oid
          let windowLen := anchor.identity.span.stop - anchor.identity.span.start
          if windowLen = 0 ∨ data.bytes.length < windowLen then return []
          else
            return List.filterMap (windowCandidate algo reference anchor.identity.path data windowLen)
              (lineBoundaries data)

/-! Comparing values. -/

/-- Values of one length are the same exactly when they are so slot by slot. -/
theorem eq_of_slots (a b : Bytes) (n : Nat) (length : a.length = 8 * n) (length' : b.length = 8 * n)
    (same : ∀ i, i < n → slot a i = slot b i) : a = b := by
  apply List.ext_getElem?
  intro k
  by_cases inside : k < 8 * n
  · have here := congrArg (fun value => value[k % 8]?) (same (k / 8) (by omega))
    simp only [slot, List.getElem?_take, List.getElem?_drop] at here
    simp only [if_pos (Nat.mod_lt k (show 0 < 8 by decide)), Nat.div_add_mod'] at here
    exact here
  · rw [List.getElem?_eq_none (by omega), List.getElem?_eq_none (by omega)]

/-- Values of one shape are wholly similar exactly when they are the same. -/
theorem minhashSimilarity_ge_one_iff (a b : Bytes) (n : Nat) (some_slot : 0 < n) (length : a.length = 8 * n)
    (length' : b.length = 8 * n) : 1 ≤ minhashSimilarity a b ↔ a = b := by
  have shaped : ¬ (a = [] ∨ a.length ≠ b.length ∨ ¬ 8 ∣ a.length) := by
    rintro (empty | differ | ragged)
    · rw [empty, List.length_nil] at length
      omega
    · omega
    · exact ragged ⟨n, length⟩
  have slots : a.length / 8 = n := by omega
  have positive : (0 : Rat) < (n : Rat) := by exact_mod_cast some_slot
  rw [minhashSimilarity, if_neg shaped, slots]
  dsimp only
  rw [one_le_div positive, Nat.cast_le]
  constructor
  · intro all
    apply eq_of_slots a b n length length'
    intro i inside
    have whole := List.length_filter_eq_length_iff.mp
      (Nat.le_antisymm (List.length_filter_le _ _) (by rw [List.length_range]; exact all))
    exact of_decide_eq_true (whole i (List.mem_range.mpr inside))
  · rintro rfl
    rw [List.filter_eq_self.mpr (by simp), List.length_range]

end GitAnchor.Anchoring
