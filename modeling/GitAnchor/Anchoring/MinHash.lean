import GitAnchor.Anchoring.FingerprintOracle
import GitAnchor.Foundation.Minima

/-! A MinHash value as a function of a set. Each slot keeps the least of its hashes over the
shingles, so a value shows which shingles there are and not where or how often. -/

namespace GitAnchor.Anchoring
open GitAnchor.Foundation GitAnchor.Substrate

/-- The hash of a shingle under the seed of slot `i`. -/
def slotHash (i : Nat) (shingle : Bytes) : Nat := (splitmix64 (fnv1a shingle ^^^ seedOf i)).toNat

/-- The number that eight bytes write, the first one the most significant. -/
def ofBeBytes (bytes : Bytes) : Nat := bytes.foldl (fun number byte => 256 * number + byte.toNat) 0

def slotNumber (value : Bytes) (i : Nat) : Nat := ofBeBytes (slot value i)

/-- The `k`-byte windows of a text, as a set. -/
def windowSet (k : Nat) (bytes : Bytes) : Set Bytes :=
  {window | ∃ start, start + k ≤ bytes.length ∧ window = (bytes.drop start).take k}

/-- What is hashed: the windows, or the whole of a text no longer than one. -/
def shingleSet (k : Nat) (bytes : Bytes) : Set Bytes :=
  if bytes.length ≤ k then {bytes} else windowSet k bytes

/-- The shingles in the order in which they are hashed. -/
def shingleList (k : Nat) (bytes : Bytes) : List Bytes := if bytes.length ≤ k then [bytes] else windows k bytes

/-! Shingles. -/

theorem mem_windows (k : Nat) (positive : 1 ≤ k) (bytes window : Bytes) :
    window ∈ windows k bytes ↔ window ∈ windowSet k bytes := by
  induction bytes with
  | nil =>
    refine iff_of_false nofun ?_
    intro ⟨start, fits, _⟩
    rw [List.length_nil] at fits
    omega
  | cons byte rest ih =>
    unfold windows
    split
    · next fits =>
      rw [List.mem_cons, ih]
      constructor
      · rintro (rfl | ⟨start, inside, rfl⟩)
        · exact ⟨0, by rw [List.length_cons]; omega, rfl⟩
        · exact ⟨start + 1, by rw [List.length_cons]; omega, rfl⟩
      · rintro ⟨start, inside, rfl⟩
        cases start with
        | zero => exact .inl rfl
        | succ start =>
          rw [List.length_cons] at inside
          exact .inr ⟨start, by omega, rfl⟩
    · next short =>
      refine iff_of_false nofun ?_
      intro ⟨start, fits, _⟩
      rw [List.length_cons] at fits
      omega

theorem mem_shingleList (k : Nat) (positive : 1 ≤ k) (bytes shingle : Bytes) :
    shingle ∈ shingleList k bytes ↔ shingle ∈ shingleSet k bytes := by
  unfold shingleList shingleSet
  split
  · exact List.mem_singleton
  · exact mem_windows k positive bytes shingle

theorem shingleList_ne_nil (k : Nat) (positive : 1 ≤ k) (bytes : Bytes) : shingleList k bytes ≠ [] := by
  unfold shingleList
  split
  · exact List.cons_ne_nil _ _
  · next long =>
    apply List.ne_nil_of_mem
    exact (mem_windows k positive bytes (bytes.take k)).mpr ⟨0, by omega, rfl⟩

/-! Slots. -/

/-- One shingle lowers each slot to its own hash, where that is less. -/
theorem foldShingle_getElem? (mins : List UInt64) (shingle : Bytes) (i : Nat) :
    ((foldShingle mins shingle)[i]?).map UInt64.toNat =
      (mins[i]?).map (fun slot => min slot.toNat (slotHash i shingle)) := by
  unfold foldShingle
  rw [List.getElem?_map, List.getElem?_zipIdx]
  cases mins[i]? with
  | none => rfl
  | some slot =>
    simp only [Option.map_some, Nat.zero_add, Option.some.injEq, slotHash]
    split
    · next lower =>
      rw [UInt64.lt_iff_toNat_lt] at lower
      omega
    · next higher =>
      rw [UInt64.lt_iff_toNat_lt] at higher
      omega

theorem foldl_foldShingle_getElem? (shingles : List Bytes) (mins : List UInt64) (i : Nat) :
    ((shingles.foldl foldShingle mins)[i]?).map UInt64.toNat =
      (mins[i]?).map (fun slot => Minima.leastFrom slot.toNat (slotHash i) shingles) := by
  induction shingles generalizing mins with
  | nil => rfl
  | cons shingle rest ih =>
    have lowered := foldShingle_getElem? mins shingle i
    rw [List.foldl_cons, ih]
    calc ((foldShingle mins shingle)[i]?).map (fun slot => Minima.leastFrom slot.toNat (slotHash i) rest)
        = (((foldShingle mins shingle)[i]?).map UInt64.toNat).map
            (fun least => Minima.leastFrom least (slotHash i) rest) := by rw [Option.map_map]; rfl
      _ = ((mins[i]?).map (fun slot => min slot.toNat (slotHash i shingle))).map
            (fun least => Minima.leastFrom least (slotHash i) rest) := by rw [lowered]
      _ = (mins[i]?).map (fun slot => Minima.leastFrom slot.toNat (slotHash i) (shingle :: rest)) := by
            rw [Option.map_map]; rfl

theorem toNat_place (value : UInt64) (shift : Nat) (small : shift < 64) :
    (value >>> UInt64.ofNat shift).toUInt8.toNat = value.toNat / 2 ^ shift % 256 := by
  have fits : shift < UInt64.size := small.trans (by decide)
  rw [UInt64.toNat_toUInt8, UInt64.toNat_shiftRight, Nat.shiftRight_eq_div_pow, UInt64.toNat_ofNat_of_lt' fits,
    Nat.mod_eq_of_lt small]

/-- Eight bytes are enough for a slot, and are read back as it was. -/
theorem ofBeBytes_toBeBytes (value : UInt64) : ofBeBytes (toBeBytes value) = value.toNat := by
  have digit (shift : Nat) :
      256 * (value.toNat / 2 ^ (shift + 8)) + value.toNat / 2 ^ shift % 256 = value.toNat / 2 ^ shift := by
    rw [pow_add, ← Nat.div_div_eq_div_mul]
    exact Nat.div_add_mod _ _
  have first : 256 * 0 + value.toNat / 2 ^ 56 % 256 = value.toNat / 2 ^ 56 := by
    have above : value.toNat / 2 ^ (56 + 8) = 0 := Nat.div_eq_of_lt value.toNat_lt
    have next := digit 56
    rw [above] at next
    exact next
  have places : toBeBytes value =
      [56, 48, 40, 32, 24, 16, 8, 0].map (fun shift : Nat => (value >>> UInt64.ofNat shift).toUInt8) := rfl
  rw [places, ofBeBytes, List.foldl_map]
  simp only [List.foldl_cons, List.foldl_nil, toNat_place, Nat.reduceLT]
  rw [first, digit 48, digit 40, digit 32, digit 24, digit 16, digit 8, digit 0, pow_zero, Nat.div_one]

theorem slot_flatMap (mins : List UInt64) (i : Nat) (value : UInt64) (located : mins[i]? = some value) :
    slot (mins.flatMap toBeBytes) i = toBeBytes value := by
  induction mins generalizing i with
  | nil => cases located
  | cons first rest ih =>
    have eight : (toBeBytes first).length = 8 := rfl
    cases i with
    | zero =>
      obtain rfl : first = value := Option.some.inj located
      rw [slot, List.flatMap_cons, Nat.zero_mul, List.drop_zero]
      exact List.take_left' eight
    | succ i =>
      rw [← ih i located, slot, slot, List.flatMap_cons]
      have further : (i + 1) * 8 = (toBeBytes first).length + i * 8 := by omega
      rw [further, List.drop_append, List.drop_eq_nil_of_le (Nat.le_add_right _ _), Nat.add_sub_cancel_left,
        List.nil_append]

/-- Every slot of a value is the least of its hashes over the shingles. -/
theorem slot_minhashShingle (k hashes i : Nat) (bytes : Bytes) (inside : i < hashes) :
    ∃ least : UInt64, slot (minhashShingle bytes k hashes) i = toBeBytes least ∧
      least.toNat = Minima.leastFrom (0xFFFFFFFFFFFFFFFF : UInt64).toNat (slotHash i) (shingleList k bytes) := by
  have start : (List.replicate hashes (0xFFFFFFFFFFFFFFFF : UInt64))[i]? = some 0xFFFFFFFFFFFFFFFF := by
    rw [List.getElem?_replicate, if_pos inside]
  have lowered := foldl_foldShingle_getElem? (shingleList k bytes)
    (List.replicate hashes (0xFFFFFFFFFFFFFFFF : UInt64)) i
  rw [start, Option.map_some, Option.map_eq_some_iff] at lowered
  obtain ⟨least, located, same⟩ := lowered
  exact ⟨least, slot_flatMap _ i least located, same⟩

theorem slotNumber_minhashShingle (k hashes i : Nat) (bytes : Bytes) (inside : i < hashes) :
    slotNumber (minhashShingle bytes k hashes) i =
      Minima.leastFrom (0xFFFFFFFFFFFFFFFF : UInt64).toNat (slotHash i) (shingleList k bytes) := by
  obtain ⟨least, here, same⟩ := slot_minhashShingle k hashes i bytes inside
  rw [slotNumber, here, ofBeBytes_toBeBytes, same]

theorem slotHash_le (i : Nat) (shingle : Bytes) : slotHash i shingle ≤ (0xFFFFFFFFFFFFFFFF : UInt64).toNat := by
  have bound := (splitmix64 (fnv1a shingle ^^^ seedOf i)).toNat_lt
  have top : (0xFFFFFFFFFFFFFFFF : UInt64).toNat = 2 ^ 64 - 1 := rfl
  unfold slotHash
  omega

/-- Values that agree as numbers in every slot are the same. -/
theorem minhashShingle_congr (k hashes : Nat) (bytes other : Bytes)
    (same : ∀ i, i < hashes → slotNumber (minhashShingle bytes k hashes) i = slotNumber (minhashShingle other k hashes) i) :
    minhashShingle bytes k hashes = minhashShingle other k hashes := by
  apply eq_of_slots _ _ hashes (minhashShingle_length bytes k hashes) (minhashShingle_length other k hashes)
  intro i inside
  obtain ⟨first, here, _⟩ := slot_minhashShingle k hashes i bytes inside
  obtain ⟨second, there, _⟩ := slot_minhashShingle k hashes i other inside
  have agree := same i inside
  rw [slotNumber, slotNumber, here, there, ofBeBytes_toBeBytes, ofBeBytes_toBeBytes] at agree
  rw [here, there, UInt64.toNat_inj.mp agree]

/-! Sets of shingles. -/

theorem slotNumber_isLeast (k hashes i : Nat) (positive : 1 ≤ k) (bytes : Bytes) (inside : i < hashes) :
    IsLeast (slotHash i '' shingleSet k bytes) (slotNumber (minhashShingle bytes k hashes) i) := by
  rw [slotNumber_minhashShingle k hashes i bytes inside]
  have least := Minima.leastFrom_isLeast _ (slotHash i) (shingleList k bytes)
    (shingleList_ne_nil k positive bytes) (fun shingle _ => slotHash_le i shingle)
  have shingles : {shingle | shingle ∈ shingleList k bytes} = shingleSet k bytes := by
    ext shingle
    exact mem_shingleList k positive bytes shingle
  rw [shingles] at least
  exact least

/-- The shingles of a text longer than a window are its windows. -/
theorem mem_shingleList_of_long (k : Nat) (positive : 1 ≤ k) (bytes : Bytes) (long : k < bytes.length) (window : Bytes) :
    window ∈ shingleList k bytes ↔ window ∈ windowSet k bytes := by
  rw [mem_shingleList k positive, shingleSet, if_neg (by omega)]

theorem minhashShingle_windowSet (k hashes : Nat) (positive : 1 ≤ k) (bytes other : Bytes) (long : k < bytes.length)
    (long' : k < other.length) (same : windowSet k bytes = windowSet k other) :
    minhashShingle bytes k hashes = minhashShingle other k hashes := by
  apply minhashShingle_congr
  intro i inside
  rw [slotNumber_minhashShingle k hashes i bytes inside, slotNumber_minhashShingle k hashes i other inside]
  apply Minima.leastFrom_congr
  intro window
  rw [mem_shingleList_of_long k positive bytes long, mem_shingleList_of_long k positive other long', same]

/-- With more windows no slot is greater. -/
theorem slotNumber_anti (k hashes i : Nat) (positive : 1 ≤ k) (bytes other : Bytes) (long : k < bytes.length)
    (long' : k < other.length) (contained : windowSet k bytes ⊆ windowSet k other) (inside : i < hashes) :
    slotNumber (minhashShingle other k hashes) i ≤ slotNumber (minhashShingle bytes k hashes) i := by
  rw [slotNumber_minhashShingle k hashes i bytes inside, slotNumber_minhashShingle k hashes i other inside]
  apply Minima.leastFrom_anti
  intro window member
  rw [mem_shingleList_of_long k positive bytes long] at member
  exact (mem_shingleList_of_long k positive other long' window).mpr (contained member)

theorem slotNumber_union (k hashes i : Nat) (positive : 1 ≤ k) (bytes other both : Bytes) (long : k < bytes.length)
    (long' : k < other.length) (long'' : k < both.length)
    (union : windowSet k both = windowSet k bytes ∪ windowSet k other) (inside : i < hashes) :
    slotNumber (minhashShingle both k hashes) i =
      min (slotNumber (minhashShingle bytes k hashes) i) (slotNumber (minhashShingle other k hashes) i) := by
  rw [slotNumber_minhashShingle k hashes i bytes inside, slotNumber_minhashShingle k hashes i other inside,
    slotNumber_minhashShingle k hashes i both inside]
  apply Minima.leastFrom_union
  intro window
  rw [mem_shingleList_of_long k positive bytes long, mem_shingleList_of_long k positive other long',
    mem_shingleList_of_long k positive both long'', union]
  exact Iff.rfl

/-! Similarity. -/

theorem minhashSimilarity_comm (a b : Bytes) : minhashSimilarity a b = minhashSimilarity b a := by
  unfold minhashSimilarity
  by_cases same : a.length = b.length
  · have empty : a = [] ↔ b = [] := by
      rw [← List.length_eq_zero_iff, ← List.length_eq_zero_iff, same]
    simp only [empty, same, eq_comm]
  · rw [if_pos (.inr (.inl same)), if_pos (.inr (.inl (Ne.symm same)))]

theorem minhashSimilarity_bounds (a b : Bytes) : 0 ≤ minhashSimilarity a b ∧ minhashSimilarity a b ≤ 1 := by
  unfold minhashSimilarity
  split
  · exact ⟨le_refl 0, zero_le_one⟩
  · have fewer : ((List.range (a.length / 8)).filter (fun i => slot a i = slot b i)).length ≤ a.length / 8 := by
      have all := List.length_filter_le (fun i => decide (slot a i = slot b i)) (List.range (a.length / 8))
      rw [List.length_range] at all
      exact all
    exact ⟨div_nonneg (Nat.cast_nonneg _) (Nat.cast_nonneg _),
      div_le_one_of_le₀ (by exact_mod_cast fewer) (Nat.cast_nonneg _)⟩

theorem minhashSimilarity_eq_one_iff (a b : Bytes) (nonempty : a ≠ []) (length : a.length = b.length)
    (whole : 8 ∣ a.length) : minhashSimilarity a b = 1 ↔ a = b := by
  obtain ⟨n, slots⟩ := whole
  have positive := List.length_pos_iff.mpr nonempty
  rw [← minhashSimilarity_ge_one_iff a b n (by omega) slots (by omega)]
  exact ⟨fun one => le_of_eq one.symm, fun least => le_antisymm (minhashSimilarity_bounds a b).2 least⟩

/-- A value is a function of the set of shingles: the least hash of each slot. It falls as the
set grows, meets over unions, and equal values are those wholly similar. -/
theorem minhashShingle_set (k hashes : Nat) (positive : 1 ≤ k) (bytes : Bytes) :
    (minhashShingle bytes k hashes).length = 8 * hashes ∧
      (∀ i, i < hashes →
        IsLeast (slotHash i '' shingleSet k bytes) (slotNumber (minhashShingle bytes k hashes) i)) ∧
      (∀ other : Bytes, k < bytes.length → k < other.length → windowSet k bytes = windowSet k other →
        minhashShingle bytes k hashes = minhashShingle other k hashes) ∧
      (∀ other : Bytes, k < bytes.length → k < other.length → windowSet k bytes ⊆ windowSet k other →
        ∀ i, i < hashes →
          slotNumber (minhashShingle other k hashes) i ≤ slotNumber (minhashShingle bytes k hashes) i) ∧
      (∀ other both : Bytes, k < bytes.length → k < other.length → k < both.length →
        windowSet k both = windowSet k bytes ∪ windowSet k other → ∀ i, i < hashes →
          slotNumber (minhashShingle both k hashes) i =
            min (slotNumber (minhashShingle bytes k hashes) i) (slotNumber (minhashShingle other k hashes) i)) ∧
      (∀ a b : Bytes, a.length = b.length → a ≠ [] → 8 ∣ a.length →
        minhashSimilarity a b = minhashSimilarity b a ∧ 0 ≤ minhashSimilarity a b ∧ minhashSimilarity a b ≤ 1 ∧
          (minhashSimilarity a b = 1 ↔ a = b)) := by
  refine ⟨minhashShingle_length bytes k hashes, ?_, ?_, ?_, ?_, ?_⟩
  · intro i inside
    exact slotNumber_isLeast k hashes i positive bytes inside
  · intro other long long' same
    exact minhashShingle_windowSet k hashes positive bytes other long long' same
  · intro other long long' contained i inside
    exact slotNumber_anti k hashes i positive bytes other long long' contained inside
  · intro other both long long' long'' union i inside
    exact slotNumber_union k hashes i positive bytes other both long long' long'' union inside
  · intro a b length nonempty whole
    obtain ⟨least, most⟩ := minhashSimilarity_bounds a b
    exact ⟨minhashSimilarity_comm a b, least, most, minhashSimilarity_eq_one_iff a b nonempty length whole⟩

/-- The windows of `aba` and of `baba` are `ab` and `ba`, in other orders and numbers. -/
theorem minhashShingle_set_reordered :
    minhashShingle [97, 98, 97] 2 16 = minhashShingle [98, 97, 98, 97] 2 16 := by
  apply (minhashShingle_set 2 16 (by decide) [97, 98, 97]).2.2.1 [98, 97, 98, 97] (by decide) (by decide)
  ext window
  rw [← mem_windows 2 (by decide), ← mem_windows 2 (by decide)]
  simp only [windows, List.length_cons, List.length_nil, Nat.reduceAdd, Nat.reduceLeDiff, if_true, if_false,
    List.take_succ_cons, List.take_zero, List.mem_cons, List.not_mem_nil, or_false]
  tauto

end GitAnchor.Anchoring
