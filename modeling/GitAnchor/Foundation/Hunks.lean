import Mathlib.Data.List.Basic

/-! Diffs between two sequences. A diff is a list of hunks, ascending and disjoint on both
sides, with the sequences equal item by item outside them; a block that no hunk touches is
in the new sequence, moved by what the hunks above it insert and delete. -/

namespace GitAnchor.Foundation

/-- The half-open range of positions from `start` to `stop`. -/
structure Range where
  start : Nat
  stop : Nat
deriving DecidableEq, Repr

def Range.length (range : Range) : Nat := range.stop - range.start

/-- What a hunk takes out of the old sequence and puts into the new one. -/
structure Hunk where
  before : Range
  after : Range
deriving DecidableEq, Repr

/-- The hunk changes an item between `start` and `stop`, or inserts strictly inside. -/
def Hunk.Touches (hunk : Hunk) (start stop : Nat) : Prop :=
  hunk.before.start < stop ∧ start < hunk.before.stop

instance (hunk : Hunk) (start stop : Nat) : Decidable (hunk.Touches start stop) :=
  inferInstanceAs (Decidable (_ ∧ _))

variable {α : Type}

/-- The hunks turn the old sequence into the new one, from position `i` of the old and
position `j` of the new on: each is preceded by items that both sequences have. -/
inductive Script : Nat → Nat → List α → List α → List Hunk → Prop where
  | rest (i j : Nat) (same : List α) : Script i j same same []
  | hunk (i j : Nat) (same cut put olds news : List α) (later : List Hunk)
      (script : Script (i + same.length + cut.length) (j + same.length + put.length) olds news later) :
      Script i j (same ++ cut ++ olds) (same ++ put ++ news)
        (⟨⟨i + same.length, i + same.length + cut.length⟩, ⟨j + same.length, j + same.length + put.length⟩⟩ :: later)

/-- How many items the hunks above `start` insert. -/
def inserted (start : Nat) : List Hunk → Nat
  | [] => 0
  | hunk :: later => (if hunk.before.stop ≤ start then hunk.after.length else 0) + inserted start later

/-- How many items the hunks above `start` delete. -/
def deleted (start : Nat) : List Hunk → Nat
  | [] => 0
  | hunk :: later => (if hunk.before.stop ≤ start then hunk.before.length else 0) + deleted start later

theorem inserted_above (start : Nat) (hunk : Hunk) (later : List Hunk) (above : hunk.before.stop ≤ start) :
    inserted start (hunk :: later) = hunk.after.length + inserted start later := by
  rw [inserted, if_pos above]

theorem deleted_above (start : Nat) (hunk : Hunk) (later : List Hunk) (above : hunk.before.stop ≤ start) :
    deleted start (hunk :: later) = hunk.before.length + deleted start later := by
  rw [deleted, if_pos above]

/-- Hunks that end below `start` neither insert nor delete above it. -/
theorem nothing_below (start : Nat) (hunks : List Hunk) (below : ∀ hunk ∈ hunks, start < hunk.before.stop) :
    inserted start hunks = 0 ∧ deleted start hunks = 0 := by
  induction hunks with
  | nil => exact ⟨rfl, rfl⟩
  | cons hunk later ih =>
    have not_above : ¬ hunk.before.stop ≤ start := Nat.not_le.mpr (below hunk List.mem_cons_self)
    obtain ⟨inserts, deletes⟩ := ih (fun other member => below other (List.mem_cons_of_mem _ member))
    rw [inserted, deleted, if_neg not_above, if_neg not_above, inserts, deletes]
    exact ⟨rfl, rfl⟩

theorem inserted_append (start : Nat) (upper lower : List Hunk) :
    inserted start (upper ++ lower) = inserted start upper + inserted start lower := by
  induction upper with
  | nil => simp [inserted]
  | cons hunk later ih => rw [List.cons_append, inserted, inserted, ih, Nat.add_assoc]

theorem deleted_append (start : Nat) (upper lower : List Hunk) :
    deleted start (upper ++ lower) = deleted start upper + deleted start lower := by
  induction upper with
  | nil => simp [deleted]
  | cons hunk later ih => rw [List.cons_append, deleted, deleted, ih, Nat.add_assoc]

namespace Script
variable {i j : Nat} {olds news : List α} {hunks : List Hunk}

/-- Hunks lie at or after the position their script starts from. -/
theorem ranges (script : Script i j olds news hunks) (hunk : Hunk) (member : hunk ∈ hunks) :
    i ≤ hunk.before.start ∧ hunk.before.start ≤ hunk.before.stop ∧ hunk.before.stop ≤ i + olds.length ∧
      hunk.after.start ≤ hunk.after.stop := by
  induction script with
  | rest => cases member
  | hunk i j same cut put olds news later script ih =>
    rw [List.length_append, List.length_append]
    rcases List.mem_cons.mp member with rfl | further
    · simp only
      omega
    · have found := ih further
      omega

theorem later_below {start : Nat} (script : Script i j olds news hunks) (here : start < i) :
    ∀ hunk ∈ hunks, start < hunk.before.stop := by
  intro hunk member
  have found := script.ranges hunk member
  omega

/-- The hunks of a script insert no more than there is in the new sequence, and delete no
more than there is in the old one. -/
theorem totals (script : Script i j olds news hunks) (start : Nat) :
    inserted start hunks ≤ news.length ∧ deleted start hunks ≤ olds.length := by
  induction script with
  | rest => exact ⟨Nat.zero_le _, Nat.zero_le _⟩
  | hunk i j same cut put olds news later script ih =>
    rw [List.length_append, List.length_append, List.length_append, List.length_append]
    by_cases above : i + same.length + cut.length ≤ start
    · rw [inserted_above start _ later above, deleted_above start _ later above]
      simp only [Range.length]
      omega
    · have below : ∀ hunk ∈ later, start < hunk.before.stop := script.later_below (by omega)
      have all : ∀ hunk ∈ (⟨⟨i + same.length, i + same.length + cut.length⟩,
          ⟨j + same.length, j + same.length + put.length⟩⟩ : Hunk) :: later, start < hunk.before.stop := by
        intro hunk member
        rcases List.mem_cons.mp member with rfl | further
        · exact Nat.lt_of_not_le above
        · exact below hunk further
      rw [(nothing_below start _ all).1, (nothing_below start _ all).2]
      omega

/-- What the hunks of a script insert and delete makes up the difference in length. -/
theorem balance (script : Script i j olds news hunks) :
    news.length + deleted (i + olds.length) hunks = olds.length + inserted (i + olds.length) hunks := by
  induction script with
  | rest => rfl
  | hunk i j same cut put olds news later script ih =>
    have ends : i + (same ++ cut ++ olds).length = i + same.length + cut.length + olds.length := by
      rw [List.length_append, List.length_append]
      omega
    have above : i + same.length + cut.length ≤ i + (same ++ cut ++ olds).length := by omega
    rw [inserted_above _ _ later above, deleted_above _ _ later above, ends]
    simp only [List.length_append, Range.length]
    omega

/-- A block that no hunk touches is in the new sequence, as far from its start as the block
was from the old one's, with what the hunks above it insert added and delete taken off. -/
theorem survives (script : Script i j olds news hunks) (above kept below : List α)
    (split : olds = above ++ kept ++ below)
    (untouched : ∀ hunk ∈ hunks, ¬ hunk.Touches (i + above.length) (i + above.length + kept.length)) :
    ∃ front back, news = front ++ kept ++ back ∧
      front.length + deleted (i + above.length) hunks = above.length + inserted (i + above.length) hunks := by
  induction script generalizing above kept below with
  | rest i j same => exact ⟨above, below, split, rfl⟩
  | hunk i j same cut put olds news later script ih =>
    have apart := untouched _ List.mem_cons_self
    simp only [Hunk.Touches] at apart
    by_cases past : i + same.length + cut.length ≤ i + above.length
    · -- the hunk lies above the block: the block is among the items after it
      have upper : above <+: same ++ cut ++ olds := by
        rw [split, List.append_assoc]
        exact List.prefix_append _ _
      have prefixed : same ++ cut <+: above := by
        apply List.prefix_of_prefix_length_le (List.prefix_append _ _) upper
        rw [List.length_append]
        omega
      obtain ⟨nearer, rfl⟩ := prefixed
      have remaining : olds = nearer ++ kept ++ below := by
        simpa only [List.append_assoc, List.append_cancel_left_eq] using split
      have position : i + (same ++ cut ++ nearer).length = i + same.length + cut.length + nearer.length := by
        rw [List.length_append, List.length_append]
        omega
      obtain ⟨front, back, moved, counted⟩ := ih nearer kept below remaining (by
        intro hunk member
        rw [← position]
        exact untouched hunk (List.mem_cons_of_mem _ member))
      refine ⟨same ++ put ++ front, back, by rw [moved]; simp only [List.append_assoc], ?_⟩
      rw [inserted_above _ _ later (by omega), deleted_above _ _ later (by omega), position]
      simp only [List.length_append, Range.length]
      omega
    · -- the block lies above the hunk, among the items both sequences start with
      have inside : i + above.length + kept.length ≤ i + same.length := by omega
      have upper : above ++ kept <+: same ++ (cut ++ olds) := by
        rw [← List.append_assoc, split]
        exact List.prefix_append _ _
      have prefixed : above ++ kept <+: same := by
        apply List.prefix_of_prefix_length_le upper (List.prefix_append _ _)
        rw [List.length_append]
        omega
      obtain ⟨further, rfl⟩ := prefixed
      refine ⟨above, further ++ put ++ news, by simp only [List.append_assoc], ?_⟩
      have ends : ∀ hunk ∈ (⟨⟨i + (above ++ kept ++ further).length, i + (above ++ kept ++ further).length + cut.length⟩,
          ⟨j + (above ++ kept ++ further).length, j + (above ++ kept ++ further).length + put.length⟩⟩ : Hunk) :: later,
          i + above.length < hunk.before.stop := by
        intro hunk member
        rcases List.mem_cons.mp member with rfl | later_member
        · exact Nat.lt_of_not_le past
        · exact script.later_below (by omega) hunk later_member
      rw [(nothing_below _ _ ends).1, (nothing_below _ _ ends).2]

end Script

end GitAnchor.Foundation
