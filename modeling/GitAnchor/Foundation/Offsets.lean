import Mathlib.Data.List.Basic
import Mathlib.Data.List.Pairwise

/-! The offsets at which the pieces of a text start, and searching an ascending list from
either end. -/

namespace GitAnchor.Foundation.Offsets
variable {α : Type}

/-- Where each piece starts when the first starts at `origin`, and where the last ends. -/
def offsets (origin : Nat) : List (List α) → List Nat
  | [] => [origin]
  | piece :: rest => origin :: offsets (origin + piece.length) rest

/-- How far the first `count` pieces reach. -/
def reach (pieces : List (List α)) (count : Nat) : Nat := (pieces.take count).flatten.length

@[simp] theorem offsets_length (origin : Nat) (pieces : List (List α)) :
    (offsets origin pieces).length = pieces.length + 1 := by
  induction pieces generalizing origin with
  | nil => rfl
  | cons piece rest ih => simp only [offsets, List.length_cons, ih]

theorem offsets_getElem? (origin : Nat) (pieces : List (List α)) (k : Nat) (bound : k ≤ pieces.length) :
    (offsets origin pieces)[k]? = some (origin + reach pieces k) := by
  induction pieces generalizing origin k with
  | nil =>
    obtain rfl : k = 0 := by simpa using bound
    rfl
  | cons piece rest ih =>
    cases k with
    | zero => rfl
    | succ k =>
      rw [offsets, List.getElem?_cons_succ, ih _ k (by simpa using bound)]
      simp only [reach, List.take_succ_cons, List.flatten_cons, List.length_append, Nat.add_assoc]

theorem le_offsets (origin : Nat) (pieces : List (List α)) :
    ∀ offset ∈ offsets origin pieces, origin ≤ offset := by
  induction pieces generalizing origin with
  | nil => simp [offsets]
  | cons piece rest ih =>
    intro offset member
    rcases List.mem_cons.mp member with rfl | later
    · exact Nat.le_refl _
    · have further := ih _ offset later
      omega

/-- Pieces that are not empty start at ascending offsets. -/
theorem offsets_ascending (origin : Nat) (pieces : List (List α)) (some : ∀ piece ∈ pieces, piece ≠ []) :
    (offsets origin pieces).Pairwise (· < ·) := by
  induction pieces generalizing origin with
  | nil => exact List.pairwise_singleton _ _
  | cons piece rest ih =>
    rw [offsets, List.pairwise_cons]
    refine ⟨?_, ih _ (fun other member => some other (List.mem_cons_of_mem _ member))⟩
    intro offset member
    have further := le_offsets _ rest offset member
    have positive := List.length_pos_iff.mpr (some piece List.mem_cons_self)
    omega

theorem reach_length (pieces : List (List α)) : reach pieces pieces.length = pieces.flatten.length := by
  rw [reach, List.take_length]

/-- What is taken up to the second of two positions is cut at the first. -/
theorem take_cut {β : Type} (items : List β) (first second : Nat) (ordered : first ≤ second) :
    items.take first ++ (items.take second).drop first = items.take second := by
  have cut := List.take_append_drop first (items.take second)
  rw [List.take_take, Nat.min_eq_left ordered] at cut
  exact cut

theorem reach_add (pieces : List (List α)) (first second : Nat) (ordered : first ≤ second) :
    reach pieces second = reach pieces first + ((pieces.take second).drop first).flatten.length := by
  rw [reach, reach, ← List.length_append, ← List.flatten_append, take_cut pieces first second ordered]

theorem reach_le (pieces : List (List α)) (count : Nat) : reach pieces count ≤ pieces.flatten.length := by
  have cut := congrArg (fun all => all.flatten.length) (List.take_append_drop count pieces)
  simp only [List.flatten_append, List.length_append] at cut
  rw [reach]
  omega

/-- Pieces that are not empty are no more than the text is long. -/
theorem length_le (pieces : List (List α)) (some : ∀ piece ∈ pieces, piece ≠ []) :
    pieces.length ≤ pieces.flatten.length := by
  induction pieces with
  | nil => simp
  | cons piece rest ih =>
    have later := ih (fun other member => some other (List.mem_cons_of_mem _ member))
    have positive := List.length_pos_iff.mpr (some piece List.mem_cons_self)
    rw [List.flatten_cons, List.length_append, List.length_cons]
    omega

/-- The text between two offsets is the pieces between them. -/
theorem slice_flatten (pieces : List (List α)) (first second : Nat) (ordered : first ≤ second) :
    (pieces.flatten.take (reach pieces second)).drop (reach pieces first) =
      ((pieces.take second).drop first).flatten := by
  have whole : pieces.flatten = (pieces.take second).flatten ++ (pieces.drop second).flatten := by
    rw [← List.flatten_append, List.take_append_drop]
  have part : (pieces.take second).flatten =
      (pieces.take first).flatten ++ ((pieces.take second).drop first).flatten := by
    rw [← List.flatten_append, take_cut pieces first second ordered]
  unfold reach
  rw [whole, List.take_left, part, List.drop_left]

/-! Searching from either end. -/

/-- The last position whose item meets the condition. -/
def rposition {β : Type} (p : β → Bool) : List β → Option Nat
  | [] => none
  | x :: rest =>
      match rposition p rest with
      | some i => some (i + 1)
      | none => if p x then some 0 else none

theorem rposition_eq_none {β : Type} (p : β → Bool) (xs : List β) (none_of : ∀ x ∈ xs, p x = false) :
    rposition p xs = none := by
  induction xs with
  | nil => rfl
  | cons x rest ih =>
    have later := ih (fun other member => none_of other (List.mem_cons_of_mem _ member))
    simp [rposition, later, none_of x List.mem_cons_self]

theorem rposition_some {β : Type} (p : β → Bool) (xs : List β) (k : Nat) (found : rposition p xs = some k) :
    ∃ x, xs[k]? = some x ∧ p x = true := by
  induction xs generalizing k with
  | nil => cases found
  | cons x rest ih =>
    unfold rposition at found
    split at found
    · next i later =>
      obtain rfl := Option.some.inj found
      exact ih i later
    · split at found
      · next here =>
        obtain rfl := Option.some.inj found
        exact ⟨x, rfl, here⟩
      · cases found

theorem rposition_isSome {β : Type} (p : β → Bool) (xs : List β) (x : β) (member : x ∈ xs) (here : p x = true) :
    ∃ k, rposition p xs = some k := by
  induction xs with
  | nil => cases member
  | cons y rest ih =>
    unfold rposition
    cases later : rposition p rest with
    | some i => exact ⟨i + 1, rfl⟩
    | none =>
      rcases List.mem_cons.mp member with rfl | further
      · exact ⟨0, if_pos here⟩
      · obtain ⟨k, found⟩ := ih further
        exact absurd (later.symm.trans found) nofun

/-- No item after the one found meets the condition. -/
theorem rposition_last {β : Type} (p : β → Bool) (xs : List β) (k : Nat) (found : rposition p xs = some k) :
    ∀ i x, k < i → xs[i]? = some x → p x = false := by
  induction xs generalizing k with
  | nil => cases found
  | cons y rest ih =>
    intro i x after there
    obtain ⟨j, rfl⟩ : ∃ j, i = j + 1 := ⟨i - 1, by omega⟩
    rw [List.getElem?_cons_succ] at there
    unfold rposition at found
    split at found
    · next m later =>
      obtain rfl := Option.some.inj found
      exact ih m later j x (by omega) there
    · next missed =>
      by_contra meets
      obtain ⟨m, later⟩ := rposition_isSome p rest x (List.mem_of_getElem? there) (by simpa using meets)
      exact absurd (missed.symm.trans later) nofun

theorem position_of_ascending (xs : List Nat) (ascending : xs.Pairwise (· < ·)) (k value : Nat)
    (located : xs[k]? = some value) : xs.findIdx? (fun x => decide (value ≤ x)) = some k := by
  induction xs generalizing k with
  | nil => simp at located
  | cons x rest ih =>
    rw [List.pairwise_cons] at ascending
    cases k with
    | zero =>
      obtain rfl : x = value := by simpa using located
      rw [List.findIdx?_cons, decide_eq_true (Nat.le_refl x)]
      rfl
    | succ k =>
      rw [List.getElem?_cons_succ] at located
      have below := ascending.1 value (List.mem_of_getElem? located)
      have not_here : ¬ value ≤ x := by omega
      simp [List.findIdx?_cons, not_here, ih ascending.2 k located]

theorem rposition_of_ascending (xs : List Nat) (ascending : xs.Pairwise (· < ·)) (k value : Nat)
    (located : xs[k]? = some value) : rposition (fun x => decide (x ≤ value)) xs = some k := by
  induction xs generalizing k with
  | nil => simp at located
  | cons x rest ih =>
    rw [List.pairwise_cons] at ascending
    cases k with
    | zero =>
      obtain rfl : x = value := by simpa using located
      have later : rposition (fun y => decide (y ≤ x)) rest = none := by
        apply rposition_eq_none
        intro y member
        have above := ascending.1 y member
        simpa using above
      simp [rposition, later]
    | succ k =>
      simp [rposition, ih ascending.2 k (by simpa using located)]

/-- In an ascending list the last item at or below one value is not after an item at or
above a larger one. -/
theorem ordered_of_ascending (xs : List Nat) (ascending : xs.Pairwise (· < ·)) (i k low high : Nat)
    (lower : xs[i]? = some low) (upper : xs[k]? = some high) (less : low < high) : i < k := by
  obtain ⟨boundI, rfl⟩ := List.getElem?_eq_some_iff.mp lower
  obtain ⟨boundK, rfl⟩ := List.getElem?_eq_some_iff.mp upper
  rcases Nat.lt_trichotomy i k with before | same | after
  · exact before
  · subst same
    omega
  · have descending := List.pairwise_iff_getElem.mp ascending k i boundK boundI after
    omega

end GitAnchor.Foundation.Offsets
