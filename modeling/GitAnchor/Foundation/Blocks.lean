import Mathlib.Data.List.SplitBy

/-! A list cut into blocks, a block being an element and the elements that continue it. -/

namespace GitAnchor.Foundation.Blocks
variable {β : Type} (continues : β → Bool)

def blocks (items : List β) : List (List β) :=
  items.splitBy (fun _ next => continues next)

theorem blocks_flatten (items : List β) : (blocks continues items).flatten = items :=
  List.flatten_splitBy _ items

theorem ne_nil_of_mem_blocks (items block : List β) (member : block ∈ blocks continues items) :
    block ≠ [] := List.ne_nil_of_mem_splitBy member

private theorem isChain_snd (P : β → Prop) (items : List β) :
    items.IsChain (fun _ next => P next) ↔ ∀ item ∈ items.tail, P item := by
  induction items with
  | nil => simp
  | cons first rest ih =>
    cases rest with
    | nil => simp
    | cons second tail =>
      rw [List.isChain_cons_cons, ih]
      simp

theorem continues_of_mem_tail (items block : List β) (member : block ∈ blocks continues items) :
    ∀ item ∈ block.tail, continues item = true :=
  (isChain_snd (fun item => continues item = true) block).mp (List.isChain_of_mem_splitBy member)

/-- Every block but the first opens with an element that continues nothing. -/
theorem opens_of_mem_tail (items : List β) :
    ∀ block ∈ (blocks continues items).tail, ∀ item ∈ block.head?, continues item = false := by
  apply (isChain_snd (fun block : List β => ∀ item ∈ block.head?, continues item = false) _).mp
  apply (List.isChain_getLast_head_splitBy (fun _ next => continues next) items).imp
  intro block next related item opening
  obtain ⟨_, some, stops⟩ := related
  rw [← List.head_of_mem_head? opening]
  exact stops

/-- Blocks laid end to end fall apart into the same blocks. -/
theorem blocks_flatten_of_opens (parts : List (List β)) (nonempty : ∀ part ∈ parts, part ≠ [])
    (inner : ∀ part ∈ parts, ∀ item ∈ part.tail, continues item = true)
    (opens : ∀ part ∈ parts.tail, ∀ item ∈ part.head?, continues item = false) :
    blocks continues parts.flatten = parts := by
  apply List.splitBy_flatten (fun empty => nonempty [] empty rfl)
  · intro part member
    exact (isChain_snd (fun item => continues item = true) part).mpr (inner part member)
  · induction parts with
    | nil => exact .nil
    | cons first rest ih =>
      rw [List.isChain_cons]
      constructor
      · intro next member
        have later : next ∈ rest := List.mem_of_mem_head? member
        have some := nonempty next (List.mem_cons_of_mem _ later)
        exact ⟨nonempty first List.mem_cons_self, some,
          opens next later _ (List.head_mem_head? some)⟩
      · apply ih (fun part member => nonempty part (List.mem_cons_of_mem _ member))
          (fun part member => inner part (List.mem_cons_of_mem _ member))
        intro part member
        exact opens part (List.mem_of_mem_tail member)

/-- A selection of blocks falls apart into the blocks selected. -/
theorem blocks_flatten_of_sublist (items : List β) (some : List (List β))
    (part : some.Sublist (blocks continues items)) : blocks continues some.flatten = some := by
  apply blocks_flatten_of_opens
  · intro block member
    exact ne_nil_of_mem_blocks continues items block (part.subset member)
  · intro block member
    exact continues_of_mem_tail continues items block (part.subset member)
  · intro block member
    exact opens_of_mem_tail continues items block (part.tail.subset member)

theorem blocks_block (block : List β) (nonempty : block ≠ [])
    (inner : ∀ item ∈ block.tail, continues item = true) : blocks continues block = [block] :=
  List.splitBy_of_isChain nonempty ((isChain_snd (fun item => continues item = true) block).mpr inner)

end GitAnchor.Foundation.Blocks
