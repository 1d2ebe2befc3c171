import Mathlib.Order.Bounds.Basic
import Mathlib.Order.MinMax

/-! The least key of some items, taken in one pass from a top that no key exceeds. It depends
on which items there are, and neither on their order nor on how often each occurs. -/

namespace GitAnchor.Foundation.Minima
variable {α β : Type} [LinearOrder β] (top : β) (key : α → β)

def leastFrom (items : List α) : β := items.foldl (fun least item => min least (key item)) top

theorem le_leastFrom_iff (bound : β) (items : List α) :
    bound ≤ leastFrom top key items ↔ bound ≤ top ∧ ∀ item ∈ items, bound ≤ key item := by
  unfold leastFrom
  induction items generalizing top with
  | nil => simp
  | cons item rest ih => rw [List.foldl_cons, ih, le_min_iff, List.forall_mem_cons, and_assoc]

theorem leastFrom_le (items : List α) (item : α) (member : item ∈ items) : leastFrom top key items ≤ key item :=
  ((le_leastFrom_iff top key _ items).mp le_rfl).2 item member

theorem leastFrom_mem (items : List α) :
    leastFrom top key items = top ∨ ∃ item ∈ items, key item = leastFrom top key items := by
  unfold leastFrom
  induction items generalizing top with
  | nil => exact .inl rfl
  | cons item rest ih =>
    rw [List.foldl_cons]
    rcases ih (min top (key item)) with first | ⟨other, member, same⟩
    · rcases min_choice top (key item) with kept | lowered
      · exact .inl (first.trans kept)
      · exact .inr ⟨item, List.mem_cons_self, (first.trans lowered).symm⟩
    · exact .inr ⟨other, List.mem_cons_of_mem item member, same⟩

/-- Over some items the pass gives the minimum of their keys. -/
theorem leastFrom_isLeast (items : List α) (some_item : items ≠ []) (topmost : ∀ item ∈ items, key item ≤ top) :
    IsLeast (key '' {item | item ∈ items}) (leastFrom top key items) := by
  constructor
  · rcases leastFrom_mem top key items with untouched | ⟨item, member, same⟩
    · obtain ⟨item, member⟩ := List.exists_mem_of_ne_nil items some_item
      have above : leastFrom top key items ≤ key item := leastFrom_le top key items item member
      rw [untouched] at above ⊢
      exact ⟨item, member, le_antisymm (topmost item member) above⟩
    · exact ⟨item, member, same⟩
  · rintro _ ⟨item, member, rfl⟩
    exact leastFrom_le top key items item member

/-- More items have no greater a least key. -/
theorem leastFrom_anti (some_items more : List α) (contains : ∀ item ∈ some_items, item ∈ more) :
    leastFrom top key more ≤ leastFrom top key some_items := by
  obtain ⟨below, all⟩ := (le_leastFrom_iff top key _ more).mp le_rfl
  exact (le_leastFrom_iff top key _ some_items).mpr ⟨below, fun item member => all item (contains item member)⟩

theorem leastFrom_congr (items others : List α) (same : ∀ item, item ∈ items ↔ item ∈ others) :
    leastFrom top key items = leastFrom top key others :=
  le_antisymm (leastFrom_anti top key others items fun item => (same item).mpr)
    (leastFrom_anti top key items others fun item => (same item).mp)

theorem leastFrom_union (items others both : List α) (union : ∀ item, item ∈ both ↔ item ∈ items ∨ item ∈ others) :
    leastFrom top key both = min (leastFrom top key items) (leastFrom top key others) := by
  apply eq_of_forall_le_iff
  intro bound
  rw [le_min_iff, le_leastFrom_iff, le_leastFrom_iff, le_leastFrom_iff]
  simp only [union, or_imp, forall_and]
  constructor
  · rintro ⟨below, left, right⟩
    exact ⟨⟨below, left⟩, below, right⟩
  · rintro ⟨⟨below, left⟩, _, right⟩
    exact ⟨below, left, right⟩

end GitAnchor.Foundation.Minima
