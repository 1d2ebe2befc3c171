import Mathlib.Data.Fintype.Card
import Mathlib.Logic.Relation
import Mathlib.Order.WellFounded

/-! Following the links of a graph: what is below a node, the best of what two nodes have
below them in common, and searches that end because no descent goes on for ever. -/

namespace GitAnchor.Foundation.Ancestry
open Relation
variable {α : Type}

/-- What a node reaches by links, itself included. -/
abbrev Reaches (link : α → α → Prop) : α → α → Prop := ReflTransGen link

def Common (link : α → α → Prop) (one other node : α) : Prop := Reaches link one node ∧ Reaches link other node

/-- A common node with no other common node properly above it. There may be several. -/
def Best (link : α → α → Prop) (one other node : α) : Prop :=
  Common link one other node ∧ ∀ above, Common link one other above → above ≠ node → ¬ TransGen link above node

/-- Whichever best common node is taken, it is one of the two exactly when that one is
reached from the other: it is common itself, and every common node is below it. -/
theorem best_eq_left_iff (link : α → α → Prop) (one other node : α) (best : Best link one other node) :
    node = one ↔ Reaches link other one := by
  constructor
  · intro same
    rw [← same]
    exact best.1.2
  · intro reached
    have common : Common link one other one := ⟨.refl, reached⟩
    by_contra different
    rcases reflTransGen_iff_eq_or_transGen.mp best.1.1 with same | below
    · exact different same
    · exact best.2 one common (fun same => different same.symm) below

/-! Searches. -/

/-- In a finite graph without cycles every descent ends. -/
theorem acc_of_finite (link : α → α → Prop) (node : α) (finite : {below | Reaches link node below}.Finite)
    (acyclic : ∀ below, Reaches link node below → ¬ TransGen link below below) :
    Acc (fun below above => link above below) node := by
  let Below := {below | Reaches link node below}
  have : Finite Below := finite.to_subtype
  let under : Below → Below → Prop := fun below above => TransGen link above.1 below.1
  have irreflexive : Std.Irrefl under := ⟨fun below => acyclic below.1 below.2⟩
  have transitive : IsTrans Below under := ⟨fun _ _ _ first second => second.trans first⟩
  have founded : WellFounded under := Finite.wellFounded_of_trans_of_irrefl under
  have each (below : Below) : Acc (fun below above => link above below) below.1 := by
    induction below using founded.induction with
    | _ below ih =>
      apply Acc.intro
      intro next linked
      exact ih ⟨next, below.2.tail linked⟩ (.single linked)
  exact each ⟨node, .refl⟩

/-- What holds of each of some items from some fuel on holds of all of them from some fuel on. -/
theorem enough_for_all {β : Type} (holds : β → Nat → Prop) (items : List β)
    (each : ∀ item ∈ items, ∃ enough, ∀ fuel, enough ≤ fuel → holds item fuel) :
    ∃ enough, ∀ fuel, enough ≤ fuel → ∀ item ∈ items, holds item fuel := by
  induction items with
  | nil => exact ⟨0, fun _ _ _ member => nomatch member⟩
  | cons item rest ih =>
    obtain ⟨first, here⟩ := each item List.mem_cons_self
    obtain ⟨second, later⟩ := ih (fun other member => each other (List.mem_cons_of_mem item member))
    refine ⟨max first second, ?_⟩
    intro fuel enough other member
    rcases List.mem_cons.mp member with rfl | further
    · exact here fuel (le_of_max_le_left enough)
    · exact later fuel (le_of_max_le_right enough) other further

end GitAnchor.Foundation.Ancestry
