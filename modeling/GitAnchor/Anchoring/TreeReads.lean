import GitAnchor.Anchoring.TreeOrders

/-! The objects that a tree diff looks at. Of two trees it reads only those below which they
differ: what the two sides have in common may be missing or corrupt. Which of several errors
it ends with is up to the orders in which its maps are drained. -/

namespace GitAnchor.Anchoring
open GitAnchor.Foundation GitAnchor.Substrate
variable {ObjectId Mode : Type} [DecidableEq ObjectId]

section Differing
variable (format : ObjectFormat ObjectId Mode) (store : Find ObjectId)

/-- Both sides have one entry at the path, and it is the same object. -/
def Shared (base head : Option ObjectId) (path : List String) : Prop :=
  ∃ old new, entryAt format store base path = some old ∧ entryAt format store head path = some new ∧ old.1 = new.1

/-- The sides differ at the path and share nothing above it. -/
def Apart (base head : Option ObjectId) (path : List String) : Prop :=
  ∀ above, above <+: path → ¬ Shared format store base head above

end Differing

variable {format : ObjectFormat ObjectId Mode} {store store' : Find ObjectId}

/-! One name. -/

/-- An entry that may be missing is one of those listed under a name. -/
def Under (named : List (Named ObjectId Mode)) (name : String) (entry : Option (ObjectId × Mode)) : Prop :=
  ∀ found, entry = some found → (name, found) ∈ named

section Loops
variable (descend descend' : String → Option ObjectId → Option ObjectId → Walk ObjectId (List (TreeChange ObjectId Mode)))
  (parent : String)

end Loops

omit [DecidableEq ObjectId] in
theorem error_bind {Value Next : Type} (failure : Error ObjectId) (further : Value → Walk ObjectId Next) :
    Walk.of (.error failure) >>= further = throw failure := rfl

/-- The walk, with nothing found where it does not end. -/
def Walk.cut {Value : Type} (walk : Walk ObjectId (List Value)) : Walk ObjectId (List Value) :=
  ExceptT.mk (some (walk.run.getD (.ok [])))

section Ends
variable (descend : String → Option ObjectId → Option ObjectId → Walk ObjectId (List (TreeChange ObjectId Mode)))
  (parent : String)

end Ends

/-- Every map gives up its entries the other way round. -/
def Order.reversed : Order ObjectId Mode :=
  { drain := fun _ remaining => remaining.reverse, perm := fun _ remaining => remaining.reverse_perm }

end GitAnchor.Anchoring
