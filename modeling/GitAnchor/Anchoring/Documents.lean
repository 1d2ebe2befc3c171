import GitAnchor.Foundation.Overlay
import GitAnchor.Anchoring.Anchorable

/-! Documents as the store builds them for a schema: an empty builder, whose fields are set one
by one. -/

namespace GitAnchor.Anchoring
open GitAnchor.Foundation
variable {Kind Builder Value : Type} {size : Kind → Nat}

/-- Builders of documents, and the values in them. A field that was set is in the document as it
was set last; an object has each name once. -/
structure Documents (size : Kind → Nat) (Builder Value : Type) where
  forSchema : Schema size → Except String Builder
  set : Builder → String → Value → Except String Builder
  build : Builder → Except String Value
  null : Value
  text : String → Value
  fromJson : String → Except String Value
  asObject : Value → Option (List (String × Value))
  assigned : Builder → String → Option Value
  field : Value → String → Option Value
  forSchema_assigned : ∀ schema builder, forSchema schema = .ok builder → assigned builder = fun _ => none
  set_assigned : ∀ builder name value next, set builder name value = .ok next →
    assigned next = Function.update (assigned builder) name (some value)
  build_field : ∀ builder document name value, build builder = .ok document →
    assigned builder name = some value → field document name = some value
  asObject_distinct : ∀ value entries, asObject value = some entries → (entries.map Prod.fst).Nodup

def isOptional (schema : Schema size) (node : Node size) : Bool :=
  match resolve schema node with
  | some (.node .optional _) => true
  | _ => false

def setEach (docs : Documents size Builder Value) (builder : Builder) : List (String × Value) → Except String Builder
  | [] => .ok builder
  | (name, value) :: rest => do
      let next ← docs.set builder name value
      setEach docs next rest

theorem setEach_assigned (docs : Documents size Builder Value) (builder next : Builder) (entries : List (String × Value))
    (filled : setEach docs builder entries = .ok next) :
    docs.assigned next = overlay entries (docs.assigned builder) := by
  induction entries generalizing builder with
  | nil => rw [← Except.ok.inj filled, overlay]
  | cons entry rest ih =>
    obtain ⟨middle, first, later⟩ := Result.bind_eq_ok.mp filled
    calc
      docs.assigned next = overlay rest (docs.assigned middle) := ih middle later
      _ = overlay (entry :: rest) (docs.assigned builder) := by
        rw [docs.set_assigned builder entry.1 entry.2 middle first, overlay]

end GitAnchor.Anchoring
