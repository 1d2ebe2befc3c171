import GitAnchor.Foundation.Result
import GitAnchor.Foundation.Unfolding

/-! Which kinds can be anchored: those whose document has one field of `Binding`'s shape. A
field is compared as it is written, after one `Ref`, with the root of `Binding`'s own schema,
and the names left in it are not looked up in either. -/

namespace GitAnchor.Anchoring
open GitAnchor.Foundation Unfolding

/-- What a node of a schema is, apart from the nodes in it. A struct has its field names, each
with whether it has a default; whatever a node may be besides is of a further kind. -/
inductive NodeLabel (Kind : Type) where
  | optional
  | struct (fields : List (String × Bool))
  | other (kind : Kind)
deriving DecidableEq

variable {Kind : Type}

/-- How many nodes there are in a node: one in an optional, and one for each field. -/
def NodeLabel.arity (size : Kind → Nat) : NodeLabel Kind → Nat
  | .optional => 1
  | .struct fields => fields.length
  | .other kind => size kind

/-- A node, or a `Ref` to one by name. -/
abbrev Node (size : Kind → Nat) := Term (NodeLabel.arity size)

structure Schema (size : Kind → Nat) where
  root : Node size
  defs : Table (NodeLabel.arity size)

structure StructField (size : Kind → Nat) where
  node : Node size
  hasDefault : Bool

variable {size : Kind → Nat}

def Node.optional (inner : Node size) : Node size := .node .optional (fun _ => inner)

/-- The node in an optional one. -/
def onlyPart (parts : Fin (NodeLabel.arity size .optional) → Node size) : Node size := parts (⟨0, Nat.one_pos⟩ : Fin 1)

/-- One `Ref` looked up, or the node itself. -/
def resolve (schema : Schema size) : Node size → Option (Node size)
  | .name name => schema.defs name
  | .node label parts => some (.node label parts)

def structFields (schema : Schema size) : Except String (List (String × StructField size)) :=
  match resolve schema schema.root with
  | some (.node (.struct fields) parts) =>
      .ok (List.ofFn fun i : Fin fields.length => ((fields.get i).1, ⟨parts i, (fields.get i).2⟩))
  | _ => .error "kind's schema does not describe a struct document"

variable [DecidableEq Kind]

/-- Whether a node is the given one, or an optional of it. -/
def shapeIsBinding (schema : Schema size) (node binding : Node size) : Bool :=
  match resolve schema node with
  | some found =>
      if found = binding then true
      else match found with
        | .node .optional parts => decide (resolve schema (onlyPart parts) = some binding)
        | _ => false
  | none => false

/-- The one field of a document that has the shape of `Binding`. -/
def bindingField (canonical schema : Schema size) : Except String String :=
  match resolve canonical canonical.root with
  | none => .error "Binding's root does not resolve"
  | some canonicalRoot => do
      let fields ← structFields schema
      let found := (fields.filter (fun field => shapeIsBinding schema field.2.node canonicalRoot)).map Prod.fst
      match found with
      | [name] => .ok name
      | [] => .error "not anchorable: no field in its schema matches Binding's shape"
      | many => .error ("ambiguously anchorable: fields " ++ ", ".intercalate many ++ " all match Binding's shape")

/-! What the comparison should find, and what it looks at. -/

omit [DecidableEq Kind] in
/-- A node has the shape of `Binding`, or of an optional one, once every `Ref` in either is
replaced by what it names. -/
def Shaped (schema canonical : Schema size) (node : Node size) : Prop :=
  Same schema.defs canonical.defs node canonical.root ∨
    Same schema.defs canonical.defs node (Node.optional canonical.root)

omit [DecidableEq Kind] in
/-- The nodes that are compared: one behind at most one `Ref`, or the one in it where it is
optional, again behind at most one. -/
def Finds (schema : Schema size) (node found : Node size) : Prop :=
  resolve schema node = some found ∨
    ∃ inner, resolve schema node = some (Node.optional inner) ∧ resolve schema inner = some found

omit [DecidableEq Kind] in
/-- What is found is `Binding`'s root as it is written, but one of the names in it stands for
another shape than it does there. -/
def Misnamed (schema canonical : Schema size) (binding node : Node size) : Prop :=
  Finds schema node binding ∧
    ∃ name, Mentions binding name ∧ ¬ Same schema.defs canonical.defs (.name name) (.name name)

omit [DecidableEq Kind] in
/-- The node has the shape of `Binding`, but what is found uses a `Ref` where `Binding`'s root
has another or none, or none where that has one. -/
def SpeltOtherwise (schema canonical : Schema size) (binding node : Node size) : Prop :=
  Shaped schema canonical node ∧ ∃ found, Finds schema node found ∧ Respelled found binding

omit [DecidableEq Kind] in
/-- The node of an enum, as `Binding` is: of a further kind. -/
def IsEnum (node : Node size) : Prop := ∃ kind parts, node = .node (.other kind) parts

omit [DecidableEq Kind] in
theorem resolve_optional (schema : Schema size) (inner : Node size) :
    resolve schema (Node.optional inner) = some (Node.optional inner) := rfl

omit [DecidableEq Kind] in
theorem optional_onlyPart (parts : Fin (NodeLabel.arity size .optional) → Node size) :
    Node.optional (onlyPart parts) = .node .optional parts := by
  rw [Node.optional, Term.node_inj]
  intro i
  have only : i = (⟨0, Nat.one_pos⟩ : Fin 1) := Fin.fin_one_eq_zero i
  rw [only]
  rfl

theorem shapeIsBinding_iff (schema : Schema size) (node binding : Node size) :
    shapeIsBinding schema node binding = true ↔ Finds schema node binding := by
  unfold shapeIsBinding Finds
  cases resolve schema node with
  | none => simp
  | some found =>
    dsimp only
    split
    · next same => exact iff_of_true rfl (.inl (congrArg some same))
    · next different =>
      have not_here : some found ≠ some binding := fun same => different (Option.some.inj same)
      rw [or_iff_right not_here]
      split
      · next parts =>
        rw [decide_eq_true_iff, ← optional_onlyPart]
        constructor
        · intro inside
          exact ⟨onlyPart parts, rfl, inside⟩
        · rintro ⟨inner, same, inside⟩
          have inner_eq := Term.node_inj.mp (Option.some.inj same) (⟨0, Nat.one_pos⟩ : Fin 1)
          rw [show onlyPart parts = inner from inner_eq]
          exact inside
      · next other =>
        refine iff_of_false Bool.false_ne_true ?_
        rintro ⟨inner, same, _⟩
        exact other _ (Option.some.inj same)

omit [DecidableEq Kind] in
/-- A `Ref` leads where what it names leads. -/
theorem leads_resolve {schema : Schema size} {node found : Node size} (resolved : resolve schema node = some found)
    (label : NodeLabel Kind) (parts : Fin (NodeLabel.arity size label) → Node size) :
    Leads schema.defs node label parts ↔ Leads schema.defs found label parts := by
  cases node with
  | name name =>
    have defined : schema.defs name = some found := resolved
    rw [leads_name_iff, defined]
    simp only [Option.some.injEq, exists_eq_left']
  | node => rw [← Option.some.inj resolved]

omit [DecidableEq Kind] in
theorem resolve_of_leads {schema : Schema size} {node : Node size} {label : NodeLabel Kind}
    {parts : Fin (NodeLabel.arity size label) → Node size} (leads : Leads schema.defs node label parts) :
    ∃ found, resolve schema node = some found := by
  cases leads with
  | node => exact ⟨_, rfl⟩
  | name name target _ _ defined _ => exact ⟨target, defined⟩

omit [DecidableEq Kind] in
theorem same_resolve {schema canonical : Schema size} {node found root binding : Node size}
    (resolved : resolve schema node = some found) (known : resolve canonical root = some binding) :
    Same schema.defs canonical.defs node root ↔ Same schema.defs canonical.defs found binding :=
  same_congr (leads_resolve resolved) (leads_resolve known)

omit [DecidableEq Kind] in
theorem same_optional_iff {schema canonical : Schema size} {inner root : Node size} :
    Same schema.defs canonical.defs (Node.optional inner) (Node.optional root) ↔
      Same schema.defs canonical.defs inner root := by
  unfold Node.optional
  rw [same_node_iff]
  exact ⟨fun all => all (⟨0, Nat.one_pos⟩ : Fin 1), fun same _ => same⟩

omit [DecidableEq Kind] in
theorem label_eq_of_same {schema canonical : Schema size} {label label' : NodeLabel Kind}
    {parts : Fin (NodeLabel.arity size label) → Node size} {parts' : Fin (NodeLabel.arity size label') → Node size}
    (same : Same schema.defs canonical.defs (.node label parts) (.node label' parts')) : label = label' := by
  obtain ⟨found, pieces, pieces', leads, leads', _⟩ := same_iff.mp same
  exact (Term.node.inj (leads_node_iff.mp leads)).1.trans (Term.node.inj (leads_node_iff.mp leads')).1.symm

variable {schema canonical : Schema size} {binding node : Node size}

omit [DecidableEq Kind] in
/-- Written as `Binding` is, a node has its shape exactly when the names in it stand for the
same shapes. -/
theorem shaped_iff_of_finds (root : resolve canonical canonical.root = some binding) (isEnum : IsEnum binding)
    (finds : Finds schema node binding) :
    Shaped schema canonical node ↔
      ∀ name, Mentions binding name → Same schema.defs canonical.defs (.name name) (.name name) := by
  obtain ⟨kind, pieces, rfl⟩ := isEnum
  rw [← same_self_iff]
  rcases finds with direct | ⟨inner, wrapped, inside⟩
  · rw [← same_resolve direct root]
    refine or_iff_left ?_
    intro same
    have labels := (same_resolve direct (resolve_optional canonical canonical.root)).mp same
    exact nomatch label_eq_of_same labels
  · rw [← same_resolve inside root, ← same_optional_iff, ← same_resolve wrapped (resolve_optional canonical canonical.root)]
    refine or_iff_right ?_
    intro same
    have labels := (same_resolve wrapped root).mp same
    exact nomatch label_eq_of_same labels

omit [DecidableEq Kind] in
/-- A node of the shape of `Binding` that is not written as it is, is spelt otherwise. -/
theorem speltOtherwise_of_shaped (root : resolve canonical canonical.root = some binding) (isEnum : IsEnum binding)
    (shaped : Shaped schema canonical node) (unfound : ¬ Finds schema node binding) :
    SpeltOtherwise schema canonical binding node := by
  refine ⟨shaped, ?_⟩
  have respelled (inner found : Node size) (resolved : resolve schema inner = some found)
      (same : Same schema.defs canonical.defs inner canonical.root) (finds : Finds schema node found) :
      ∃ found, Finds schema node found ∧ Respelled found binding := by
    refine ⟨found, finds, respelled_of_same found binding ((same_resolve resolved root).mp same) ?_⟩
    intro equal
    rw [equal] at finds
    exact unfound finds
  rcases shaped with same | same
  · obtain ⟨_, _, _, leads, _⟩ := same_iff.mp same
    obtain ⟨found, resolved⟩ := resolve_of_leads leads
    exact respelled node found resolved same (.inl resolved)
  · obtain ⟨_, _, _, leads, _⟩ := same_iff.mp same
    obtain ⟨found, resolved⟩ := resolve_of_leads leads
    cases found with
    | name name =>
      obtain ⟨kind, pieces, rfl⟩ := isEnum
      exact ⟨.name name, .inl resolved, .outlined name _ pieces⟩
    | node label parts =>
      have wrapped := (same_resolve resolved (resolve_optional canonical canonical.root)).mp same
      obtain rfl := label_eq_of_same wrapped
      rw [← optional_onlyPart] at resolved wrapped
      have within := same_optional_iff.mp wrapped
      obtain ⟨_, _, _, leads, _⟩ := same_iff.mp within
      obtain ⟨found, inside⟩ := resolve_of_leads leads
      exact respelled _ found inside within (.inr ⟨_, resolved, inside⟩)

omit [DecidableEq Kind] in
theorem not_finds_of_respelled (isEnum : IsEnum binding) (found : Node size) (finds : Finds schema node found)
    (respelled : Respelled found binding) : ¬ Finds schema node binding := by
  obtain ⟨kind, pieces, rfl⟩ := isEnum
  intro written
  have differs := ne_of_respelled respelled
  rcases finds with direct | ⟨inner, wrapped, inside⟩ <;> rcases written with direct' | ⟨inner', wrapped', inside'⟩
  · exact differs (Option.some.inj (direct.symm.trans direct'))
  · obtain rfl := Option.some.inj (direct.symm.trans wrapped')
    cases respelled
  · have clash := Option.some.inj (wrapped.symm.trans direct')
    exact nomatch (Term.node.inj clash).1
  · have same := Term.node_inj.mp (Option.some.inj (wrapped.symm.trans wrapped')) (⟨0, Nat.one_pos⟩ : Fin 1)
    obtain rfl : inner = inner' := same
    exact differs (Option.some.inj (inside.symm.trans inside'))

/-- The comparison is of shapes exactly where names are used as `Binding`'s schema uses them:
it accepts too much where a name in it is defined otherwise, and too little where the same
shape is spelt otherwise. -/
theorem shapeIsBinding_iff_shaped (schema canonical : Schema size) (binding : Node size)
    (root : resolve canonical canonical.root = some binding) (isEnum : IsEnum binding) (node : Node size) :
    (shapeIsBinding schema node binding = true ↔ Shaped schema canonical node) ↔
      ¬ Misnamed schema canonical binding node ∧ ¬ SpeltOtherwise schema canonical binding node := by
  rw [shapeIsBinding_iff]
  constructor
  · intro exactly
    constructor
    · rintro ⟨finds, name, mentioned, differs⟩
      exact differs ((shaped_iff_of_finds root isEnum finds).mp (exactly.mp finds) name mentioned)
    · rintro ⟨shaped, found, finds, respelled⟩
      exact not_finds_of_respelled isEnum found finds respelled (exactly.mpr shaped)
  · rintro ⟨well_named, well_spelt⟩
    constructor
    · intro finds
      rw [shaped_iff_of_finds root isEnum finds]
      intro name mentioned
      by_contra differs
      exact well_named ⟨finds, name, mentioned, differs⟩
    · intro shaped
      by_contra unfound
      exact well_spelt (speltOtherwise_of_shaped root isEnum shaped unfound)

section Sample

inductive SampleKind where
  | enum (variants : List String)
  | string | bytes
deriving DecidableEq

def SampleKind.nodes : SampleKind → Nat
  | .enum variants => variants.length
  | _ => 0

def stringNode : Node SampleKind.nodes := .node (.other .string) Fin.elim0
def bytesNode : Node SampleKind.nodes := .node (.other .bytes) Fin.elim0

/-- An enum of one variant, which is the named struct. -/
def enumOf (name : String) : Node SampleKind.nodes := .node (.other (.enum ["Commit"])) (fun _ => .name name)

def identityOf (commit : Node SampleKind.nodes) : Node SampleKind.nodes := .node (.struct [("commit", false)]) (fun _ => commit)

def bindingSchema : Schema SampleKind.nodes :=
  ⟨.name "Binding", fun name =>
    if name = "Binding" then some (enumOf "CommitIdentity")
    else if name = "CommitIdentity" then some (identityOf bytesNode) else none⟩

/-- A document with one field for a binding, over the given definitions. -/
def document (defs : Table (NodeLabel.arity SampleKind.nodes)) : Schema SampleKind.nodes :=
  ⟨.node (.struct [("binding", false)]) (fun _ => .name "Binding"), defs⟩

/-- The definitions of another crate, whose identities of that name are plain texts. -/
def redefined : Schema SampleKind.nodes := document fun name =>
  if name = "Binding" then some (enumOf "CommitIdentity")
  else if name = "CommitIdentity" then some (identityOf stringNode) else none

/-- The same definitions under another name. -/
def renamed : Schema SampleKind.nodes := document fun name =>
  if name = "Binding" then some (enumOf "Identity")
  else if name = "Identity" then some (identityOf bytesNode) else none

theorem identity_same (schema : Schema SampleKind.nodes) :
    Same schema.defs bindingSchema.defs (identityOf bytesNode) (identityOf bytesNode) :=
  same_node_iff.mpr fun _ => same_node_iff.mpr fun none => Fin.elim0 none

theorem bindingSchema_root : resolve bindingSchema bindingSchema.root = some (enumOf "CommitIdentity") := rfl
theorem bindingSchema_identity : resolve bindingSchema (.name "CommitIdentity") = some (identityOf bytesNode) := rfl

theorem shaped_of_renamed (schema : Schema SampleKind.nodes) (name : String)
    (outer : resolve schema (.name "Binding") = some (enumOf name))
    (inner : resolve schema (.name name) = some (identityOf bytesNode)) :
    Shaped schema bindingSchema (.name "Binding") := by
  have identities : Same schema.defs bindingSchema.defs (.name name) (.name "CommitIdentity") :=
    (same_resolve inner bindingSchema_identity).mpr (identity_same schema)
  exact .inl ((same_resolve outer bindingSchema_root).mpr (same_node_iff.mpr fun _ => identities))

theorem shapeIsBinding_iff_shaped_document :
    ¬ Misnamed (document bindingSchema.defs) bindingSchema (enumOf "CommitIdentity") (.name "Binding") ∧
      ¬ SpeltOtherwise (document bindingSchema.defs) bindingSchema (enumOf "CommitIdentity") (.name "Binding") := by
  have shaped : Shaped (document bindingSchema.defs) bindingSchema (.name "Binding") :=
    shaped_of_renamed _ "CommitIdentity" (by decide) (by decide)
  exact (shapeIsBinding_iff_shaped (document bindingSchema.defs) bindingSchema _ bindingSchema_root ⟨_, _, rfl⟩
    (.name "Binding")).mp (iff_of_true (by decide) shaped)

/-- A field whose commits are texts is taken for a binding, and a binding whose identities go
by another name is not. -/
theorem binding_shape_misjudged :
    (bindingField bindingSchema redefined = .ok "binding" ∧
        shapeIsBinding redefined (.name "Binding") (enumOf "CommitIdentity") = true ∧
        ¬ Shaped redefined bindingSchema (.name "Binding")) ∧
      bindingField bindingSchema renamed = .error "not anchorable: no field in its schema matches Binding's shape" ∧
      shapeIsBinding renamed (.name "Binding") (enumOf "CommitIdentity") = false ∧
      Shaped renamed bindingSchema (.name "Binding") := by
  refine ⟨⟨by decide, by decide, ?_⟩, by decide, by decide, shaped_of_renamed renamed "Identity" (by decide) (by decide)⟩
  have written : Finds redefined (.name "Binding") (enumOf "CommitIdentity") := .inl rfl
  rw [shaped_iff_of_finds bindingSchema_root ⟨_, _, rfl⟩ written]
  intro all
  have mentioned : Mentions (enumOf "CommitIdentity") "CommitIdentity" := by
    apply Mentions.under
    · exact .here "CommitIdentity"
    · exact (⟨0, Nat.one_pos⟩ : Fin 1)
  have here : resolve redefined (.name "CommitIdentity") = some (identityOf stringNode) := rfl
  have identities := (same_resolve here bindingSchema_identity).mp (all "CommitIdentity" mentioned)
  exact nomatch label_eq_of_same (same_node_iff.mp identities (⟨0, Nat.one_pos⟩ : Fin 1))

end Sample

end GitAnchor.Anchoring
