import GitAnchor.Anchoring.Documents
import GitAnchor.Anchoring.Remove
import GitAnchor.Anchoring.Create

/-! The document that `inject` writes. Optional fields start out absent, the user fills fields
by JSON or fills the one required text, and the binding comes last, so that nothing the user
gives can stand in its place. -/

namespace GitAnchor.Anchoring
open GitAnchor.Foundation
variable {Kind ObjectId Builder Value : Type} {size : Kind → Nat}

/-- Documents that may hold a binding. -/
structure BindingDocuments (size : Kind → Nat) (ObjectId Builder Value : Type) extends Documents size Builder Value where
  bindingToValue : Binding ObjectId → Except String Value

structure InjectArgs (ObjectId : Type) where
  kind : RefSegment
  text : Option String
  anchor : ObjectId
  json : Option String

inductive InjectError (ObjectId : Type) where
  | source (failure : String)
  | noSchema (kind : RefSegment)
  | readingBinding (anchor : String) (failure : String)
  | parsingJson (failure : String)
  | notAnObject
  | noPositional (kind : RefSegment) (failure : String)
  | unfilled (kind : RefSegment) (failure : String)
deriving DecidableEq

def InjectError.message : InjectError ObjectId → String
  | .source failure => failure
  | .noSchema kind => "no schema published for kind " ++ kind
  | .readingBinding anchor _ => "reading binding " ++ anchor
  | .parsingJson _ => "parsing --json value"
  | .notAnObject => "--json value must be a JSON object"
  | .noPositional kind _ => "kind " ++ kind ++ " does not accept a positional argument"
  | .unfilled kind _ => "kind " ++ kind ++ ": fill remaining required field(s) with --json"

variable [DecidableEq Kind]

def isString (string : Kind) (schema : Schema size) (node : Node size) : Bool :=
  match resolve schema node with
  | some (.node (.other kind) _) => decide (kind = string)
  | _ => false

/-- The required texts of a document, but for the binding field. -/
def stringFields (string : Kind) (schema : Schema size) (fields : List (String × StructField size))
    (bindingField : String) : List String :=
  (fields.filter (fun field => field.1 ≠ bindingField ∧ field.2.hasDefault = false ∧
    isString string schema field.2.node = true)).map Prod.fst

def uniqueStringField (string : Kind) (schema : Schema size) (fields : List (String × StructField size))
    (bindingField : String) : Except String String :=
  match stringFields string schema fields bindingField with
  | [name] => .ok name
  | [] => .error "no required String field to fill (besides the binding field)"
  | many => .error ("ambiguous: " ++ toString many.length ++ " candidate String fields (" ++ ", ".intercalate many ++ ")")

omit [DecidableEq Kind] in
/-- The optional fields without a default. -/
def absences (schema : Schema size) (fields : List (String × StructField size)) : List String :=
  (fields.filter (fun field => field.2.hasDefault = false ∧ isOptional schema field.2.node = true)).map Prod.fst

variable (docs : BindingDocuments size ObjectId Builder Value)

/-- What the user fills in: the JSON object where there is one, else the text. -/
def fillGiven (string : Kind) (schema : Schema size) (fields : List (String × StructField size))
    (bindingField : String) (args : InjectArgs ObjectId) (builder : Builder) :
    Except (InjectError ObjectId) Builder :=
  match args.json, args.text with
  | some raw, _ => do
      let value ← (docs.fromJson raw).mapError .parsingJson
      match docs.asObject value with
      | none => throw .notAnObject
      | some entries => (setEach docs.toDocuments builder entries).mapError .source
  | none, some text => do
      let field ← (uniqueStringField string schema fields bindingField).mapError (.noPositional args.kind)
      (docs.set builder field (docs.text text)).mapError .source
  | none, none => .ok builder

/-- The document to write, given the binding that the handle names. -/
def injected (string : Kind) (schema : Schema size) (fields : List (String × StructField size))
    (bindingField : String) (args : InjectArgs ObjectId) (binding : Binding ObjectId) :
    Except (InjectError ObjectId) Value := do
  let builder ← (docs.forSchema schema).mapError .source
  let absent ← (setEach docs.toDocuments builder ((absences schema fields).map (fun name => (name, docs.null)))).mapError .source
  let given ← fillGiven docs string schema fields bindingField args absent
  let value ← (docs.bindingToValue binding).mapError .source
  let bound ← (docs.set given bindingField value).mapError .source
  (docs.build bound).mapError (.unfilled args.kind)

/-- The entries that a user gives: those of a JSON object, or a text for the one required text
that is no binding. -/
inductive Gives (string : Kind) (schema : Schema size) (fields : List (String × StructField size))
    (bindingField : String) (args : InjectArgs ObjectId) : List (String × Value) → Prop where
  | json (raw : String) (value : Value) (entries : List (String × Value)) (given : args.json = some raw)
      (parsed : docs.fromJson raw = .ok value) (object : docs.asObject value = some entries) :
      Gives string schema fields bindingField args entries
  | text (text field : String) (plain : args.json = none) (given : args.text = some text)
      (only : stringFields string schema fields bindingField = [field]) :
      Gives string schema fields bindingField args [(field, docs.text text)]
  | nothing (plain : args.json = none) (empty : args.text = none) : Gives string schema fields bindingField args []

/-- The document holds the binding in its field, elsewhere what the user gave, and leaves the
other optional fields absent. -/
structure Filled (schema : Schema size) (fields : List (String × StructField size)) (bindingField : String)
    (binding : Binding ObjectId) (given : List (String × Value)) (document : Value) : Prop where
  bound : ∃ value, docs.bindingToValue binding = .ok value ∧ docs.field document bindingField = some value
  kept : ∀ name value, (name, value) ∈ given → name ≠ bindingField → docs.field document name = some value
  absent : ∀ name ∈ absences schema fields, name ≠ bindingField → name ∉ given.map Prod.fst →
    docs.field document name = some docs.null

theorem uniqueStringField_eq_ok (string : Kind) (schema : Schema size)
    (fields : List (String × StructField size)) (bindingField name : String) :
    uniqueStringField string schema fields bindingField = .ok name ↔
      stringFields string schema fields bindingField = [name] := by
  unfold uniqueStringField
  split
  · next only => rw [only, Except.ok.injEq, List.cons.injEq, and_iff_left rfl]
  · next none =>
    rw [none]
    exact iff_of_false nofun nofun
  · next several _ => exact iff_of_false nofun (several name)

theorem fillGiven_assigned (string : Kind) (schema : Schema size) (fields : List (String × StructField size))
    (bindingField : String) (args : InjectArgs ObjectId) (builder next : Builder)
    (filled : fillGiven docs string schema fields bindingField args builder = .ok next) :
    ∃ given, Gives docs string schema fields bindingField args given ∧ (given.map Prod.fst).Nodup ∧
      docs.assigned next = overlay given (docs.assigned builder) := by
  unfold fillGiven at filled
  split at filled
  · next raw given =>
    obtain ⟨value, parsed, filled⟩ := Result.bind_eq_ok.mp filled
    split at filled
    · cases filled
    · next entries object =>
      exact ⟨entries, .json raw value entries given (Result.mapError_eq_ok.mp parsed) object,
        docs.asObject_distinct value entries object,
        setEach_assigned docs.toDocuments builder next entries (Result.mapError_eq_ok.mp filled)⟩
  · next text plain given =>
    obtain ⟨field, chosen, filled⟩ := Result.bind_eq_ok.mp filled
    have only := (uniqueStringField_eq_ok string schema fields bindingField field).mp (Result.mapError_eq_ok.mp chosen)
    exact ⟨[(field, docs.text text)], .text text field plain given only, List.nodup_singleton field,
      docs.set_assigned builder field _ next (Result.mapError_eq_ok.mp filled)⟩
  · next plain empty =>
    obtain rfl := Except.ok.inj filled
    exact ⟨[], .nothing plain empty, List.nodup_nil, rfl⟩

omit [DecidableEq Kind] in
/-- The three rounds of writing, read back. -/
theorem filled_of_assigned (schema : Schema size) (fields : List (String × StructField size)) (bindingField : String)
    (binding : Binding ObjectId) (given : List (String × Value)) (value document : Value) (builder : Builder)
    (converted : docs.bindingToValue binding = .ok value) (distinct : (given.map Prod.fst).Nodup)
    (built : docs.build builder = .ok document)
    (assigned : docs.assigned builder = Function.update (overlay given (overlay
      ((absences schema fields).map (fun name => (name, docs.null))) (fun _ => none))) bindingField (some value)) :
    Filled docs schema fields bindingField binding given document := by
  have holds (name : String) (found : Value) (there : docs.assigned builder name = some found) :
      docs.field document name = some found := docs.build_field builder document name found built there
  refine ⟨⟨value, converted, holds bindingField value ?_⟩, ?_, ?_⟩
  · rw [assigned, Function.update_self]
  · intro name found member elsewhere
    apply holds
    rw [assigned, Function.update_of_ne elsewhere]
    exact overlay_of_mem given _ name found distinct member
  · intro name optional elsewhere untouched
    apply holds
    rw [assigned, Function.update_of_ne elsewhere, overlay_other given _ name untouched]
    have emptied : (name, docs.null) ∈ (absences schema fields).map (fun name => (name, docs.null)) :=
      List.mem_map_of_mem optional
    obtain ⟨found, member, there⟩ := overlay_written _ (fun _ => none) name (List.mem_map_of_mem emptied)
    obtain ⟨_, _, same⟩ := List.mem_map.mp member
    rw [there, ← (Prod.mk.inj same).2]

/-- Whatever the user gives, the document that is written holds the handle's binding in its
binding field; all else that was given stands as it was given. -/
theorem injected_filled (string : Kind) (schema : Schema size) (fields : List (String × StructField size))
    (bindingField : String) (args : InjectArgs ObjectId) (binding : Binding ObjectId) (document : Value)
    (written : injected docs string schema fields bindingField args binding = .ok document) :
    ∃ given, Gives docs string schema fields bindingField args given ∧
      Filled docs schema fields bindingField binding given document := by
  simp only [injected, Result.bind_eq_ok, Result.mapError_eq_ok] at written
  obtain ⟨fresh, started, absent, emptied, last, filled, value, converted, bound, set, built⟩ := written
  obtain ⟨given, gives, distinct, overlaid⟩ := fillGiven_assigned docs string schema fields bindingField args absent last filled
  refine ⟨given, gives, filled_of_assigned docs schema fields bindingField binding given value document bound
    converted distinct built ?_⟩
  calc
    docs.assigned bound = Function.update (docs.assigned last) bindingField (some value) :=
      docs.set_assigned last bindingField value bound set
    _ = _ := by
      rw [overlaid, setEach_assigned docs.toDocuments fresh absent _ emptied, docs.forSchema_assigned schema fresh started]

section Sample

inductive SampleValue (ObjectId : Type) where
  | null
  | text (value : String)
  | binding (value : Binding ObjectId)
  | object (entries : List (String × SampleValue ObjectId))

def entryOf (entries : List (String × SampleValue ObjectId)) (name : String) : Option (SampleValue ObjectId) :=
  (entries.find? (fun entry => entry.1 = name)).map Prod.snd

/-- Documents whose builder is the list of what was set, the latest first. -/
def sampleDocuments (ObjectId : Type) :
    BindingDocuments SampleKind.nodes ObjectId (List (String × SampleValue ObjectId)) (SampleValue ObjectId) :=
  { forSchema := fun _ => .ok []
    set := fun builder name value => .ok ((name, value) :: builder)
    build := fun builder => .ok (.object builder)
    null := .null
    text := .text
    fromJson := fun raw =>
      if raw = "\x7b\"binding\": null, \"title\": \"t\"\x7d" then .ok (.object [("binding", .null), ("title", .text "t")])
      else .error "unexpected input"
    asObject := fun value => match value with
      | .object entries => if (entries.map Prod.fst).Nodup then some entries else none
      | _ => none
    bindingToValue := fun binding => .ok (.binding binding)
    assigned := entryOf
    field := fun document name => match document with
      | .object entries => entryOf entries name
      | _ => none
    forSchema_assigned := by
      intro schema builder started
      rw [← Except.ok.inj started]
      rfl
    set_assigned := by
      intro builder name value next set
      rw [← Except.ok.inj set]
      funext other
      by_cases same : other = name
      · rw [same, Function.update_self]
        simp [entryOf]
      · rw [Function.update_of_ne same]
        have passed : ¬ name = other := fun equal => same equal.symm
        simp [entryOf, passed]
    build_field := by
      intro builder document name value built there
      rw [← Except.ok.inj built]
      exact there
    asObject_distinct := by
      intro value entries object
      split at object
      · split at object
        · next distinct =>
          rw [← Option.some.inj object]
          exact distinct
        · cases object
      · cases object }

/-- A note: a binding, a title, and a remark that may be missing. -/
def noteSchema : Schema SampleKind.nodes :=
  ⟨.node (.struct [("binding", false), ("title", false), ("remark", false)])
    (fun field => if field.val = 0 then .name "Binding" else if field.val = 1 then stringNode else Node.optional stringNode),
    bindingSchema.defs⟩

def noteFields : List (String × StructField SampleKind.nodes) :=
  [("binding", ⟨.name "Binding", false⟩), ("title", ⟨stringNode, false⟩), ("remark", ⟨Node.optional stringNode, false⟩)]

def noteArgs : InjectArgs Nat :=
  ⟨"note", none, 0, some "\x7b\"binding\": null, \"title\": \"t\"\x7d"⟩

/-- A binding field that the user empties holds the binding all the same. -/
theorem injected_filled_note :
    ∃ given, Gives (sampleDocuments Nat) .string noteSchema noteFields "binding" noteArgs given ∧
      Filled (sampleDocuments Nat) noteSchema noteFields "binding" (.commit ⟨7⟩ ⟨⟩) given
        (.object [("binding", .binding (.commit ⟨7⟩ ⟨⟩)), ("title", .text "t"), ("binding", .null), ("remark", .null)]) :=
  injected_filled (sampleDocuments Nat) .string noteSchema noteFields "binding" noteArgs (.commit ⟨7⟩ ⟨⟩) _ rfl

end Sample

end GitAnchor.Anchoring
