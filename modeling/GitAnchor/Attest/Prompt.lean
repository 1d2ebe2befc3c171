import GitAnchor.Foundation.Text
import GitAnchor.Anchoring.Documents

/-! Documents by prompts: the fields of a schema are asked for one by one, each for a line, and a
line is no concern of any other field. -/

namespace GitAnchor.Attest
open GitAnchor.Foundation GitAnchor.Anchoring
variable {Kind Builder Value : Type} {size : Kind → Nat}

/-- Documents for prompts. A builder lists the fields of its schema, each once. What is left
unset has its default, and no document is built that lacks a required field. -/
structure Forms (size : Kind → Nat) (Builder Value : Type) extends Documents size Builder Value where
  schema : Builder → Schema size
  fields : Schema size → List (String × StructField size)
  defaultOf : Schema size → String → Option Value
  forSchema_schema : ∀ given builder, forSchema given = .ok builder → schema builder = given
  set_schema : ∀ builder name value next, set builder name value = .ok next → schema next = schema builder
  fields_distinct : ∀ given, ((fields given).map Prod.fst).Nodup
  build_unset : ∀ builder document name, build builder = .ok document → assigned builder name = none →
    field document name = defaultOf (schema builder) name
  build_complete : ∀ builder document name given, build builder = .ok document →
    (name, given) ∈ fields (schema builder) → given.hasDefault = false → isOptional (schema builder) given.node = false →
    assigned builder name ≠ none

inductive PromptError where
  | source (failure : String)
  | noSchema (kind : String)
  | readingStdin (failure : String)
  | endOfInput (name : String)
  | notJson (name raw failure : String)
  | incomplete (kind failure : String)
deriving DecidableEq

/-- What is shown of an error, given how a line is quoted. -/
def PromptError.message (quoted : String → String) : PromptError → String
  | .source failure => failure
  | .noSchema kind => "no schema published for kind " ++ kind
  | .readingStdin _ => "reading stdin"
  | .endOfInput name => "unexpected end of input while filling " ++ name
  | .notJson name raw _ => name ++ ": expected a JSON value, got " ++ quoted raw
  | .incomplete kind _ => "kind " ++ kind ++ ": the document is incomplete"

/-- The kinds of node that take their line as it is. -/
structure TextKinds (Kind : Type) where
  string : Kind
  bytes : Kind

def isTextual [DecidableEq Kind] (texts : TextKinds Kind) (schema : Schema size) (node : Node size) : Bool :=
  match Anchoring.resolve schema node with
  | some (.node (.other kind) _) => decide (kind = texts.string ∨ kind = texts.bytes)
  | _ => false

def isBlank (raw : List Char) : Bool := (Text.trim raw).isEmpty

variable [DecidableEq Kind] (forms : Forms size Builder Value) (texts : TextKinds Kind) (schema : Schema size)

/-- The answer that a line is to a field, or nothing where the default is to stand. -/
def readAnswer (name : String) (field : StructField size) (line : String) : Except PromptError (Option Value) :=
  let raw := Text.trimLineEnds line.toList
  if isBlank raw ∧ isOptional schema field.node then .ok (some forms.null)
  else if isBlank raw ∧ field.hasDefault then .ok none
  else if isTextual texts schema field.node then .ok (some (forms.text (String.ofList raw)))
  else do
    let value ← (forms.fromJson (String.ofList (Text.trim raw))).mapError (.notJson name (String.ofList raw))
    return some value

/-- The loop over the fields, on the lines that are still to be read. -/
def promptFields : List (String × StructField size) → List (Except String String) → Builder → Except PromptError Builder
  | [], _, builder => .ok builder
  | (name, field) :: _, [], builder =>
      if field.hasDefault ∨ isOptional schema field.node then .ok builder else .error (.endOfInput name)
  | (name, field) :: rest, line :: lines, builder => do
      let raw ← line.mapError .readingStdin
      match ← readAnswer forms texts schema name field raw with
      | none => promptFields rest lines builder
      | some value => do
          let next ← (forms.set builder name value).mapError .source
          promptFields rest lines next

omit schema in
/-- The document that lines on stdin make for a kind, given the schema published for it. -/
def promptDocument (published : Except String (Option (Schema size))) (kind : String)
    (lines : List (Except String String)) : Except PromptError Value := do
  match ← published.mapError .source with
  | none => throw (.noSchema kind)
  | some schema => do
      let builder ← (forms.forSchema schema).mapError .source
      let filled ← promptFields forms texts schema (forms.fields (forms.schema builder)) lines builder
      (forms.build filled).mapError (.incomplete kind)

/-! What the loop leaves in the builder. -/

/-- Some fields after the lines they were asked for: each has the answer of its own line where
that gave one, and else what it had. -/
structure Answered (fields : List (String × StructField size)) (lines : List (Except String String))
    (before after : String → Option Value) : Prop where
  given : ∀ name field line, ((name, field), line) ∈ fields.zip lines → ∃ raw answer, line = .ok raw ∧
    readAnswer forms texts schema name field raw = .ok answer ∧ after name = answer.or (before name)
  unasked : ∀ name field, (name, field) ∈ fields.drop lines.length → after name = before name
  other : ∀ name, name ∉ fields.map Prod.fst → after name = before name

theorem Answered.next {rest : List (String × StructField size)} {lines : List (Except String String)} {name : String}
    {field : StructField size} {raw : String} {answer : Option Value} {before middle after : String → Option Value}
    (fresh : name ∉ rest.map Prod.fst)
    (read : readAnswer forms texts schema name field raw = .ok answer) (took : middle name = answer.or (before name))
    (kept : ∀ other, other ≠ name → middle other = before other)
    (later : Answered forms texts schema rest lines middle after) :
    Answered forms texts schema ((name, field) :: rest) (.ok raw :: lines) before after := by
  have passed (other : String) (given : StructField size) (member : (other, given) ∈ rest) : middle other = before other := by
    apply kept
    rintro rfl
    exact fresh (List.mem_map_of_mem member)
  refine ⟨?_, ?_, ?_⟩
  · intro other given line member
    rcases List.mem_cons.mp member with same | further
    · simp only [Prod.mk.injEq] at same
      obtain ⟨⟨rfl, rfl⟩, rfl⟩ := same
      exact ⟨raw, answer, rfl, read, (later.other other fresh).trans took⟩
    · obtain ⟨raw', answer', ok, read', stands⟩ := later.given other given line further
      exact ⟨raw', answer', ok, read', passed other given (List.of_mem_zip further).1 ▸ stands⟩
  · intro other given member
    exact (later.unasked other given member).trans (passed other given (List.mem_of_mem_drop member))
  · intro other absent
    rw [List.map_cons, List.mem_cons, not_or] at absent
    exact (later.other other absent.2).trans (kept other absent.1)

theorem promptFields_answered (fields : List (String × StructField size)) (lines : List (Except String String))
    (builder next : Builder) (distinct : (fields.map Prod.fst).Nodup)
    (filled : promptFields forms texts schema fields lines builder = .ok next) :
    Answered forms texts schema fields lines (forms.assigned builder) (forms.assigned next) ∧
      forms.schema next = forms.schema builder := by
  induction fields generalizing lines builder with
  | nil =>
    obtain rfl := Except.ok.inj filled
    exact ⟨⟨by simp, by simp, fun _ _ => rfl⟩, rfl⟩
  | cons entry rest ih =>
    obtain ⟨name, field⟩ := entry
    obtain ⟨fresh, distinct⟩ := List.nodup_cons.mp distinct
    cases lines with
    | nil =>
      rw [promptFields] at filled
      split at filled
      · obtain rfl := Except.ok.inj filled
        exact ⟨⟨by simp, fun _ _ _ => rfl, fun _ _ => rfl⟩, rfl⟩
      · cases filled
    | cons line lines =>
      simp only [promptFields, Result.bind_eq_ok, Result.mapError_eq_ok] at filled
      obtain ⟨raw, rfl, answer, read, filled⟩ := filled
      cases answer with
      | none =>
        obtain ⟨later, same⟩ := ih lines builder distinct filled
        exact ⟨later.next forms texts schema fresh read rfl (fun _ _ => rfl), same⟩
      | some value =>
        simp only [Result.bind_eq_ok, Result.mapError_eq_ok] at filled
        obtain ⟨middle, set, filled⟩ := filled
        have assigned := forms.set_assigned builder name value middle set
        obtain ⟨later, same⟩ := ih lines middle distinct filled
        refine ⟨later.next forms texts schema fresh read ?_ ?_, same.trans (forms.set_schema builder name value middle set)⟩
        · rw [assigned, Function.update_self, Option.some_or]
        · intro other different
          rw [assigned, Function.update_of_ne different]

omit schema in
theorem promptDocument_ok (published : Except String (Option (Schema size))) (kind : String)
    (lines : List (Except String String)) (document : Value)
    (made : promptDocument forms texts published kind lines = .ok document) :
    ∃ schema builder filled, published = .ok (some schema) ∧ forms.forSchema schema = .ok builder ∧
      promptFields forms texts schema (forms.fields schema) lines builder = .ok filled ∧
      forms.build filled = .ok document := by
  simp only [promptDocument, Result.bind_eq_ok, Result.mapError_eq_ok] at made
  obtain ⟨found, looked, made⟩ := made
  cases found with
  | none => cases made
  | some schema =>
    simp only [Result.bind_eq_ok, Result.mapError_eq_ok] at made
    obtain ⟨builder, started, filled, prompted, built⟩ := made
    rw [forms.forSchema_schema schema builder started] at prompted
    exact ⟨schema, builder, filled, looked, started, prompted, built⟩

/-- Each field of a document is decided by the line that it was asked for: it has the answer, or
its default where that gave none. Fields that the input ended before have their defaults, and
none of them is required. -/
structure Prompted (lines : List (Except String String)) (document : Value) : Prop where
  asked : ∀ name field line, ((name, field), line) ∈ (forms.fields schema).zip lines → ∃ raw answer, line = .ok raw ∧
    readAnswer forms texts schema name field raw = .ok answer ∧
    forms.field document name = answer.or (forms.defaultOf schema name)
  unasked : ∀ name field, (name, field) ∈ (forms.fields schema).drop lines.length →
    (field.hasDefault = true ∨ isOptional schema field.node = true) ∧
      forms.field document name = forms.defaultOf schema name

omit schema in
/-- A document that prompts made has in each field what that field's own line says. -/
theorem prompted_document (published : Except String (Option (Schema size))) (kind : String)
    (lines : List (Except String String)) (document : Value)
    (made : promptDocument forms texts published kind lines = .ok document) :
    ∃ schema, published = .ok (some schema) ∧ Prompted forms texts schema lines document := by
  obtain ⟨schema, fresh, filled, looked, started, prompted, built⟩ :=
    promptDocument_ok forms texts published kind lines document made
  obtain ⟨answered, same⟩ :=
    promptFields_answered forms texts schema _ lines fresh filled (forms.fields_distinct schema) prompted
  rw [forms.forSchema_assigned schema fresh started] at answered
  rw [forms.forSchema_schema schema fresh started] at same
  have unset (name : String) (absent : forms.assigned filled name = none) :
      forms.field document name = forms.defaultOf schema name := same ▸ forms.build_unset filled document name built absent
  refine ⟨schema, looked, ?_, ?_⟩
  · intro name field line member
    obtain ⟨raw, answer, ok, read, stands⟩ := answered.given name field line member
    refine ⟨raw, answer, ok, read, ?_⟩
    cases answer with
    | none => exact unset name stands
    | some value => exact forms.build_field filled document name value built stands
  · intro name field member
    have absent := answered.unasked name field member
    refine ⟨?_, unset name absent⟩
    by_contra required
    rw [not_or, Bool.not_eq_true, Bool.not_eq_true] at required
    have listed : (name, field) ∈ forms.fields (forms.schema filled) := same.symm ▸ List.mem_of_mem_drop member
    exact forms.build_complete filled document name field built listed required.1 (same.symm ▸ required.2) absent

section Sample

inductive FormValue where
  | null
  | text (value : String)
  | object (entries : List (String × FormValue))

/-- A letter: a subject, a remark that may be missing, and a tone with a default. -/
def letterSchema : Schema SampleKind.nodes :=
  ⟨.node (.struct [("subject", false), ("remark", false), ("tone", true)])
    (fun field => if field.val = 1 then Node.optional stringNode else stringNode), fun _ => none⟩

/-- The fields of a struct, if it has no two of one name. -/
def distinctFields (given : Schema SampleKind.nodes) : List (String × StructField SampleKind.nodes) :=
  match structFields given with
  | .ok fields => if (fields.map Prod.fst).Nodup then fields else []
  | .error _ => []

def plainDefaults (given : Schema SampleKind.nodes) : List (String × FormValue) :=
  ((distinctFields given).filter (fun field => field.2.hasDefault)).map (fun field => (field.1, .text "plain"))

/-- Builders that keep what was set, the latest first; every default is one text. -/
def sampleForms : Forms SampleKind.nodes (Schema SampleKind.nodes × List (String × FormValue)) FormValue :=
  { forSchema := fun given => .ok (given, [])
    set := fun builder name value => .ok (builder.1, (name, value) :: builder.2)
    build := fun builder =>
      if ∀ field ∈ distinctFields builder.1, field.2.hasDefault = false → isOptional builder.1 field.2.node = false →
          (builder.2.lookup field.1).isSome then .ok (.object (builder.2 ++ plainDefaults builder.1))
      else .error "missing fields"
    null := .null
    text := .text
    fromJson := fun raw => if raw = "null" then .ok .null else .error "unexpected input"
    asObject := fun value => match value with
      | .object entries => if (entries.map Prod.fst).Nodup then some entries else none
      | _ => none
    assigned := fun builder name => builder.2.lookup name
    field := fun document name => match document with
      | .object entries => entries.lookup name
      | _ => none
    schema := Prod.fst
    fields := distinctFields
    defaultOf := fun given name => (plainDefaults given).lookup name
    forSchema_assigned := by
      intro given builder started
      obtain rfl := Except.ok.inj started
      rfl
    set_assigned := by
      intro builder name value next set
      obtain rfl := Except.ok.inj set
      funext other
      by_cases same : other = name
      · subst same
        simp
      · have passed : (other == name) = false := beq_false_of_ne same
        simp [Function.update_of_ne same, List.lookup_cons, passed]
    build_field := by
      intro builder document name value built there
      split at built
      · obtain rfl := Except.ok.inj built
        simp only [List.lookup_append, there, Option.some_or]
      · cases built
    asObject_distinct := by
      intro value entries object
      split at object
      · split at object
        · next distinct => exact Option.some.inj object ▸ distinct
        · cases object
      · cases object
    forSchema_schema := by
      intro given builder started
      obtain rfl := Except.ok.inj started
      rfl
    set_schema := by
      intro builder name value next set
      obtain rfl := Except.ok.inj set
      rfl
    fields_distinct := by
      intro given
      unfold distinctFields
      split
      · split
        · next distinct => exact distinct
        · exact List.nodup_nil
      · exact List.nodup_nil
    build_unset := by
      intro builder document name built absent
      split at built
      · obtain rfl := Except.ok.inj built
        simp only [List.lookup_append, absent, Option.none_or]
      · cases built
    build_complete := by
      intro builder document name given built member required plain absent
      split at built
      · next complete =>
        have there := complete (name, given) member required plain
        rw [absent] at there
        cases there
      · cases built }

/-- A subject with spaces, no remark, and the input ends before the tone. -/
theorem prompted_document_letter : ∃ schema, Except.ok (some letterSchema) = (Except.ok (some schema) : Except String _) ∧
    Prompted sampleForms ⟨.string, .bytes⟩ schema [.ok " On time \r", .ok " "]
      (.object [("remark", .null), ("subject", .text " On time "), ("tone", .text "plain")]) :=
  prompted_document sampleForms ⟨.string, .bytes⟩ (.ok (some letterSchema)) "letter" [.ok " On time \r", .ok " "] _ rfl

end Sample

end GitAnchor.Attest
