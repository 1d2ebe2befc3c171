import GitAnchor.Attest.Commands
import GitAnchor.Attest.Prompt

/-! Documents that are signed. `sign` may build its payload, from JSON or by prompts. It writes
the document as an entity named by its own hash, so that what a claim carries stays there; a key
or an envelope that is built so is written among the claims themselves. -/

namespace GitAnchor.Attest
open GitAnchor.Foundation GitAnchor.Substrate GitAnchor.Anchoring
variable {Kind ObjectId State Builder Value : Type} {size : Kind → Nat}

def CLAIM_KIND : String := "claims"

/-- A repository: its claims, and the schemas and entities of all other kinds. -/
structure Office {ObjectId : Type} (git : Git ObjectId) (State : Type) where
  claims : Store git
  documents : State

/-- Documents of any kind, each an entity that is the document's tree. To publish a schema touches
no entity. To put a document loses no object; it sets the entity of that name only, where the
kind is not that of claims, and adds to the claim ref of that name, where it is. -/
structure PayloadStore (size : Kind → Nat) {ObjectId : Type} [DecidableEq ObjectId] (git : Git ObjectId)
    (State Value : Type) where
  hex : ObjectId → String
  hex_injective : Function.Injective hex
  kinds : State → Except String (List String)
  registerSchema : State → String → Except String State
  schema : State → String → Except String (Option (Schema size))
  compile : State → String → Value → Except String ObjectId
  put : Office git State → String → String → Value → Except String (Office git State)
  entity : State → String → String → Option ObjectId
  envelope : Value → Option (StoredEnvelope ObjectId)
  registered_entity : ∀ s kind t, registerSchema s kind = .ok t → entity t = entity s
  put_extends : ∀ office kind name value left, put office kind name value = .ok left →
    office.claims.Extends left.claims
  put_entity : ∀ office kind name value left, kind ≠ CLAIM_KIND → put office kind name value = .ok left →
    ∃ tree, compile office.documents kind value = .ok tree ∧ entity left.documents =
      Function.update (entity office.documents) kind (Function.update (entity office.documents kind) name (some tree))
  put_claim : ∀ office name value left, put office CLAIM_KIND (hex name) value = .ok left →
    entity left.documents = entity office.documents ∧ ∃ stored ids id, envelope value = some stored ∧
      left.claims.history name = .ok ids ∧ id ∈ ids ∧ left.claims.readCommit id = .ok (some stored)

/-- What the command line builds and writes documents with. -/
structure Clerk (size : Kind → Nat) {ObjectId : Type} [DecidableEq ObjectId] (git : Git ObjectId)
    (State Builder Value : Type) where
  store : PayloadStore size git State Value
  forms : Forms size Builder Value
  texts : TextKinds Kind
  quoted : String → String

/-- Where a payload comes from; the options exclude one another. -/
inductive PayloadSource where
  | tree (hex : String)
  | json (raw : String)
  | interactive (lines : List (Except String String))
  | missing

def PayloadSource.builds : PayloadSource → Bool
  | .json _ | .interactive _ => true
  | .tree _ | .missing => false

structure DocumentArgs where
  target : TargetArg
  source : PayloadSource
  kind : String
  key : Option String
  machine : Bool

/-- The arguments of `sign` once the payload is there. -/
def DocumentArgs.toSignArgs (args : DocumentArgs) (payload : PayloadArg ObjectId) : SignArgs ObjectId :=
  { target := args.target, payload := payload, kind := args.kind, key := args.key, machine := args.machine }

/-- A run of the command line, with what it reads on stdin. -/
inductive Request where
  | sign (args : DocumentArgs)
  | revoke (args : RevokeArgs)
  | verify (claim : String)
  | log (target : TargetArg)
  | resolve (target : TargetArg)

def parseJson (docs : Documents size Builder Value) (raw : String) : Except String Value := do
  let value ← (docs.fromJson raw).mapError (fun _ => "parsing --json value")
  match docs.asObject value with
  | none => throw "--json value must be a JSON object"
  | some _ => return value

variable [DecidableEq ObjectId] {git : Git ObjectId} (clerk : Clerk size git State Builder Value)

/-- Both schemas, one after the other; the first stays where the second fails. -/
def registerSchemas (s : State) : Except String Unit × State :=
  match clerk.store.registerSchema s CLAIM_KIND with
  | .error failure => (.error failure, s)
  | .ok t =>
      match clerk.store.registerSchema t KEY_KIND with
      | .error failure => (.error failure, t)
      | .ok u => (.ok (), u)

def ensureSchemas (s : State) : Except String Unit × State :=
  match clerk.store.kinds s with
  | .error failure => (.error failure, s)
  | .ok kinds => if CLAIM_KIND ∉ kinds ∨ KEY_KIND ∉ kinds then registerSchemas clerk s else (.ok (), s)

def writePayload (office : Office git State) (kind : String) (value : Value) : Except String ObjectId × Office git State :=
  match clerk.store.compile office.documents kind value with
  | .error _ => (.error ("compiling a " ++ kind ++ " document"), office)
  | .ok tree =>
      match clerk.store.put office kind (clerk.store.hex tree) value with
      | .error failure => (.error failure, office)
      | .ok left => (.ok tree, left)

/-- The payload of a document, which is put into the store where it could be made. -/
def written (office : Office git State) (kind : String) : Except String Value → PayloadArg ObjectId × Office git State
  | .error failure => (.built (.error failure), office)
  | .ok value => (.built (writePayload clerk office kind value).1, (writePayload clerk office kind value).2)

variable [DecidableEq Kind]

/-- The payload of a run, as the rest of `sign` takes it. -/
def preparePayload (office : Office git State) (kind : String) : PayloadSource → PayloadArg ObjectId × Office git State
  | .tree hex => (.tree hex, office)
  | .json raw => written clerk office kind (parseJson clerk.forms.toDocuments raw)
  | .interactive lines =>
      let document := promptDocument clerk.forms clerk.texts (clerk.store.schema office.documents kind) kind lines
      written clerk office kind (document.mapError (PromptError.message clerk.quoted))
  | .missing => (.missing, office)

/-- `cmd_sign`: schemas, key claim, payload and target, in this order, and then the claim. -/
def signAt (terminal : Terminal ObjectId) (ssh : SshKey) (office : Office git State) (user : User) (args : DocumentArgs) :
    Except (CliError ObjectId) (Output ObjectId) × Office git State :=
  match ensureSchemas clerk office.documents with
  | (.error failure, left) => (.error (.payload failure), ⟨office.claims, left⟩)
  | (.ok _, ready) =>
      match runKeyClaim terminal.toRepository ssh office.claims user args.key args.machine with
      | (.error failure, s) => (.error failure, ⟨s, ready⟩)
      | (.ok keyId, s) =>
          let prepared := preparePayload clerk ⟨s, ready⟩ args.kind args.source
          match performCall prepared.2.claims user (signCall terminal.toRepository (args.toSignArgs prepared.1) keyId) with
          | .ok (id, t) => (.ok (.claim id), ⟨t, prepared.2.documents⟩)
          | .error failure => (.error failure, prepared.2)

omit [DecidableEq Kind] in
def revokeAt (terminal : Terminal ObjectId) (ssh : SshKey) (office : Office git State) (user : User) (args : RevokeArgs) :
    Except (CliError ObjectId) (Output ObjectId) × Office git State :=
  match ensureSchemas clerk office.documents with
  | (.error failure, left) => (.error (.payload failure), ⟨office.claims, left⟩)
  | (.ok _, ready) =>
      let (outcome, s) := runRevoke terminal.toRepository ssh office.claims user args
      (outcome, ⟨s, ready⟩)

def executeAt (terminal : Terminal ObjectId) (ssh : SshKey) (office : Office git State) (user : User) :
    Request → Except (CliError ObjectId) (Output ObjectId) × Office git State
  | .sign args => signAt clerk terminal ssh office user args
  | .revoke args => revokeAt clerk terminal ssh office user args
  | .verify claim => ((execute terminal ssh office.claims user (.verify claim)).1, office)
  | .log target => ((execute terminal ssh office.claims user (.log target)).1, office)
  | .resolve target => ((execute terminal ssh office.claims user (.resolve target)).1, office)

/-! What stays. -/

/-- No object is lost and no claim ref rewritten, and every entity named by its own hash stays. -/
structure Keeps (office left : Office git State) : Prop where
  claims : office.claims.Extends left.claims
  entities : ∀ kind tree, clerk.store.entity office.documents kind (clerk.store.hex tree) = some tree →
    clerk.store.entity left.documents kind (clerk.store.hex tree) = some tree

/-- The document stands in the store under its own hash: as the entity of that name, or, where it
is an envelope, on the claim ref of that name. -/
inductive Stands (office : Office git State) (kind : String) (tree : ObjectId) (value : Value) : Prop
  | entity (other : kind ≠ CLAIM_KIND)
      (there : clerk.store.entity office.documents kind (clerk.store.hex tree) = some tree) : Stands office kind tree value
  | claim (stored : StoredEnvelope ObjectId) (ids : List ObjectId) (id : ObjectId) (same : kind = CLAIM_KIND)
      (envelope : clerk.store.envelope value = some stored) (history : office.claims.history tree = .ok ids)
      (member : id ∈ ids) (there : office.claims.readCommit id = .ok (some stored)) : Stands office kind tree value

section Documents
omit [DecidableEq Kind]

theorem Keeps.refl (office : Office git State) : Keeps clerk office office := ⟨.refl _, fun _ _ there => there⟩

theorem Keeps.trans {first second third : Office git State} (one : Keeps clerk first second)
    (other : Keeps clerk second third) : Keeps clerk first third :=
  ⟨one.claims.trans other.claims, fun kind tree there => other.entities kind tree (one.entities kind tree there)⟩

theorem keeps_of_entity (s t : Store git) (documents left : State) (extended : s.Extends t)
    (same : clerk.store.entity left = clerk.store.entity documents) : Keeps clerk ⟨s, documents⟩ ⟨t, left⟩ := by
  refine ⟨extended, ?_⟩
  intro kind tree there
  change clerk.store.entity left kind (clerk.store.hex tree) = some tree
  rw [same]
  exact there

theorem readCommit_extends (s t : Store git) (extended : s.Extends t) (id : ObjectId)
    (stored : StoredEnvelope ObjectId) (read : s.readCommit id = .ok (some stored)) : t.readCommit id = .ok (some stored) := by
  unfold Store.readCommit at read ⊢
  cases found : s.find id with
  | none => simp [found] at read
  | some object =>
    rw [found] at read
    rw [extended.find id object found]
    exact read

theorem Stands.kept {office left : Office git State} {kind : String} {tree : ObjectId} {value : Value}
    (stands : Stands clerk office kind tree value) (keeps : Keeps clerk office left) : Stands clerk left kind tree value := by
  cases stands with
  | entity other there => exact .entity other (keeps.entities kind tree there)
  | claim stored ids id same envelope history member there =>
    obtain ⟨newer, longer⟩ := keeps.claims.history tree ids history
    exact .claim stored (newer ++ ids) id same envelope longer (List.mem_append_right newer member)
      (readCommit_extends _ _ keeps.claims id stored there)

theorem ensureSchemas_entity (s : State) : clerk.store.entity (ensureSchemas clerk s).2 = clerk.store.entity s := by
  unfold ensureSchemas
  split
  · rfl
  · next kinds _ =>
    split
    · unfold registerSchemas
      split
      · rfl
      · next t first =>
        have before := clerk.store.registered_entity s CLAIM_KIND t first
        split
        · exact before
        · next u second => exact (clerk.store.registered_entity t KEY_KIND u second).trans before
    · rfl

/-- A document that was written stands; what stood before stays, for no two hashes are spelled alike. -/
theorem writePayload_cases (office : Office git State) (kind : String) (value : Value) :
    Keeps clerk office (writePayload clerk office kind value).2 ∧
      ∀ tree, (writePayload clerk office kind value).1 = .ok tree →
        clerk.store.compile office.documents kind value = .ok tree ∧
          Stands clerk (writePayload clerk office kind value).2 kind tree value := by
  unfold writePayload
  split
  · exact ⟨.refl clerk office, nofun⟩
  · next tree compiled =>
    split
    · exact ⟨.refl clerk office, nofun⟩
    · next left put =>
      have extended := clerk.store.put_extends office kind _ value left put
      by_cases claim : kind = CLAIM_KIND
      · subst claim
        obtain ⟨entities, stored, ids, id, envelope, history, member, there⟩ := clerk.store.put_claim office tree value left put
        refine ⟨keeps_of_entity clerk _ _ _ _ extended entities, ?_⟩
        rintro _ ⟨⟩
        exact ⟨compiled, .claim stored ids id rfl envelope history member there⟩
      · obtain ⟨other, compiled', entities⟩ := clerk.store.put_entity office kind _ value left claim put
        obtain rfl := Except.ok.inj (compiled.symm.trans compiled')
        refine ⟨⟨extended, ?_⟩, ?_⟩
        · intro among own there
          rw [entities]
          by_cases here : among = kind
          · subst here
            rw [Function.update_self]
            by_cases again : clerk.store.hex own = clerk.store.hex tree
            · rw [clerk.store.hex_injective again, Function.update_self]
            · rw [Function.update_of_ne again, there]
          · rw [Function.update_of_ne here, there]
        · rintro _ ⟨⟩
          refine ⟨compiled, .entity claim ?_⟩
          rw [entities, Function.update_self, Function.update_self]

theorem written_keeps (office : Office git State) (kind : String) (made : Except String Value) :
    Keeps clerk office (written clerk office kind made).2 := by
  cases made with
  | error failure => exact .refl clerk office
  | ok value => exact (writePayload_cases clerk office kind value).1

end Documents

theorem preparePayload_keeps (office : Office git State) (kind : String) (source : PayloadSource) :
    Keeps clerk office (preparePayload clerk office kind source).2 := by
  cases source with
  | tree | missing => exact .refl clerk office
  | json | interactive => exact written_keeps clerk office kind _

theorem signAt_keeps (terminal : Terminal ObjectId) (ssh : SshKey) (office : Office git State) (user : User)
    (args : DocumentArgs) : Keeps clerk office (signAt clerk terminal ssh office user args).2 := by
  have schemas := ensureSchemas_entity clerk office.documents
  unfold signAt
  split
  · next failure left ensured =>
    rw [ensured] at schemas
    exact keeps_of_entity clerk _ _ _ _ (.refl _) schemas
  · next ready ensured =>
    rw [ensured] at schemas
    have named := (runKeyClaim_named terminal.toRepository ssh office.claims user args.key args.machine).grows
    split
    · next failure s keyed =>
      rw [keyed] at named
      exact keeps_of_entity clerk _ _ _ _ named.extended schemas
    · next keyId s keyed =>
      rw [keyed] at named
      have first : Keeps clerk office ⟨s, ready⟩ := keeps_of_entity clerk _ _ _ _ named.extended schemas
      have second := first.trans clerk (preparePayload_keeps clerk ⟨s, ready⟩ args.kind args.source)
      dsimp only
      split
      · next id t performed =>
        obtain ⟨call, _, taken⟩ := (performCall_eq_ok _ t user _ id).mp performed
        exact second.trans clerk (keeps_of_entity clerk _ _ _ _ (step_grows _ _ t taken).extended rfl)
      · exact second

theorem executeAt_keeps (terminal : Terminal ObjectId) (ssh : SshKey) (office : Office git State) (user : User)
    (request : Request) : Keeps clerk office (executeAt clerk terminal ssh office user request).2 := by
  cases request with
  | sign args => exact signAt_keeps clerk terminal ssh office user args
  | revoke args =>
    have schemas := ensureSchemas_entity clerk office.documents
    simp only [executeAt, revokeAt]
    split
    · next ensured =>
      rw [ensured] at schemas
      exact keeps_of_entity clerk _ _ _ _ (.refl _) schemas
    · next ensured =>
      rw [ensured] at schemas
      have grown := (execute_effect ssh office.claims (runRevoke terminal.toRepository ssh office.claims user args).2
        ⟨terminal, user, .revoke args, (runRevoke terminal.toRepository ssh office.claims user args).1⟩ rfl).grows
      exact keeps_of_entity clerk _ _ _ _ grown.extended schemas
  | verify | log | resolve => exact .refl clerk office

/-! Sessions. -/

structure Requested (ObjectId : Type) where
  terminal : Terminal ObjectId
  user : User
  request : Request
  outcome : Except (CliError ObjectId) (Output ObjectId)

def Handles (ssh : SshKey) (office : Office git State) (done : Requested ObjectId) (left : Office git State) : Prop :=
  executeAt clerk done.terminal ssh office done.user done.request = (done.outcome, left)

theorem session_keeps (ssh : SshKey) (origin office : Office git State)
    (trace : List (Office git State × Requested ObjectId)) (run : Run (· = origin) (Handles clerk ssh) trace office) :
    Keeps clerk origin office := by
  apply run.relates (Keeps.refl clerk) (fun _ _ _ => Keeps.trans clerk)
  intro before done after handled
  have one := executeAt_keeps clerk done.terminal ssh before done.user done.request
  unfold Handles at handled
  rwa [handled] at one

/-! What a claim carries. -/

/-- The document that a source makes: the JSON object given, or what the prompts were answered. -/
inductive Gave (s : State) (kind : String) : PayloadSource → Value → Prop where
  | json (raw : String) (value : Value) (entries : List (String × Value))
      (parsed : clerk.forms.fromJson raw = .ok value) (object : clerk.forms.asObject value = some entries) :
      Gave s kind (.json raw) value
  | interactive (lines : List (Except String String)) (schema : Schema size) (value : Value)
      (published : clerk.store.schema s kind = .ok (some schema))
      (prompted : Prompted clerk.forms clerk.texts schema lines value) : Gave s kind (.interactive lines) value

omit [DecidableEq Kind] in
theorem parseJson_ok (docs : Documents size Builder Value) (raw : String) (value : Value)
    (parsed : parseJson docs raw = .ok value) :
    docs.fromJson raw = .ok value ∧ ∃ entries, docs.asObject value = some entries := by
  simp only [parseJson, Result.bind_eq_ok, Result.mapError_eq_ok] at parsed
  obtain ⟨found, read, object⟩ := parsed
  split at object
  · cases object
  · next entries same =>
    obtain rfl := Except.ok.inj object
    exact ⟨read, entries, same⟩

/-- A claim on a document that a run built: the document was given so, and stands in the store
under its own hash, which is the payload of the claim. -/
structure Carries (ready : State) (args : DocumentArgs) (office : Office git State) (id tree : ObjectId) (value : Value) :
    Prop where
  gave : Gave clerk ready args.kind args.source value
  compiled : clerk.store.compile ready args.kind value = .ok tree
  stands : Stands clerk office args.kind tree value
  carried : ∃ envelope, envelopeAt office.claims id = .ok envelope ∧ envelope.payload = tree ∧
    envelope.payloadKind = args.kind

omit [DecidableEq Kind] in
theorem written_ok (office : Office git State) (kind : String) (made : Except String Value) (repo : Repository ObjectId)
    (tree : ObjectId) (payload : payloadOf repo (written clerk office kind made).1 = .ok tree) : ∃ value, made = .ok value ∧
      clerk.store.compile office.documents kind value = .ok tree ∧
      Stands clerk (written clerk office kind made).2 kind tree value := by
  cases made with
  | error failure => cases payload
  | ok value => exact ⟨value, rfl, (writePayload_cases clerk office kind value).2 tree (Result.mapError_eq_ok.mp payload)⟩

theorem preparePayload_ok (office : Office git State) (kind : String) (source : PayloadSource)
    (builds : source.builds = true) (repo : Repository ObjectId) (tree : ObjectId)
    (payload : payloadOf repo (preparePayload clerk office kind source).1 = .ok tree) : ∃ value,
      Gave clerk office.documents kind source value ∧ clerk.store.compile office.documents kind value = .ok tree ∧
      Stands clerk (preparePayload clerk office kind source).2 kind tree value := by
  cases source with
  | tree | missing => cases builds
  | json raw =>
    obtain ⟨value, made, compiled, stands⟩ := written_ok clerk office kind _ repo tree payload
    obtain ⟨parsed, entries, object⟩ := parseJson_ok clerk.forms.toDocuments raw value made
    exact ⟨value, .json raw value entries parsed object, compiled, stands⟩
  | interactive lines =>
    obtain ⟨value, made, compiled, stands⟩ := written_ok clerk office kind _ repo tree payload
    obtain ⟨schema, published, prompted⟩ :=
      prompted_document clerk.forms clerk.texts _ kind lines value (Result.mapError_eq_ok.mp made)
    exact ⟨value, .interactive lines schema value published prompted, compiled, stands⟩

theorem signAt_carries (terminal : Terminal ObjectId) (ssh : SshKey) (office left : Office git State) (user : User)
    (args : DocumentArgs) (builds : args.source.builds = true) (id : ObjectId)
    (signed : signAt clerk terminal ssh office user args = (.ok (.claim id), left)) :
    ∃ ready tree value, ensureSchemas clerk office.documents = (.ok (), ready) ∧
      Carries clerk ready args left id tree value := by
  unfold signAt at signed
  split at signed
  · cases signed
  · next ready ensured =>
    split at signed
    · cases signed
    · next keyId s named =>
      dsimp only at signed
      split at signed
      · next other t performed =>
        simp only [Prod.mk.injEq, Except.ok.injEq, Output.claim.injEq] at signed
        obtain ⟨rfl, rfl⟩ := signed
        obtain ⟨call, read, appended⟩ := (performCall_eq_ok _ t user _ other).mp performed
        simp only [signCall, Result.bind_eq_ok, Result.pure_eq_ok] at read
        obtain ⟨tree, payload, on, _, rfl⟩ := read
        obtain ⟨value, gave, compiled, stands⟩ := preparePayload_ok clerk ⟨s, ready⟩ args.kind args.source builds _ tree payload
        have lands := append_ok _ _ _ _ _ _ appended
        have kept := stands.kept clerk (keeps_of_entity clerk _ t _ _ lands.grows.extended rfl)
        exact ⟨ready, tree, value, ensured, gave, compiled, kept, _, lands.envelopeAt_self, rfl, rfl⟩
      · cases signed

/-- The document of a claim is never lost: what a run built and signed, of whatever kind, stands
in the store under the hash that the claim carries, through all later requests, failing ones
among them. -/
theorem payloads_kept (ssh : SshKey) (origin s office : Office git State) (terminal : Terminal ObjectId) (user : User)
    (args : DocumentArgs) (builds : args.source.builds = true) (id : ObjectId)
    (later earlier : List (Office git State × Requested ObjectId))
    (run : Run (· = origin) (Handles clerk ssh)
      (later ++ (s, ⟨terminal, user, .sign args, .ok (.claim id)⟩) :: earlier) office) :
    ∃ ready tree value, ensureSchemas clerk s.documents = (.ok (), ready) ∧
      Carries clerk ready args office id tree value := by
  obtain ⟨left, handled, further⟩ := run.split
  obtain ⟨ready, tree, value, ensured, carries⟩ := signAt_carries clerk terminal ssh s left user args builds id handled
  obtain ⟨envelope, carried, same⟩ := carries.carried
  have keeps := session_keeps clerk ssh left office later further
  exact ⟨ready, tree, value, ensured, carries.gave, carries.compiled, carries.stands.kept clerk keeps, envelope,
    envelopeAt_extends left.claims office.claims keeps.claims id envelope carried, same⟩

section Sample

/-- The kinds with a schema, and the entities. -/
structure Shelf where
  registered : List String
  entities : String → String → Option Digest

def fieldDigest : String × FormValue → Digest
  | (name, .text value) => .pair (.str name) (.str value)
  | (name, .null) => .pair (.str name) (.nat 0)
  | (name, .object _) => .pair (.str name) (.nat 1)

def keySchema : Schema SampleKind.nodes :=
  ⟨.node (.struct [("format", false), ("publicKey", false)]) (fun _ => stringNode), fun _ => none⟩

/-- The key that a document of kind `keys` is. -/
def keyOf : FormValue → Option AttestKey
  | .object entries =>
      match entries.lookup "format", entries.lookup "publicKey" with
      | some (.text format), some (.text publicKey) => some ⟨format, publicKey.toByteArray.toList, false⟩
      | _, _ => none
  | .null | .text _ => none

def compileForm (kind : String) (value : FormValue) : Except String Digest :=
  if kind = KEY_KIND then
    match keyOf value with
    | some key => .ok (digestGit.objectId (.key key))
    | none => .error "not a key"
  else
    match value with
    | .object entries => .ok (Digest.ofList fieldDigest entries)
    | .null | .text _ => .error "not a document"

/-- The claims with a key document, where one is put. -/
def withKey (claims : Store digestGit) (kind : String) (value : FormValue) : Store digestGit :=
  match if kind = KEY_KIND then keyOf value else none with
  | some key => claims.writeObject (.key key)
  | none => claims

/-- The sample writes no claim by hand. -/
def shelve (office : Office digestGit Shelf) (kind name : String) (value : FormValue) :
    Except String (Office digestGit Shelf) := do
  let tree ← compileForm kind value
  if kind = CLAIM_KIND then throw "not an envelope"
  let shelf := office.documents
  return ⟨withKey office.claims kind value,
    ⟨shelf.registered, Function.update shelf.entities kind (Function.update (shelf.entities kind) name (some tree))⟩⟩

theorem shelve_eq_ok (office left : Office digestGit Shelf) (kind name : String) (value : FormValue)
    (put : shelve office kind name value = .ok left) : kind ≠ CLAIM_KIND ∧
      left.claims = withKey office.claims kind value ∧ ∃ tree, compileForm kind value = .ok tree ∧
      left.documents.entities = Function.update office.documents.entities kind
        (Function.update (office.documents.entities kind) name (some tree)) := by
  simp only [shelve, Result.bind_eq_ok] at put
  obtain ⟨tree, compiled, put⟩ := put
  split at put
  · cases put
  · next other =>
    obtain rfl := Except.ok.inj put
    exact ⟨other, rfl, tree, compiled, rfl⟩

def shelves : PayloadStore SampleKind.nodes digestGit Shelf FormValue :=
  { hex := fun digest => String.ofList digest.spell
    hex_injective := fun _ _ same => Digest.spell_injective (String.ofList_injective same)
    kinds := fun s => .ok s.registered
    registerSchema := fun s kind => .ok { s with registered := kind :: s.registered }
    schema := fun _ kind =>
      .ok (if kind = "letter" then some letterSchema else if kind = KEY_KIND then some keySchema else none)
    compile := fun _ kind value => compileForm kind value
    put := shelve
    entity := Shelf.entities
    envelope := fun _ => none
    registered_entity := by
      intro s kind t registered
      obtain rfl := Except.ok.inj registered
      rfl
    put_extends := by
      intro office kind name value left put
      rw [(shelve_eq_ok office left kind name value put).2.1]
      unfold withKey
      split
      · exact Store.extends_writeObject _ _
      · exact .refl _
    put_entity := fun office kind name value left _ put => (shelve_eq_ok office left kind name value put).2.2
    put_claim := fun office name value left put => absurd rfl (shelve_eq_ok office left CLAIM_KIND _ value put).1 }

def sampleClerk : Clerk SampleKind.nodes digestGit Shelf (Schema SampleKind.nodes × List (String × FormValue)) FormValue :=
  { store := shelves
    forms := sampleForms
    texts := ⟨.string, .bytes⟩
    quoted := fun raw => raw }

def promptedArgs (kind : String) (lines : List (Except String String)) : DocumentArgs :=
  { target := { kind := "doc", id := "a11ce" }, source := .interactive lines, kind := kind, key := none, machine := false }

def emptyOffice : Office digestGit Shelf := ⟨emptyStore, ⟨[], fun _ _ => none⟩⟩

def handled (office : Office digestGit Shelf) (request : Request) : Requested Digest :=
  ⟨desk, aliceUser, request, (executeAt sampleClerk desk namedSsh office aliceUser request).1⟩

def handledAfter (office : Office digestGit Shelf) (request : Request) : Office digestGit Shelf :=
  (executeAt sampleClerk desk namedSsh office aliceUser request).2

def letter : DocumentArgs := promptedArgs "letter" [.ok "Hello", .ok "", .ok "warm"]
def brokenLetter : DocumentArgs := promptedArgs "letter" [.ok "Good bye"]
def bobsKey : DocumentArgs := promptedArgs KEY_KIND [.ok SSH_ED25519, .ok "2"]

def writtenOffice : Office digestGit Shelf := handledAfter emptyOffice (.sign letter)
def keyedOffice : Office digestGit Shelf := handledAfter writtenOffice (.sign bobsKey)

/-- The ids that Alice's runs print for her letter, and for the key she signs next. -/
def letterId : Digest := (shown (handled emptyOffice (.sign letter)).outcome).getD (.nat 0)
def bobsKeyId : Digest := (shown (handled writtenOffice (.sign bobsKey)).outcome).getD (.nat 0)

/-- Both documents are there after a third, which the input broke off in. -/
theorem payloads_kept_letters :
    (∃ ready tree value, ensureSchemas sampleClerk emptyOffice.documents = (.ok (), ready) ∧
      Carries sampleClerk ready letter (handledAfter keyedOffice (.sign brokenLetter)) letterId tree value) ∧
    ∃ ready tree value, ensureSchemas sampleClerk writtenOffice.documents = (.ok (), ready) ∧
      Carries sampleClerk ready bobsKey (handledAfter keyedOffice (.sign brokenLetter)) bobsKeyId tree value := by
  have first : (executeAt sampleClerk desk namedSsh emptyOffice aliceUser (.sign letter)).1 = .ok (.claim letterId) := by
    decide +kernel
  have second : (executeAt sampleClerk desk namedSsh writtenOffice aliceUser (.sign bobsKey)).1 = .ok (.claim bobsKeyId) := by
    decide +kernel
  have session : Run (· = emptyOffice) (Handles sampleClerk namedSsh)
      [(keyedOffice, handled keyedOffice (.sign brokenLetter)),
        (writtenOffice, ⟨desk, aliceUser, .sign bobsKey, .ok (.claim bobsKeyId)⟩),
        (emptyOffice, ⟨desk, aliceUser, .sign letter, .ok (.claim letterId)⟩)]
      (handledAfter keyedOffice (.sign brokenLetter)) :=
    .next (.next (.next (.start rfl) (Prod.ext first rfl)) (Prod.ext second rfl)) rfl
  exact ⟨payloads_kept sampleClerk namedSsh emptyOffice emptyOffice _ desk aliceUser letter rfl letterId
      [(keyedOffice, handled keyedOffice (.sign brokenLetter)),
        (writtenOffice, ⟨desk, aliceUser, .sign bobsKey, .ok (.claim bobsKeyId)⟩)] [] session,
    payloads_kept sampleClerk namedSsh emptyOffice writtenOffice _ desk aliceUser bobsKey rfl bobsKeyId
      [(keyedOffice, handled keyedOffice (.sign brokenLetter))]
      [(emptyOffice, ⟨desk, aliceUser, .sign letter, .ok (.claim letterId)⟩)] session⟩

end Sample

end GitAnchor.Attest
