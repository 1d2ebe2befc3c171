import GitAnchor.Foundation.Transition
import GitAnchor.Anchoring.Inject

/-! Sessions at the command line: captures, entities of any kind, and the registry of anchored
positions. Between two commands the repository may move on, and objects that no ref names may
be collected. -/

namespace GitAnchor.Anchoring
open GitAnchor.Foundation GitAnchor.Substrate

variable {Kind ObjectId Trees State Builder Value : Type} {size : Kind → Nat}

/-- Bindings as trees of an object database. What is written can be read, writing loses nothing
that could be, and an id is that of one binding only. -/
structure BindingCodec (ObjectId Trees : Type) where
  serializeInto : Trees → Binding ObjectId → Except String (ObjectId × Trees)
  deserialize : Trees → ObjectId → Except String (Binding ObjectId)
  serialized : ∀ trees binding handle left, serializeInto trees binding = .ok (handle, left) →
    deserialize left handle = .ok binding
  kept : ∀ trees binding handle left, serializeInto trees binding = .ok (handle, left) →
    ∀ other found, deserialize trees other = .ok found → deserialize left other = .ok found
  decodes_once : ∀ trees trees' handle one other, deserialize trees handle = .ok one →
    deserialize trees' handle = .ok other → one = other

/-- Entities with their documents. A write adds one, named by its group and its commit; among the
writes of one kind to one group, with one message, a commit is that of one document; a deletion
brings none up and takes no other away. -/
structure KindStore (size : Kind → Nat) (ObjectId State Value : Type) extends EntityStore State Value where
  kinds : State → Except String (List RefSegment)
  schema : State → RefSegment → Except String (Option (Schema size))
  list : State → RefSegment → Except String (List RefPath)
  writeAnonymousUnder : State → RefSegment → Value → String → RefPath → Except String (ObjectId × State)
  entityNameUnder : RefPath → ObjectId → RefPath
  held : State → RefSegment → RefPath → Option Value
  read_held : ∀ s kind name found, read s kind name = .ok found → found = held s kind name
  written_held : ∀ s t kind value message group commit, writeAnonymousUnder s kind value message group = .ok (commit, t) →
    held t = Function.update (held s) kind
      (Function.update (held s kind) (entityNameUnder group commit) (some value))
  deleted_held : ∀ s t kind name result, deleteName s kind name = .ok (result, t) →
    ∀ other entity, held t other entity = held s other entity ∨ (other = kind ∧ entity = name ∧ held t other entity = none)
  entityNameUnder_inj : ∀ group group' commit commit', entityNameUnder group commit = entityNameUnder group' commit' →
    group = group' ∧ commit = commit'
  commit_value : ∀ s t s' t' kind value value' message group commit,
    writeAnonymousUnder s kind value message group = .ok (commit, t) →
    writeAnonymousUnder s' kind value' message group = .ok (commit, t') → value = value'

theorem KindStore.written_self (store : KindStore size ObjectId State Value) {s t : State} {kind : RefSegment}
    {value : Value} {message : String} {group : RefPath} {commit : ObjectId}
    (written : store.writeAnonymousUnder s kind value message group = .ok (commit, t)) :
    store.held t kind (store.entityNameUnder group commit) = some value := by
  rw [store.written_held s t kind value message group commit written, Function.update_self, Function.update_self]

theorem KindStore.written_other (store : KindStore size ObjectId State Value) {s t : State} {kind other : RefSegment}
    {value : Value} {message : String} {group name : RefPath} {commit : ObjectId}
    (written : store.writeAnonymousUnder s kind value message group = .ok (commit, t))
    (different : ¬ (other = kind ∧ name = store.entityNameUnder group commit)) :
    store.held t other name = store.held s other name := by
  rw [store.written_held s t kind value message group commit written]
  by_cases same : other = kind
  · subst same
    rw [Function.update_self, Function.update_of_ne (fun own => different ⟨rfl, own⟩)]
  · rw [Function.update_of_ne same]

/-- What the command line works with. -/
structure Tools (gix : Gix ObjectId) (size : Kind → Nat) (Trees State Builder Value : Type) where
  codec : BindingCodec ObjectId Trees
  store : KindStore size ObjectId State Value
  docs : BindingDocuments size ObjectId Builder Value
  normalForm : NormalFormHash ObjectId
  string : Kind
  canonical : Schema size
  refPath : String → Except String RefPath
  hex_injective : Function.Injective gix.hex

variable {gix : Gix ObjectId}

/-- A repository with its trees of bindings, its entities, the refs of its registry, and why one
of those cannot be written at present. -/
structure Desk (gix : Gix ObjectId) (Trees State : Type) where
  repo : Repository gix
  trees : Trees
  entities : State
  registry : String → Option ObjectId
  refused : String → Option String

structure CreateArgs where
  revision : Option String
  path : Option String
  lines : Option LinesArg
  worktree : Bool

inductive Command (ObjectId : Type) where
  | kinds
  | create (args : CreateArgs)
  | id (handle : ObjectId)
  | inject (args : InjectArgs ObjectId)
  | list (kind : RefSegment)
  | show (kind : RefSegment) (name : String)
  | remove (kind : RefSegment) (names : List RefPath)

/-- What a command prints: kinds and whether they are anchorable, a capture handle, an anchor
id, the name of an entity, entities, or nothing. -/
inductive Output (ObjectId Value : Type) where
  | kinds (listed : List (RefSegment × Bool))
  | handle (id : ObjectId)
  | anchorId (id : ObjectId)
  | entity (name : RefPath)
  | entities (listed : List (RefPath × Value))
  | removed

inductive CommandError (ObjectId : Type) where
  | source (failure : String)
  | create (failure : CreateError ObjectId)
  | inject (failure : InjectError ObjectId)
  | remove (failure : RemoveError)
  | invalidName (name failure : String)
  | noEntity (name : RefPath) (kind : RefSegment)

def CommandError.message : CommandError ObjectId → Option String
  | .source failure => some failure
  | .create failure => failure.message
  | .inject failure => some failure.message
  | .remove failure => some failure.message
  | .invalidName name _ => some ("invalid entity name " ++ name.quote)
  | .noEntity name kind => some ("no entity " ++ name ++ " in kind " ++ kind)

/-- The ref that leads to an anchored position. -/
def registryRef (gix : Gix ObjectId) (anchorId : ObjectId) : String := "refs/anchors/" ++ gix.hex anchorId

/-- Point a ref at an object, whatever it pointed at before. -/
def reference (desk : Desk gix Trees State) (name : String) (id : ObjectId) :
    Except String (Desk gix Trees State) :=
  match desk.refused name with
  | some failure => .error failure
  | none => .ok { desk with registry := Function.update desk.registry name (some id) }

variable (tools : Tools gix size Trees State Builder Value)

def cmdCreate [DecidableEq ObjectId] (desk : Desk gix Trees State) (invocation : Invocation) (args : CreateArgs) :
    Except (CommandError ObjectId) ObjectId × Desk gix Trees State :=
  match buildBinding desk.repo invocation args.revision args.path args.lines args.worktree with
  | .error failure => (.error (.create failure), desk)
  | .ok (binding, repo) =>
      match tools.codec.serializeInto desk.trees binding with
      | .error failure => (.error (.source failure), { desk with repo := repo })
      | .ok (handle, trees) => (.ok handle, { desk with repo := repo, trees := trees })

def cmdId (desk : Desk gix Trees State) (handle : ObjectId) : Except (CommandError ObjectId) ObjectId := do
  let binding ← (tools.codec.deserialize desk.trees handle).mapError .source
  return binding.anchorId tools.normalForm

variable [DecidableEq Kind]

/-- The binding that `inject` reads, and the document it is to write. -/
def prepare (desk : Desk gix Trees State) (args : InjectArgs ObjectId) :
    Except (InjectError ObjectId) (Binding ObjectId × Value) := do
  match ← (tools.store.schema desk.entities args.kind).mapError .source with
  | none => throw (.noSchema args.kind)
  | some schema => do
      let name ← (bindingField tools.canonical schema).mapError .source
      let fields ← (structFields schema).mapError .source
      let binding ← (tools.codec.deserialize desk.trees args.anchor).mapError (.readingBinding (gix.hex args.anchor))
      let document ← injected tools.docs tools.string schema fields name args binding
      return (binding, document)

omit [DecidableEq Kind] in
/-- Lead the registry to a position; any other binding has no place there. -/
def register (desk : Desk gix Trees State) (binding : Binding ObjectId) :
    Except String Unit × Desk gix Trees State :=
  match binding with
  | .position _ =>
      match tools.codec.serializeInto desk.trees binding with
      | .error failure => (.error failure, desk)
      | .ok (handle, trees) =>
          match reference { desk with trees := trees } (registryRef gix (binding.anchorId tools.normalForm)) handle with
          | .error failure => (.error failure, { desk with trees := trees })
          | .ok registered => (.ok (), registered)
  | _ => (.ok (), desk)

/-- The entity is written before the registry, and stays where that fails. -/
def cmdInject (desk : Desk gix Trees State) (args : InjectArgs ObjectId) :
    Except (InjectError ObjectId) RefPath × Desk gix Trees State :=
  match prepare tools desk args with
  | .error failure => (.error failure, desk)
  | .ok (binding, document) =>
      let group := gix.hex (binding.anchorId tools.normalForm)
      match tools.store.writeAnonymousUnder desk.entities args.kind document (args.kind ++ " " ++ group) group with
      | .error failure => (.error (.source failure), desk)
      | .ok (commit, entities) =>
          match register tools { desk with entities := entities } binding with
          | (.error failure, left) => (.error (.source failure), left)
          | (.ok (), left) => (.ok (tools.store.entityNameUnder group commit), left)

def cmdKinds (desk : Desk gix Trees State) : Except String (List (RefSegment × Bool)) := do
  let kinds ← tools.store.kinds desk.entities
  kinds.mapM fun kind => do
    let schema ← tools.store.schema desk.entities kind
    return (kind, schema.any (fun schema => (bindingField tools.canonical schema).toBool))

omit [DecidableEq Kind] in
/-- The entities of a kind that can be read, in the order of their names. -/
def cmdList (desk : Desk gix Trees State) (kind : RefSegment) : Except String (List (RefPath × Value)) := do
  let names ← tools.store.list desk.entities kind
  let found ← names.mapM fun name => do
    let value ← tools.store.read desk.entities kind name
    return value.map (fun value => (name, value))
  return found.reduceOption

omit [DecidableEq Kind] in
def cmdShow (desk : Desk gix Trees State) (kind : RefSegment) (name : String) :
    Except (CommandError ObjectId) (RefPath × Value) := do
  let path ← (tools.refPath name).mapError (.invalidName name)
  match ← (tools.store.read desk.entities kind path).mapError .source with
  | none => throw (.noEntity path kind)
  | some value => return (path, value)

def execute [DecidableEq ObjectId] (desk : Desk gix Trees State) (invocation : Invocation) :
    Command ObjectId → Except (CommandError ObjectId) (Output ObjectId Value) × Desk gix Trees State
  | .kinds => ((cmdKinds tools desk).map .kinds |>.mapError .source, desk)
  | .create args => let done := cmdCreate tools desk invocation args
      (done.1.map .handle, done.2)
  | .id handle => ((cmdId tools desk handle).map .anchorId, desk)
  | .inject args => let done := cmdInject tools desk args
      ((done.1.map .entity).mapError .inject, done.2)
  | .list kind => ((cmdList tools desk kind).map .entities |>.mapError .source, desk)
  | .show kind name => ((cmdShow tools desk kind name).map (fun shown => .entities [shown]), desk)
  | .remove kind names => let done := cmdRemove tools.store.toEntityStore desk.entities kind names
      ((done.1.map fun _ => .removed).mapError .remove, { desk with entities := done.2 })

/-- What happens to a repository: a command, new commits and files, or a collection of the
objects that no ref needs. -/
inductive Event (ObjectId Value : Type) where
  | ran (invocation : Invocation) (command : Command ObjectId)
      (outcome : Except (CommandError ObjectId) (Output ObjectId Value))
  | moved
  | collected

inductive Step [DecidableEq ObjectId] : Desk gix Trees State → Event ObjectId Value → Desk gix Trees State → Prop where
  | ran {desk left : Desk gix Trees State} (invocation : Invocation) (command : Command ObjectId)
      (outcome : Except (CommandError ObjectId) (Output ObjectId Value))
      (done : execute tools desk invocation command = (outcome, left)) : Step desk (.ran invocation command outcome) left
  | moved {desk : Desk gix Trees State} (repo : Repository gix) (refused : String → Option String) :
      Step desk .moved { desk with repo := repo, refused := refused }
  | collected {desk : Desk gix Trees State} (trees : Trees)
      (spared : ∀ name handle, desk.registry name = some handle → ∀ binding,
        tools.codec.deserialize desk.trees handle = .ok binding → tools.codec.deserialize trees handle = .ok binding) :
      Step desk .collected { desk with trees := trees }

/-! What a command does to the registry. -/

omit [DecidableEq Kind] in
/-- What can be read before can be read after. -/
def Keeps (desk left : Desk gix Trees State) : Prop :=
  ∀ handle binding, tools.codec.deserialize desk.trees handle = .ok binding →
    tools.codec.deserialize left.trees handle = .ok binding

/-- Every ref of the registry is as it was, with the binding it led to, or leads to a position
of the anchor id that it is named for. -/
def Advances (desk left : Desk gix Trees State) : Prop :=
  ∀ name,
    (left.registry name = desk.registry name ∧ ∀ handle, desk.registry name = some handle → ∀ binding,
      tools.codec.deserialize desk.trees handle = .ok binding → tools.codec.deserialize left.trees handle = .ok binding) ∨
    ∃ anchor handle, name = registryRef gix (anchor.id tools.normalForm) ∧ left.registry name = some handle ∧
      tools.codec.deserialize left.trees handle = .ok (.position anchor)

/-- The registry leads to a binding of the same identity. -/
def Registered (desk : Desk gix Trees State) (binding : Binding ObjectId) : Prop :=
  ∃ handle found, desk.registry (registryRef gix (binding.anchorId tools.normalForm)) = some handle ∧
    tools.codec.deserialize desk.trees handle = .ok found ∧ binding.SameIdentity found

/-- All that registering does: it leaves the registry, where it fails or there is nothing to
do, or leads it to the position. -/
inductive Registers (desk : Desk gix Trees State) (binding : Binding ObjectId) :
    Except String Unit → Desk gix Trees State → Prop where
  | unplaced (other : ∀ anchor, binding ≠ .position anchor) : Registers desk binding (.ok ()) desk
  | failed (failure : String) (trees : Trees) (keeps : Keeps tools desk { desk with trees := trees }) :
      Registers desk binding (.error failure) { desk with trees := trees }
  | led (anchor : Anchor ObjectId) (position : binding = .position anchor) (handle : ObjectId) (trees : Trees)
      (wrote : tools.codec.serializeInto desk.trees binding = .ok (handle, trees)) :
      Registers desk binding (.ok ()) { desk with
        trees := trees
        registry := Function.update desk.registry (registryRef gix (binding.anchorId tools.normalForm)) (some handle) }

omit [DecidableEq Kind] in
theorem register_registers (desk : Desk gix Trees State) (binding : Binding ObjectId) :
    Registers tools desk binding (register tools desk binding).1 (register tools desk binding).2 := by
  unfold register
  split
  · next anchor =>
    split
    · next failure _ => exact .failed failure desk.trees (fun _ _ read => read)
    · next handle trees wrote =>
      unfold reference
      dsimp only
      cases desk.refused (registryRef gix ((Binding.position anchor).anchorId tools.normalForm)) with
      | some failure => exact .failed failure trees (tools.codec.kept desk.trees _ handle trees wrote)
      | none => exact .led anchor rfl handle trees wrote
  · next other => exact .unplaced other

omit [DecidableEq Kind] in
theorem Keeps.advances {desk left : Desk gix Trees State} (keeps : Keeps tools desk left)
    (same : left.registry = desk.registry) : Advances tools desk left :=
  fun name => .inl ⟨congrFun same name, fun handle _ binding read => keeps handle binding read⟩

omit [DecidableEq Kind] in
theorem Registers.advances {desk left : Desk gix Trees State} {binding : Binding ObjectId}
    {outcome : Except String Unit} (registers : Registers tools desk binding outcome left) :
    Advances tools desk left := by
  cases registers with
  | unplaced => exact Keeps.advances tools (fun _ _ read => read) rfl
  | failed failure trees keeps => exact keeps.advances tools rfl
  | led anchor position handle trees wrote =>
    intro name
    by_cases own : name = registryRef gix (binding.anchorId tools.normalForm)
    · subst position
      refine .inr ⟨anchor, handle, own, ?_, tools.codec.serialized desk.trees _ handle trees wrote⟩
      rw [own]
      exact Function.update_self _ _ _
    · refine .inl ⟨Function.update_of_ne own _ _, ?_⟩
      intro other _ found read
      exact tools.codec.kept desk.trees binding handle trees wrote other found read

omit [DecidableEq Kind] in
theorem Registers.entities_eq {desk left : Desk gix Trees State} {binding : Binding ObjectId}
    {outcome : Except String Unit} (registers : Registers tools desk binding outcome left) :
    left.entities = desk.entities := by
  cases registers <;> rfl

omit [DecidableEq Kind] in
/-- A position that was registered without a failure is found in the registry. -/
theorem Registers.registered {desk left : Desk gix Trees State} {anchor : Anchor ObjectId}
    (registers : Registers tools desk (.position anchor) (.ok ()) left) : Registered tools left (.position anchor) := by
  cases registers with
  | unplaced other => exact absurd rfl (other anchor)
  | led _ _ handle trees wrote =>
    exact ⟨handle, .position anchor, Function.update_self _ _ _,
      tools.codec.serialized desk.trees _ handle trees wrote, (form_eq_iff _ _).mp rfl⟩

omit [DecidableEq Kind] in
theorem registryRef_inj (binding other : Binding ObjectId)
    (same : registryRef gix (binding.anchorId tools.normalForm) = registryRef gix (other.anchorId tools.normalForm)) :
    binding.SameIdentity other := by
  have ids := tools.hex_injective (String.append_right_inj _ |>.mp same)
  rw [anchorId_eq_hash, anchorId_eq_hash] at ids
  exact (form_eq_iff binding other).mp (tools.normalForm.hash_injective ids)

omit [DecidableEq Kind] in
theorem Binding.SameIdentity.trans {one other third : Binding ObjectId} (first : one.SameIdentity other)
    (second : other.SameIdentity third) : one.SameIdentity third := by
  rw [← form_eq_iff] at first second ⊢
  exact first.trans second

omit [DecidableEq Kind] in
/-- What the registry leads to, it leads to from then on; only the hints of the binding change. -/
theorem Registered.advances {desk left : Desk gix Trees State} {binding : Binding ObjectId}
    (registered : Registered tools desk binding) (advances : Advances tools desk left) :
    Registered tools left binding := by
  obtain ⟨handle, found, led, read, same⟩ := registered
  rcases advances (registryRef gix (binding.anchorId tools.normalForm)) with ⟨kept, reads⟩ | ⟨anchor, next, named, led', read'⟩
  · exact ⟨handle, found, kept.trans led, reads handle led found read, same⟩
  · exact ⟨next, .position anchor, led', read', registryRef_inj tools binding (.position anchor) named⟩

/-! What a command does to a desk. -/

/-- All that an event does to the entities: it leaves them, writes one that is to be registered,
or removes some. -/
inductive Effect [DecidableEq ObjectId] (desk : Desk gix Trees State) :
    Event ObjectId Value → Desk gix Trees State → Prop where
  | still {event : Event ObjectId Value} {left : Desk gix Trees State} (advances : Advances tools desk left)
      (same : left.entities = desk.entities) : Effect desk event left
  | wrote (invocation : Invocation) (args : InjectArgs ObjectId) (binding : Binding ObjectId) (document : Value)
      (commit : ObjectId) (entities : State) (registered : Except String Unit)
      {left : Desk gix Trees State} (prepared : prepare tools desk args = .ok (binding, document))
      (written : tools.store.writeAnonymousUnder desk.entities args.kind document
        (args.kind ++ " " ++ gix.hex (binding.anchorId tools.normalForm)) (gix.hex (binding.anchorId tools.normalForm)) =
          .ok (commit, entities))
      (registers : Registers tools { desk with entities := entities } binding registered left) :
      Effect desk (.ran invocation (.inject args) ((registered.mapError (fun failure => .inject (.source failure))).map fun _ =>
        .entity (tools.store.entityNameUnder (gix.hex (binding.anchorId tools.normalForm)) commit))) left
  | removed (invocation : Invocation) (kind : RefSegment) (names : List RefPath)
      (outcome : Except (CommandError ObjectId) (Output ObjectId Value)) :
      Effect desk (.ran invocation (.remove kind names) outcome)
        { desk with entities := (cmdRemove tools.store.toEntityStore desk.entities kind names).2 }

omit [DecidableEq Kind] in
theorem cmdCreate_keeps [DecidableEq ObjectId] (desk : Desk gix Trees State) (invocation : Invocation)
    (args : CreateArgs) : Keeps tools desk (cmdCreate tools desk invocation args).2 ∧
      (cmdCreate tools desk invocation args).2.registry = desk.registry ∧
      (cmdCreate tools desk invocation args).2.entities = desk.entities := by
  unfold cmdCreate
  split
  · exact ⟨fun _ _ read => read, rfl, rfl⟩
  · next binding repo _ =>
    split
    · exact ⟨fun _ _ read => read, rfl, rfl⟩
    · next handle trees wrote => exact ⟨tools.codec.kept desk.trees binding handle trees wrote, rfl, rfl⟩

theorem inject_effect [DecidableEq ObjectId] (desk : Desk gix Trees State) (invocation : Invocation)
    (args : InjectArgs ObjectId) : Effect tools desk
      (.ran invocation (.inject args) (execute tools desk invocation (.inject args)).1)
      (execute tools desk invocation (.inject args)).2 := by
  have nothing : Advances tools desk desk := Keeps.advances tools (fun _ _ read => read) rfl
  simp only [execute, cmdInject]
  split
  · exact .still nothing rfl
  · next binding document prepared =>
    split
    · exact .still nothing rfl
    · next commit entities written =>
      have registers := register_registers tools { desk with entities := entities } binding
      split
      · next failure left ended =>
        rw [ended] at registers
        exact .wrote invocation args binding document commit entities (.error failure) prepared written registers
      · next left ended =>
        rw [ended] at registers
        exact .wrote invocation args binding document commit entities (.ok ()) prepared written registers

theorem step_effect [DecidableEq ObjectId] (desk left : Desk gix Trees State) (event : Event ObjectId Value)
    (taken : Step tools desk event left) : Effect tools desk event left := by
  have nothing : Advances tools desk desk := Keeps.advances tools (fun _ _ read => read) rfl
  cases taken with
  | moved repo refused => exact .still nothing rfl
  | collected trees spared => exact .still (fun name => .inl ⟨rfl, spared name⟩) rfl
  | ran invocation command outcome done =>
    obtain rfl := congrArg Prod.fst done
    obtain rfl := congrArg Prod.snd done
    cases command with
    | kinds | id | list | «show» => exact .still nothing rfl
    | create args =>
      obtain ⟨keeps, registry, entities⟩ := cmdCreate_keeps tools desk invocation args
      exact .still (keeps.advances tools registry) entities
    | inject args => exact inject_effect tools desk invocation args
    | remove kind names => exact .removed invocation kind names _

theorem step_advances [DecidableEq ObjectId] (desk left : Desk gix Trees State) (event : Event ObjectId Value)
    (taken : Step tools desk event left) : Advances tools desk left := by
  cases step_effect tools desk left event taken with
  | still advances same => exact advances
  | wrote invocation args binding document commit entities registered prepared written registers =>
    exact registers.advances tools
  | removed => exact Keeps.advances tools (fun _ _ read => read) rfl

end GitAnchor.Anchoring
