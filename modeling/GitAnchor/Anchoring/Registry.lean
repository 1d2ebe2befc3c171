import GitAnchor.Foundation.Text
import GitAnchor.Attest.Digest
import GitAnchor.Anchoring.Session

/-! What holds across sessions at the command line: what the registry leads to, how every
entity came to be there, and what a printed name or handle stands for later. -/

namespace GitAnchor.Anchoring
open GitAnchor.Foundation GitAnchor.Substrate Text

variable {Kind ObjectId Trees State Builder Value : Type} {size : Kind → Nat} {gix : Gix ObjectId}
variable (tools : Tools gix size Trees State Builder Value) [DecidableEq Kind]

/-- Every ref of the registry leads to a position, of the anchor id that it is named for. -/
def Resolves (desk : Desk gix Trees State) : Prop :=
  ∀ name handle, desk.registry name = some handle → ∃ anchor,
    tools.codec.deserialize desk.trees handle = .ok (.position anchor) ∧ name = registryRef gix (anchor.id tools.normalForm)

omit [DecidableEq Kind] in
theorem Resolves.advances {desk left : Desk gix Trees State} (resolves : Resolves tools desk)
    (advances : Advances tools desk left) : Resolves tools left := by
  intro name handle led
  rcases advances name with ⟨kept, reads⟩ | ⟨anchor, next, named, led', read⟩
  · have before := kept.symm.trans led
    obtain ⟨anchor, read, named⟩ := resolves name handle before
    exact ⟨anchor, reads handle before _ read, named⟩
  · obtain rfl := Option.some.inj (led'.symm.trans led)
    exact ⟨anchor, read, named⟩

/-- Through commands that fail halfway, moves of the repository and collections, every ref of
the registry leads to a position of the anchor id it is named for, and none is ever lost. -/
theorem registry_resolves [DecidableEq ObjectId] (origin desk : Desk gix Trees State)
    (trace : List (Desk gix Trees State × Event ObjectId Value)) (run : Run (· = origin) (Step tools) trace desk)
    (sound : Resolves tools origin) :
    Resolves tools desk ∧ ∀ binding, Registered tools origin binding → Registered tools desk binding := by
  apply run.invariant
  · rintro s rfl
    exact ⟨sound, fun _ registered => registered⟩
  · intro s event t before taken
    have advances := step_advances tools s t event taken
    exact ⟨Resolves.advances tools before.1 advances,
      fun binding registered => (before.2 binding registered).advances tools advances⟩

omit [DecidableEq Kind] in
/-- A removal changes no document: it leaves an entity, or takes one that it names. -/
theorem deleteEach_held (s : State) (kind : RefSegment) (names : List RefPath) (other : RefSegment) (entity : RefPath) :
    tools.store.held (deleteEach tools.store.toEntityStore s kind names).2 other entity = tools.store.held s other entity ∨
      (other = kind ∧ entity ∈ names ∧
        tools.store.held (deleteEach tools.store.toEntityStore s kind names).2 other entity = none) := by
  induction names generalizing s with
  | nil => exact .inl rfl
  | cons name rest ih =>
    rw [deleteEach]
    split
    · exact .inl rfl
    · next t deleted =>
      rcases ih t with same | ⟨here, later, gone⟩
      · rcases tools.store.deleted_held s t kind name _ deleted other entity with kept | ⟨here, first, gone⟩
        · exact .inl (same.trans kept)
        · exact .inr ⟨here, first ▸ List.mem_cons_self, same.trans gone⟩
      · exact .inr ⟨here, List.mem_cons_of_mem _ later, gone⟩
    · next result t _ missed =>
      rcases tools.store.deleted_held s t kind name _ missed other entity with kept | ⟨here, first, gone⟩
      · exact .inl kept
      · exact .inr ⟨here, first ▸ List.mem_cons_self, gone⟩

omit [DecidableEq Kind] in
theorem cmdRemove_held (s : State) (kind : RefSegment) (names : List RefPath) (other : RefSegment) (entity : RefPath) :
    tools.store.held (cmdRemove tools.store.toEntityStore s kind names).2 other entity = tools.store.held s other entity ∨
      (other = kind ∧ entity ∈ names ∧
        tools.store.held (cmdRemove tools.store.toEntityStore s kind names).2 other entity = none) := by
  unfold cmdRemove
  split
  · exact .inl rfl
  · exact deleteEach_held tools s kind names other entity

/-- What an injection made of the binding that its handle names. -/
structure Injected (desk : Desk gix Trees State) (args : InjectArgs ObjectId) (binding : Binding ObjectId)
    (name : RefPath) (document : Value) : Prop where
  read : tools.codec.deserialize desk.trees args.anchor = .ok binding
  grouped : ∃ commit, name = tools.store.entityNameUnder (gix.hex (binding.anchorId tools.normalForm)) commit
  filled : ∃ schema fields field given, tools.store.schema desk.entities args.kind = .ok (some schema) ∧
    structFields schema = .ok fields ∧ bindingField tools.canonical schema = .ok field ∧
    Gives tools.docs tools.string schema fields field args given ∧
    Filled tools.docs schema fields field binding given document

theorem prepare_ok (desk : Desk gix Trees State) (args : InjectArgs ObjectId) (binding : Binding ObjectId)
    (document : Value) (prepared : prepare tools desk args = .ok (binding, document)) (commit : ObjectId) :
    Injected tools desk args binding
      (tools.store.entityNameUnder (gix.hex (binding.anchorId tools.normalForm)) commit) document := by
  unfold prepare at prepared
  obtain ⟨published, looked, prepared⟩ := Result.bind_eq_ok.mp prepared
  cases published with
  | none => cases prepared
  | some schema =>
    simp only [Result.bind_eq_ok, Result.mapError_eq_ok, Result.pure_eq_ok, Prod.mk.injEq] at looked prepared
    obtain ⟨field, found, fields, listed, read, decoded, made, written, rfl, rfl⟩ := prepared
    obtain ⟨given, gives, filled⟩ := injected_filled tools.docs tools.string schema fields field args read made written
    exact ⟨decoded, ⟨commit, rfl⟩, schema, fields, field, given, looked, listed, found, gives, filled⟩

/-- A command of the session wrote the entity. Where it reported success, it printed the
entity's name, and the registry leads to the position that it is about. -/
def Accounted (trace : List (Desk gix Trees State × Event ObjectId Value)) (desk : Desk gix Trees State)
    (kind : RefSegment) (name : RefPath) (document : Value) : Prop :=
  ∃ s invocation args outcome binding, (s, .ran invocation (.inject args) outcome) ∈ trace ∧ args.kind = kind ∧
    Injected tools s args binding name document ∧
    (∀ printed, outcome = .ok (.entity printed) → printed = name ∧
      ∀ anchor, binding = .position anchor → Registered tools desk binding)

theorem Accounted.older {trace : List (Desk gix Trees State × Event ObjectId Value)} {s t : Desk gix Trees State}
    {event : Event ObjectId Value} {kind : RefSegment} {name : RefPath} {document : Value}
    (accounted : Accounted tools trace s kind name document) (advances : Advances tools s t) :
    Accounted tools ((s, event) :: trace) t kind name document := by
  obtain ⟨u, invocation, args, outcome, binding, member, same, injected, registered⟩ := accounted
  refine ⟨u, invocation, args, outcome, binding, List.mem_cons_of_mem _ member, same, injected, ?_⟩
  intro printed ok
  obtain ⟨named, led⟩ := registered printed ok
  exact ⟨named, fun anchor position => (led anchor position).advances tools advances⟩

/-- An entity that is there was there from the start, or was injected: its group is the anchor
id of its binding, and where the command reported success the registry leads to a position. -/
theorem entities_accounted [DecidableEq ObjectId] (origin desk : Desk gix Trees State)
    (trace : List (Desk gix Trees State × Event ObjectId Value)) (run : Run (· = origin) (Step tools) trace desk)
    (kind : RefSegment) (name : RefPath) (document : Value)
    (there : tools.store.held desk.entities kind name = some document) :
    tools.store.held origin.entities kind name = some document ∨ Accounted tools trace desk kind name document := by
  induction run with
  | start initial => exact .inl (initial ▸ there)
  | @next trace s t event run taken ih =>
    have older (before : tools.store.held s.entities kind name = some document) :
        tools.store.held origin.entities kind name = some document ∨ Accounted tools ((s, event) :: trace) t kind name document :=
      (ih before).imp_right (fun accounted => accounted.older tools (step_advances tools s t event taken))
    cases step_effect tools s t event taken with
    | still advances same => exact older (same ▸ there)
    | removed invocation kind' names outcome =>
      rcases cmdRemove_held tools s.entities kind' names kind name with same | ⟨_, _, gone⟩
      · exact older (same ▸ there)
      · exact nomatch gone.symm.trans there
    | wrote invocation args binding written commit entities registered prepared wrote registers =>
      rw [registers.entities_eq] at there
      dsimp only at there
      by_cases own : kind = args.kind ∧ name = tools.store.entityNameUnder (gix.hex (binding.anchorId tools.normalForm)) commit
      · obtain ⟨rfl, rfl⟩ := own
        obtain rfl := Option.some.inj (there.symm.trans (tools.store.written_self wrote))
        refine .inr ⟨s, invocation, args, _, binding, List.mem_cons_self, rfl, prepare_ok tools s args binding document prepared commit, ?_⟩
        intro printed ok
        cases registered with
        | error failure => cases ok
        | ok done =>
          refine ⟨?_, ?_⟩
          · cases ok
            rfl
          · rintro anchor rfl
            exact registers.registered
      · exact older ((tools.store.written_other wrote own).symm.trans there)

/-! What a command has printed. -/

/-- The event removes an entity, or tries to. -/
def Event.Removes (kind : RefSegment) (name : RefPath) : Event ObjectId Value → Prop
  | .ran _ (.remove removed names) _ => removed = kind ∧ name ∈ names
  | _ => False

omit [DecidableEq Kind] in
/-- A document of the kind that an injection wrote, under a name with its commit in it. -/
def Committed (kind : RefSegment) (name : RefPath) (document : Value) : Prop :=
  ∃ s t group commit, name = tools.store.entityNameUnder group commit ∧
    tools.store.writeAnonymousUnder s kind document (kind ++ " " ++ group) group = .ok (commit, t)

theorem cmdInject_ok (desk left : Desk gix Trees State) (args : InjectArgs ObjectId) (name : RefPath)
    (ok : cmdInject tools desk args = (.ok name, left)) :
    ∃ binding document, Injected tools desk args binding name document ∧ Committed tools args.kind name document ∧
      tools.store.held left.entities args.kind name = some document := by
  unfold cmdInject at ok
  split at ok
  · cases ok
  · next binding document prepared =>
    dsimp only at ok
    split at ok
    · cases ok
    · next commit entities written =>
      have registers := register_registers tools { desk with entities := entities } binding
      split at ok
      · cases ok
      · next registered ended =>
        rw [ended] at registers
        obtain ⟨same, rfl⟩ := Prod.mk.inj ok
        obtain rfl := Except.ok.inj same
        refine ⟨binding, document, prepare_ok tools desk args binding document prepared commit,
          ⟨_, _, _, commit, rfl, written⟩, ?_⟩
        rw [registers.entities_eq]
        exact tools.store.written_self written

theorem ran_inject [DecidableEq ObjectId] (desk left : Desk gix Trees State) (invocation : Invocation)
    (args : InjectArgs ObjectId) (name : RefPath)
    (taken : Step tools desk (.ran invocation (.inject args) (.ok (.entity name))) left) :
    cmdInject tools desk args = (.ok name, left) := by
  cases taken with
  | ran _ _ _ done =>
    cases ended : cmdInject tools desk args with
    | mk outcome after =>
      simp only [execute, ended, Prod.mk.injEq] at done
      obtain ⟨printed, rfl⟩ := done
      cases outcome with
      | error failure => cases printed
      | ok named =>
        cases printed
        rfl

/-- An entity keeps its document through everything but a removal that names it. -/
theorem step_held [DecidableEq ObjectId] (desk left : Desk gix Trees State) (event : Event ObjectId Value)
    (taken : Step tools desk event left) (kind : RefSegment) (name : RefPath) (document : Value)
    (committed : Committed tools kind name document) (spared : ¬ event.Removes kind name)
    (there : tools.store.held desk.entities kind name = some document) :
    tools.store.held left.entities kind name = some document := by
  cases step_effect tools desk left event taken with
  | still advances same => rw [same, there]
  | removed invocation removed names outcome =>
    rcases cmdRemove_held tools desk.entities removed names kind name with same | ⟨here, named, _⟩
    · exact same.trans there
    · exact absurd ⟨here.symm, named⟩ spared
  | wrote invocation args binding other commit entities registered prepared written registers =>
    rw [registers.entities_eq]
    by_cases own : kind = args.kind ∧ name = tools.store.entityNameUnder (gix.hex (binding.anchorId tools.normalForm)) commit
    · -- the very commit again, and so the very document
      obtain ⟨s, t, _, first, named, before⟩ := committed
      obtain ⟨rfl, rfl⟩ := own
      obtain ⟨rfl, rfl⟩ := tools.store.entityNameUnder_inj _ _ _ _ named
      rw [tools.store.commit_value _ _ _ _ _ _ _ _ _ _ before written]
      exact tools.store.written_self written
    · exact (tools.store.written_other written own).trans there

/-- What an injection printed names the entity that it wrote, with all that it held, until a
removal names it. -/
theorem printed_entity_kept [DecidableEq ObjectId] (origin s desk : Desk gix Trees State) (invocation : Invocation)
    (args : InjectArgs ObjectId) (name : RefPath) (earlier later : List (Desk gix Trees State × Event ObjectId Value))
    (run : Run (· = origin) (Step tools) (later ++ (s, .ran invocation (.inject args) (.ok (.entity name))) :: earlier) desk)
    (unremoved : ∀ taken ∈ later, ¬ taken.2.Removes args.kind name) :
    ∃ binding document, Injected tools s args binding name document ∧
      ∀ found, tools.store.read desk.entities args.kind name = .ok found → found = some document := by
  obtain ⟨t, taken, after⟩ := run.split
  obtain ⟨binding, document, injected, committed, wrote⟩ :=
    cmdInject_ok tools s t args name (ran_inject tools s t invocation args name taken)
  refine ⟨binding, document, injected, ?_⟩
  have held : tools.store.held desk.entities args.kind name = some document := by
    refine @Run.guarded _ _ _ _ (fun _ event => ¬ event.Removes args.kind name)
      (fun desk => tools.store.held desk.entities args.kind name = some document) ?_ ?_ _ _ after unremoved
    · rintro start rfl
      exact wrote
    · exact fun before event left there spared step =>
        step_held tools before left event step args.kind name document committed spared there
  intro found read
  exact (tools.store.read_held _ _ _ _ read).trans held

omit [DecidableEq Kind] in
theorem Registers.keeps {desk left : Desk gix Trees State} {binding : Binding ObjectId}
    {outcome : Except String Unit} (registers : Registers tools desk binding outcome left) : Keeps tools desk left := by
  cases registers with
  | unplaced => exact fun _ _ read => read
  | failed failure trees keeps => exact keeps
  | led anchor position handle trees wrote => exact tools.codec.kept desk.trees binding handle trees wrote

theorem cmdInject_keeps (desk : Desk gix Trees State) (args : InjectArgs ObjectId) :
    Keeps tools desk (cmdInject tools desk args).2 := by
  unfold cmdInject
  split
  · exact fun _ _ read => read
  · next binding document _ =>
    dsimp only
    split
    · exact fun _ _ read => read
    · next commit entities _ =>
      have registers := register_registers tools { desk with entities := entities } binding
      split
      · next failure left ended =>
        rw [ended] at registers
        exact registers.keeps tools
      · next left ended =>
        rw [ended] at registers
        exact registers.keeps tools

/-- Only a collection loses objects. -/
theorem step_keeps [DecidableEq ObjectId] (desk left : Desk gix Trees State) (event : Event ObjectId Value)
    (taken : Step tools desk event left) (spared : event ≠ .collected) : Keeps tools desk left := by
  cases taken with
  | moved => exact fun _ _ read => read
  | collected => exact absurd rfl spared
  | ran invocation command outcome done =>
    obtain rfl := congrArg Prod.snd done
    cases command with
    | create args => exact (cmdCreate_keeps tools desk invocation args).1
    | inject args => exact cmdInject_keeps tools desk args
    | _ => exact fun _ _ read => read

omit [DecidableEq Kind] in
theorem cmdCreate_ok [DecidableEq ObjectId] (desk left : Desk gix Trees State) (invocation : Invocation)
    (args : CreateArgs) (handle : ObjectId) (ok : cmdCreate tools desk invocation args = (.ok handle, left)) :
    ∃ binding repo, buildBinding desk.repo invocation args.revision args.path args.lines args.worktree = .ok (binding, repo) ∧
      tools.codec.deserialize left.trees handle = .ok binding := by
  unfold cmdCreate at ok
  split at ok
  · cases ok
  · next binding repo built =>
    split at ok
    · cases ok
    · next named trees wrote =>
      cases ok
      exact ⟨binding, repo, built, tools.codec.serialized desk.trees binding handle trees wrote⟩

theorem ran_create [DecidableEq ObjectId] (desk left : Desk gix Trees State) (invocation : Invocation) (args : CreateArgs)
    (handle : ObjectId) (taken : Step tools desk (.ran invocation (.create args) (.ok (.handle handle))) left) :
    cmdCreate tools desk invocation args = (.ok handle, left) := by
  cases taken with
  | ran _ _ _ done =>
    cases ended : cmdCreate tools desk invocation args with
    | mk outcome after =>
      simp only [execute, ended, Prod.mk.injEq] at done
      obtain ⟨printed, rfl⟩ := done
      cases outcome with
      | error failure => cases printed
      | ok named =>
        cases printed
        rfl

/-- Wherever the handle can be read, it has the anchor id of the binding, and entities are put
under that. -/
structure StandsFor (desk : Desk gix Trees State) (handle : ObjectId) (binding : Binding ObjectId) : Prop where
  identified : ∀ id, cmdId tools desk handle = .ok id → id = binding.anchorId tools.normalForm
  grouped : ∀ left name args, args.anchor = handle → cmdInject tools desk args = (.ok name, left) →
    ∃ commit, name = tools.store.entityNameUnder (gix.hex (binding.anchorId tools.normalForm)) commit

/-- A capture handle stands for the binding that was captured, through everything, and can be
read until objects are collected. -/
theorem handle_names_capture [DecidableEq ObjectId] (origin s desk : Desk gix Trees State) (invocation : Invocation)
    (args : CreateArgs) (handle : ObjectId) (earlier later : List (Desk gix Trees State × Event ObjectId Value))
    (run : Run (· = origin) (Step tools) (later ++ (s, .ran invocation (.create args) (.ok (.handle handle))) :: earlier) desk) :
    ∃ binding repo,
      buildBinding s.repo invocation args.revision args.path args.lines args.worktree = .ok (binding, repo) ∧
      StandsFor tools desk handle binding ∧
      ((∀ taken ∈ later, taken.2 ≠ .collected) → cmdId tools desk handle = .ok (binding.anchorId tools.normalForm)) := by
  obtain ⟨t, taken, after⟩ := run.split
  obtain ⟨binding, repo, built, read⟩ :=
    cmdCreate_ok tools s t invocation args handle (ran_create tools s t invocation args handle taken)
  have kept (spared : ∀ taken ∈ later, taken.2 ≠ .collected) : tools.codec.deserialize desk.trees handle = .ok binding := by
    refine @Run.guarded _ _ _ _ (fun _ event => event ≠ .collected)
      (fun desk => tools.codec.deserialize desk.trees handle = .ok binding) ?_ ?_ _ _ after spared
    · rintro start rfl
      exact read
    · exact fun before event left there kind step => step_keeps tools before left event step kind handle binding there
  refine ⟨binding, repo, built, ⟨?_, ?_⟩, ?_⟩
  · intro id printed
    obtain ⟨found, decoded, same⟩ := Result.bind_eq_ok.mp printed
    rw [← Except.ok.inj same, tools.codec.decodes_once _ _ handle _ _ read (Result.mapError_eq_ok.mp decoded)]
  · rintro left name injection rfl injected
    obtain ⟨_, _, wrote, _⟩ := cmdInject_ok tools desk left injection name injected
    rw [tools.codec.decodes_once _ _ _ _ _ read wrote.read]
    exact wrote.grouped
  · intro spared
    rw [cmdId, kept spared]
    rfl

section Sample
open GitAnchor.Attest (Digest)

/-- The bytes that a digest of bytes was made of. -/
def bytesOf : Digest → Option Bytes
  | .nat 0 => some []
  | .pair (.nat byte) rest => (bytesOf rest).map (fun bytes => UInt8.ofNat byte :: bytes)
  | _ => none

theorem bytesOf_ofBytes (bytes : Bytes) : bytesOf (Digest.ofBytes bytes) = some bytes := by
  induction bytes with
  | nil => rfl
  | cons byte rest ih =>
    have folded : Digest.ofBytes (byte :: rest) = .pair (.nat byte.toNat) (Digest.ofBytes rest) := rfl
    rw [folded, bytesOf, ih]
    simp

/-- One commit of an empty tree, which `HEAD` names. -/
def bareGix : Gix Digest :=
  { hex := fun digest => String.ofList digest.spell
    rootTree := fun id => if id = .str "commit" then some (.str "tree") else none
    entryAt := fun _ _ => none
    content := fun id => (bytesOf id).bind (fun bytes => if fits : bytes.length ≤ ISIZE_MAX then some ⟨bytes, fits⟩ else none)
    blobId := fun data => Digest.ofBytes data.bytes
    changes := fun _ _ => []
    hunks := trimmedHunks
    content_blobId := by
      intro data
      rw [bytesOf_ofBytes]
      exact dif_pos data.fits
    hunks_script := trimmedHunks_script
    changes_entry := fun _ _ _ none => nomatch none }

def bareRepository : Repository bareGix :=
  { revParseSingle := fun revision => if revision = "HEAD" then some (.str "commit") else none
    hasObject := fun id => decide (id = .str "commit" ∨ id = .str "tree")
    peelToCommit := fun id => if id = .str "commit" then some (.str "commit") else none
    tree := fun id => if id = .str "commit" then .ok (.str "tree") else .error "not a commit"
    lookupEntryByPath := fun _ _ => .ok none
    findBlob := fun _ => .error "not found"
    diffTreeToTree := fun _ _ => .ok []
    readOnly := none
    workdir := none
    peel_commit := by
      intro id commit peeled
      split at peeled
      · rw [← Option.some.inj peeled]
        rfl
      · cases peeled
    peel_self := by
      intro id commit peeled _
      split at peeled
      · next same => rw [← Option.some.inj peeled, same]
      · cases peeled
    tree_rootTree := by
      intro commit root read
      split at read
      · next same => rw [← Except.ok.inj read, same]; rfl
      · cases read
    lookup_entryAt := fun _ _ _ read => (Except.ok.inj read).symm
    findBlob_content := nofun
    diff_changes := fun _ _ _ read => (Except.ok.inj read).symm }

/-- The tree of a commit binding, or of a position without hints. -/
def treeOfBinding : Binding Digest → Option Digest
  | .commit identity _ => some (.pair (.nat 0) identity.commit)
  | .position ⟨⟨commit, path, ⟨start, stop⟩⟩, ⟨[], []⟩⟩ =>
      some (.pair (.nat 1) (.pair commit (.pair (.str path) (.pair (.nat start) (.nat stop)))))
  | _ => none

def bindingOfTree : Digest → Option (Binding Digest)
  | .pair (.nat 0) commit => some (.commit ⟨commit⟩ ⟨⟩)
  | .pair (.nat 1) (.pair commit (.pair (.str path) (.pair (.nat start) (.nat stop)))) =>
      some (.position ⟨⟨commit, path, ⟨start, stop⟩⟩, ⟨[], []⟩⟩)
  | _ => none

theorem bindingOfTree_of (binding : Binding Digest) (tree : Digest) (written : treeOfBinding binding = some tree) :
    bindingOfTree tree = some binding := by
  unfold treeOfBinding at written
  split at written <;> cases written <;> rfl

/-- An object database as the ids that it has. -/
def bareCodec : BindingCodec Digest (Digest → Bool) :=
  { serializeInto := fun trees binding =>
      match treeOfBinding binding with
      | some tree => .ok (tree, Function.update trees tree true)
      | none => .error "not supported"
    deserialize := fun trees handle =>
      if trees handle then
        match bindingOfTree handle with
        | some binding => .ok binding
        | none => .error "not a binding"
      else .error "not found"
    serialized := by
      intro trees binding handle left wrote
      split at wrote
      · next tree written =>
        cases wrote
        rw [Function.update_self, if_pos rfl, bindingOfTree_of binding _ written]
      · cases wrote
    kept := by
      intro trees binding handle left wrote other found read
      split at wrote
      · next tree written =>
        cases wrote
        by_cases same : other = handle
        · rw [same, Function.update_self]
          split at read
          · rw [same] at read
            exact read
          · cases read
        · rw [Function.update_of_ne same]
          exact read
      · cases wrote
    decodes_once := by
      intro trees trees' handle one other read read'
      split at read
      · split at read'
        · exact Except.ok.inj (read.symm.trans read')
        · cases read'
      · cases read }

/-- The commit of a note that has a title and no remark. -/
def commitOfNote : SampleValue Digest → Option Digest
  | .object [("binding", .binding binding), ("title", .text title), ("remark", .null)] =>
      (treeOfBinding binding).map (fun tree => .pair tree (.str title))
  | _ => none

theorem commitOfNote_inj (one other : SampleValue Digest) (commit : Digest) (first : commitOfNote one = some commit)
    (second : commitOfNote other = some commit) : one = other := by
  unfold commitOfNote at first second
  split at first
  · next binding title =>
    split at second
    · next binding' title' =>
      obtain ⟨tree, wrote, same⟩ := Option.map_eq_some_iff.mp first
      obtain ⟨tree', wrote', same'⟩ := Option.map_eq_some_iff.mp second
      obtain ⟨rfl, texts⟩ := Digest.pair.inj (same.trans same'.symm)
      have bindings := (bindingOfTree_of binding tree wrote).symm.trans (bindingOfTree_of binding' tree wrote')
      rw [Option.some.inj bindings, Digest.str.inj texts]
    · cases second
  · cases first

def nameUnder (group : RefPath) (commit : Digest) : RefPath :=
  String.ofList (group.toList ++ '/' :: commit.spell)

theorem cut_nameUnder (group : RefPath) (commit : Digest) :
    cutLast '/' (group.toList ++ '/' :: commit.spell) = some (group.toList, commit.spell) :=
  (cutLast_eq_some _ _ _ _).mpr ⟨rfl, commit.slash_not_mem_spell⟩

/-- Notes, under a name with their commit in it. -/
def noteStore : KindStore SampleKind.nodes Digest (RefSegment → RefPath → Option (SampleValue Digest)) (SampleValue Digest) :=
  { read := fun s kind name => .ok (s kind name)
    deleteName := fun s kind name => match s kind name with
      | some _ => .ok (.deleted, Function.update s kind (Function.update (s kind) name none))
      | none => .ok (.absent, s)
    live := fun s kind => {name | (s kind name).isSome}
    kinds := fun _ => .ok ["note"]
    schema := fun _ kind => .ok (if kind = "note" then some noteSchema else none)
    list := fun _ _ => .error "not listed"
    writeAnonymousUnder := fun s kind value _ group => match commitOfNote value with
      | some commit => .ok (commit, Function.update s kind (Function.update (s kind) (nameUnder group commit) (some value)))
      | none => .error "not supported"
    entityNameUnder := nameUnder
    held := fun s => s
    read_live := by
      intro s kind name found read
      rw [← Except.ok.inj read]
      rfl
    deleted_live := by
      intro s t kind name deleted
      split at deleted
      · next value here =>
        cases deleted
        refine ⟨by rw [Set.mem_ofPred_eq, here]; rfl, ?_⟩
        ext other
        by_cases same : other = name <;> simp [same]
      · cases deleted
    missing_live := by
      intro s t kind name result missed other
      split at missed
      · cases missed
        exact absurd rfl other
      · next gone =>
        cases missed
        exact ⟨by rw [Set.mem_ofPred_eq, gone]; exact Bool.false_ne_true, rfl⟩
    read_held := fun _ _ _ _ read => (Except.ok.inj read).symm
    written_held := by
      intro s t kind value message group commit written
      split at written
      · cases written
        rfl
      · cases written
    deleted_held := by
      intro s t kind name result deleted other entity
      split at deleted
      · cases deleted
        by_cases kinds : other = kind
        · subst kinds
          by_cases names : entity = name
          · exact .inr ⟨rfl, names, by rw [names, Function.update_self, Function.update_self]⟩
          · exact .inl (by rw [Function.update_self, Function.update_of_ne names])
        · exact .inl (by rw [Function.update_of_ne kinds])
      · cases deleted
        exact .inl rfl
    entityNameUnder_inj := by
      intro group group' commit commit' same
      have letters := String.ofList_injective same
      have cuts := cut_nameUnder group commit
      rw [letters, cut_nameUnder] at cuts
      obtain ⟨groups, commits⟩ := Prod.mk.inj (Option.some.inj cuts)
      exact ⟨String.toList_inj.mp groups.symm, Digest.spell_injective commits.symm⟩
    commit_value := by
      intro s t s' t' kind value value' message group commit written written'
      split at written
      · next first =>
        split at written'
        · next second =>
          cases written
          cases written'
          exact commitOfNote_inj value value' _ first second
        · cases written'
      · cases written }

def noteTools : Tools bareGix SampleKind.nodes (Digest → Bool) (RefSegment → RefPath → Option (SampleValue Digest))
    (List (String × SampleValue Digest)) (SampleValue Digest) :=
  { codec := bareCodec
    store := noteStore
    docs := sampleDocuments Digest
    normalForm := ⟨Digest.ofNormalForm, fun one other same => Digest.ofNormalForm_inj one other same⟩
    string := .string
    canonical := bindingSchema
    refPath := .ok
    hex_injective := fun _ _ same => Digest.spell_injective (String.ofList_injective same) }

abbrev NoteDesk := Desk bareGix (Digest → Bool) (RefSegment → RefPath → Option (SampleValue Digest))

/-- A repository without entities, that has the tree of one position. -/
def bareDesk : NoteDesk :=
  { repo := bareRepository
    trees := fun id => decide (id = .pair (.nat 1) (.pair (.str "commit") (.pair (.str "file.txt") (.pair (.nat 0) (.nat 2)))))
    entities := fun _ _ => none
    registry := fun _ => none
    refused := fun _ => none }

/-- The handles of the position and of the commit. -/
def positionHandle : Digest := .pair (.nat 1) (.pair (.str "commit") (.pair (.str "file.txt") (.pair (.nat 0) (.nat 2))))
def commitHandle : Digest := .pair (.nat 0) (.str "commit")

def filePosition : Anchor Digest := ⟨⟨.str "commit", "file.txt", ⟨0, 2⟩⟩, ⟨[], []⟩⟩

def noteOnPosition : InjectArgs Digest := ⟨"note", some "t", positionHandle, none⟩
def remarkOnPosition : InjectArgs Digest := ⟨"note", some "u", positionHandle, none⟩
def noteOnCommit : InjectArgs Digest := ⟨"note", some "t", commitHandle, none⟩
def headCapture : CreateArgs := ⟨none, none, none, false⟩

/-- The name of a note on the position. -/
def noteName (title : String) : RefPath :=
  nameUnder (bareGix.hex (filePosition.id noteTools.normalForm)) (.pair positionHandle (.str title))

theorem noteName_ne : noteName "t" ≠ noteName "u" := by
  intro same
  obtain ⟨_, commits⟩ := noteStore.entityNameUnder_inj _ _ _ _ same
  exact absurd commits (by decide)

/-- An injection whose document has a commit is named so, and registers its position. -/
theorem note_injected (desk : NoteDesk)
    (args : InjectArgs Digest) (anchor : Anchor Digest) (commit : Digest)
    (read : noteTools.codec.deserialize desk.trees args.anchor = .ok (.position anchor))
    (commits : (prepare noteTools desk args).toOption.bind (fun made => commitOfNote made.2) = some commit)
    (succeeds : (cmdInject noteTools desk args).1.toBool = true) :
    Step noteTools desk (.ran atRoot (.inject args)
        (.ok (.entity (nameUnder (bareGix.hex (anchor.id noteTools.normalForm)) commit))))
      (execute noteTools desk atRoot (.inject args)).2 ∧
    Registered noteTools (execute noteTools desk atRoot (.inject args)).2 (.position anchor) := by
  cases prepared : prepare noteTools desk args with
  | error failure =>
    rw [prepared] at commits
    cases commits
  | ok made =>
    obtain ⟨binding, document⟩ := made
    obtain rfl := Except.ok.inj (read.symm.trans (prepare_ok noteTools desk args binding document prepared commit).read)
    rw [prepared] at commits
    have named : commitOfNote document = some commit := commits
    have written : ∃ entities, noteTools.store.writeAnonymousUnder desk.entities args.kind document
        (args.kind ++ " " ++ bareGix.hex ((Binding.position anchor).anchorId noteTools.normalForm))
        (bareGix.hex ((Binding.position anchor).anchorId noteTools.normalForm)) = .ok (commit, entities) := by
      simp only [noteTools, noteStore, named, Except.ok.injEq, Prod.mk.injEq, true_and, exists_eq']
    obtain ⟨entities, written⟩ := written
    simp only [cmdInject, prepared, written] at succeeds
    have registers := register_registers noteTools { desk with entities := entities } (.position anchor)
    split at succeeds
    · cases succeeds
    · next left ended =>
      rw [ended] at registers
      have ran : cmdInject noteTools desk args =
          (.ok (nameUnder (bareGix.hex (anchor.id noteTools.normalForm)) commit), left) := by
        simp only [cmdInject, prepared, written, ended]
        rfl
      have after : (execute noteTools desk atRoot (.inject args)).2 = left := by simp only [execute, ran]
      rw [after]
      exact ⟨.ran _ _ _ (by simp only [execute, ran]; rfl), registers.registered⟩

/-- A binding that is no position leaves the registry as it is. -/
theorem unplaced_registry (desk : NoteDesk)
    (args : InjectArgs Digest) (identity : CommitIdentity Digest) (hints : NoHints)
    (read : noteTools.codec.deserialize desk.trees args.anchor = .ok (.commit identity hints)) :
    (cmdInject noteTools desk args).2.registry = desk.registry := by
  unfold cmdInject
  split
  · rfl
  · next binding document prepared =>
    have same := (prepare_ok noteTools desk args binding document prepared args.anchor).read
    obtain rfl := Except.ok.inj (read.symm.trans same)
    dsimp only
    split <;> rfl

theorem removed_held (desk : NoteDesk) (kind : RefSegment) (name : RefPath) :
    noteTools.store.held (execute noteTools desk atRoot (.remove kind [name])).2.entities kind name = none := by
  cases here : desk.entities kind name <;> simp [execute, cmdRemove, confirmAll, deleteEach, noteTools, noteStore, here]

/-- A collection of all bindings but positions. -/
def positionsOnly (trees : Digest → Bool) (id : Digest) : Bool :=
  trees id && match bindingOfTree id with
    | some (.position _) => true
    | _ => false

theorem collect_step (desk : NoteDesk)
    (resolves : Resolves noteTools desk) :
    Step noteTools desk .collected { desk with trees := positionsOnly desk.trees } := by
  apply Step.collected
  intro name handle led binding read
  obtain ⟨anchor, position, _⟩ := resolves name handle led
  have kept : positionsOnly desk.trees handle = desk.trees handle := by
    change bareCodec.deserialize desk.trees handle = _ at position
    simp only [bareCodec] at position
    split at position
    · split at position
      · next there _ found =>
        obtain rfl := Except.ok.inj position
        simp only [positionsOnly, found, Bool.and_true]
      · cases position
    · cases position
  change bareCodec.deserialize _ handle = _
  simp only [bareCodec, kept]
  exact read

/-! A note and a remark on the position, and the commit captured; then the repository is left
without `HEAD` and with a registry that cannot be written, the commit is collected, and the
remark removed. -/

def notedDesk : NoteDesk :=
  (execute noteTools bareDesk atRoot (.inject noteOnPosition)).2
def remarkedDesk : NoteDesk :=
  (execute noteTools notedDesk atRoot (.inject remarkOnPosition)).2
def recapturedDesk : NoteDesk :=
  (execute noteTools remarkedDesk atRoot (.create headCapture)).2
def movedDesk : NoteDesk :=
  { recapturedDesk with
    repo := { bareRepository with revParseSingle := fun _ => none }
    refused := fun _ => some "locked" }
def collectedDesk : NoteDesk :=
  { movedDesk with trees := positionsOnly movedDesk.trees }
def clearedDesk : NoteDesk :=
  (execute noteTools collectedDesk atRoot (.remove "note" [noteName "u"])).2

theorem noted_step :
    Step noteTools bareDesk (.ran atRoot (.inject noteOnPosition) (.ok (.entity (noteName "t")))) notedDesk ∧
      Registered noteTools notedDesk (.position filePosition) :=
  note_injected bareDesk noteOnPosition filePosition (.pair positionHandle (.str "t")) rfl (by decide +kernel) (by decide +kernel)

theorem remarked_step :
    Step noteTools notedDesk (.ran atRoot (.inject remarkOnPosition) (.ok (.entity (noteName "u")))) remarkedDesk := by
  have read : noteTools.codec.deserialize notedDesk.trees positionHandle = .ok (.position filePosition) :=
    step_keeps noteTools bareDesk notedDesk _ noted_step.1 nofun positionHandle _ rfl
  exact (note_injected notedDesk remarkOnPosition filePosition (.pair positionHandle (.str "u")) read
    (by decide +kernel) (by decide +kernel)).1

theorem notedDesk_resolves : Resolves noteTools notedDesk :=
  Resolves.advances noteTools (show Resolves noteTools bareDesk from nofun) (step_advances noteTools _ _ _ noted_step.1)

theorem movedDesk_resolves : Resolves noteTools movedDesk := by
  have remarked := Resolves.advances noteTools notedDesk_resolves (step_advances noteTools _ _ _ remarked_step)
  have captured := Resolves.advances noteTools remarked
    (step_advances noteTools _ recapturedDesk _ (.ran atRoot (.create headCapture) _ rfl))
  exact Resolves.advances noteTools captured (step_advances noteTools _ movedDesk _ (.moved _ _))

/-- What happens after the note. -/
def aftermath : List (NoteDesk ×
    Event Digest (SampleValue Digest)) :=
  [(collectedDesk, .ran atRoot (.remove "note" [noteName "u"])
      (execute noteTools collectedDesk atRoot (.remove "note" [noteName "u"])).1),
    (movedDesk, .collected), (recapturedDesk, .moved),
    (remarkedDesk, .ran atRoot (.create headCapture) (execute noteTools remarkedDesk atRoot (.create headCapture)).1),
    (notedDesk, .ran atRoot (.inject remarkOnPosition) (.ok (.entity (noteName "u"))))]

theorem aftermath_run {Initial : NoteDesk → Prop}
    (earlier : List (NoteDesk ×
      Event Digest (SampleValue Digest)))
    (run : Run Initial (Step noteTools) earlier notedDesk) :
    Run Initial (Step noteTools) (aftermath ++ earlier) clearedDesk :=
  .next (.next (.next (.next (.next run remarked_step) (.ran _ _ _ rfl)) (.moved _ _))
    (collect_step movedDesk movedDesk_resolves)) (.ran _ _ _ rfl)

/-- The position is registered still. -/
theorem registry_resolves_noted :
    Resolves noteTools clearedDesk ∧ Registered noteTools clearedDesk (.position filePosition) := by
  obtain ⟨sound, kept⟩ := registry_resolves noteTools notedDesk clearedDesk (aftermath ++ []) (aftermath_run [] (.start rfl))
    notedDesk_resolves
  exact ⟨sound, kept _ noted_step.2⟩

theorem entities_accounted_noted : ∃ name document,
    noteTools.store.held bareDesk.entities noteOnPosition.kind name = some document ∨
      Accounted noteTools [(bareDesk, .ran atRoot (.inject noteOnPosition) (.ok (.entity name)))] notedDesk
        noteOnPosition.kind name document := by
  have injected := ran_inject noteTools bareDesk notedDesk atRoot noteOnPosition (noteName "t") noted_step.1
  obtain ⟨_, document, _, _, there⟩ := cmdInject_ok noteTools bareDesk notedDesk noteOnPosition (noteName "t") injected
  exact ⟨noteName "t", document, entities_accounted noteTools bareDesk notedDesk _ (.next (.start rfl) noted_step.1)
    noteOnPosition.kind (noteName "t") document there⟩

/-- The remark is removed, and the note is there still. -/
theorem printed_entity_kept_noted : noteTools.store.held clearedDesk.entities "note" (noteName "u") = none ∧
    ∃ binding document, Injected noteTools bareDesk noteOnPosition binding (noteName "t") document ∧
      ∀ found, noteTools.store.read clearedDesk.entities noteOnPosition.kind (noteName "t") = .ok found →
        found = some document := by
  refine ⟨removed_held collectedDesk "note" (noteName "u"), ?_⟩
  have spared : ∀ taken ∈ aftermath, ¬ taken.2.Removes noteOnPosition.kind (noteName "t") := by
    intro taken member removes
    simp only [aftermath, List.mem_cons, List.not_mem_nil, or_false] at member
    rcases member with rfl | rfl | rfl | rfl | rfl
    · exact noteName_ne (List.mem_singleton.mp removes.2)
    all_goals exact removes
  exact printed_entity_kept noteTools bareDesk bareDesk clearedDesk atRoot noteOnPosition (noteName "t") [] aftermath
    (aftermath_run _ (.next (.start rfl) noted_step.1)) spared

/-! The commit captured and a note on it; then the repository is left without `HEAD`, and the
position is collected, which no ref leads to. -/

def capturedDesk : NoteDesk :=
  (cmdCreate noteTools bareDesk atRoot headCapture).2
def inscribedDesk : NoteDesk :=
  (execute noteTools capturedDesk atRoot (.inject noteOnCommit)).2
def headlessDesk : NoteDesk :=
  { inscribedDesk with repo := { bareRepository with revParseSingle := fun _ => none } }
def sweptDesk : NoteDesk :=
  { headlessDesk with trees := fun id => decide (id = commitHandle) }

theorem swept_step : Step noteTools headlessDesk .collected sweptDesk := by
  apply Step.collected
  intro name handle led
  have unled : headlessDesk.registry = fun _ => none := unplaced_registry capturedDesk noteOnCommit ⟨.str "commit"⟩ ⟨⟩ rfl
  rw [unled] at led
  cases led

/-- The handle can be read still, and an injection that names it puts its entity under the commit. -/
theorem handle_names_capture_head : ∃ binding repo,
    buildBinding bareRepository atRoot none none none false = .ok (binding, repo) ∧
    cmdId noteTools sweptDesk commitHandle = .ok (binding.anchorId noteTools.normalForm) ∧
    StandsFor noteTools sweptDesk commitHandle binding ∧
    cmdId noteTools headlessDesk commitHandle = .ok (binding.anchorId noteTools.normalForm) := by
  have captured : Run (· = bareDesk) (Step noteTools)
      [(bareDesk, .ran atRoot (.create headCapture) (.ok (.handle commitHandle)))] capturedDesk :=
    .next (.start rfl) (.ran _ _ _ rfl)
  have inscribed : Step noteTools capturedDesk (.ran atRoot (.inject noteOnCommit)
      (execute noteTools capturedDesk atRoot (.inject noteOnCommit)).1) inscribedDesk := .ran _ _ _ rfl
  have moved : Step noteTools inscribedDesk .moved headlessDesk := .moved _ _
  obtain ⟨binding, repo, built, stands, _⟩ := handle_names_capture noteTools bareDesk bareDesk sweptDesk atRoot
    headCapture commitHandle [] [_, _, _] (.next (.next (.next captured inscribed) moved) swept_step)
  obtain ⟨binding', repo', built', _, read⟩ := handle_names_capture noteTools bareDesk bareDesk headlessDesk atRoot
    headCapture commitHandle [] [_, _] (.next (.next captured inscribed) moved)
  obtain ⟨rfl, rfl⟩ := Prod.mk.inj (Except.ok.inj (built.symm.trans built'))
  obtain ⟨id, printed⟩ : ∃ id, cmdId noteTools sweptDesk commitHandle = .ok id := ⟨_, rfl⟩
  refine ⟨binding, repo, built, printed.trans (congrArg Except.ok (stands.identified id printed)), stands, read ?_⟩
  intro taken member collected
  rcases List.mem_cons.mp member with rfl | last
  · cases collected
  · rw [List.mem_singleton.mp last] at collected
    cases collected

end Sample

end GitAnchor.Anchoring
