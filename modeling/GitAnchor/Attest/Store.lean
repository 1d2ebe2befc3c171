import GitAnchor.Foundation.ContentStore
import GitAnchor.Foundation.Result
import GitAnchor.Attest.Envelope

/-! The store the claims live in, as `git-store` presents it: an object database of
claim commits and key documents, and one ref per target key. Hashing and commit
serialization are parameters; the compare-and-swap is the one `publish_prepared` performs. -/

namespace GitAnchor.Attest
open GitAnchor.Foundation GitAnchor.Substrate

inductive Document (ObjectId : Type) where
  | envelope (stored : StoredEnvelope ObjectId)
  | other (tree : ObjectId)
  deriving DecidableEq, Repr

/-- A commit object; `committer` stands for the author and committer lines, dates included. -/
structure Commit (ObjectId : Type) where
  document : Document ObjectId
  parents : List ObjectId
  summary : String
  committer : String
  signature : Option Bytes
  deriving DecidableEq, Repr

inductive Object (ObjectId : Type) where
  | commit (value : Commit ObjectId)
  | key (value : AttestKey)
  deriving DecidableEq, Repr

def Object.parents {ObjectId : Type} : Object ObjectId → List ObjectId
  | .commit value => value.parents
  | .key _ => []

/-- Content addressing as git supplies it: object ids without collisions, the raw bytes
of a commit, and the two well-known ids. -/
structure Git (ObjectId : Type) extends NormalFormHash ObjectId where
  objectId : Object ObjectId → ObjectId
  objectId_injective : Function.Injective objectId
  rawCommit : Commit ObjectId → Bytes
  nullId : ObjectId
  emptyTree : ObjectId

inductive StoreError (ObjectId : Type) where
  | backend
  | missing (id : ObjectId)
  | decode (id : ObjectId)
  deriving DecidableEq, Repr

inductive Error (ObjectId : Type) where
  | store (source : StoreError ObjectId)
  | missingClaim (claim : ObjectId)
  | notAClaim (claim : ObjectId)
  | notAKeyClaim (claim : ObjectId) (payloadKind : String)
  | claimOffChain (claim : ObjectId)
  | keyMaterial (reason : String)
  deriving DecidableEq, Repr

abbrev Result (ObjectId : Type) := Except (Error ObjectId)

variable {ObjectId : Type}

def Git.commitId (git : Git ObjectId) (commit : Commit ObjectId) : ObjectId :=
  git.objectId (.commit commit)

def Git.addressing (git : Git ObjectId) : Addressing ObjectId (Object ObjectId) :=
  { address := git.objectId, links := Object.parents }

/-- Claim refs are keyed by entity name, the target key; a ref names a stored object. -/
structure Store (git : Git ObjectId) where
  objects : ContentStore git.addressing
  refs : ObjectId → Option ObjectId
  written : ∀ name id, refs name = some id → id ∈ objects.ids

namespace Store
variable [DecidableEq ObjectId] {git : Git ObjectId}

def find (s : Store git) (id : ObjectId) : Option (Object ObjectId) := s.objects.find id

/-- Write an object without touching a ref. -/
def writeObject (s : Store git) (object : Object ObjectId) : Store git :=
  { objects := s.objects.write object
    refs := s.refs
    written := fun name id named => ContentStore.mem_ids_write _ _ _ (s.written name id named) }

/-- `kind.read(id)`: the envelope document of a commit, `none` when there is no such object. -/
def readCommit (s : Store git) (id : ObjectId) : Result ObjectId (Option (StoredEnvelope ObjectId)) :=
  match s.find id with
  | none => .ok none
  | some (.commit commit) =>
      match commit.document with
      | .envelope stored => .ok (some stored)
      | .other _ => .error (.store (.decode id))
  | some (.key _) => .error (.store (.decode id))

/-- `kind.read(&name)`: the tip a ref names, once its document decodes. -/
def readRef (s : Store git) (name : ObjectId) : Result ObjectId (Option ObjectId) :=
  match s.refs name with
  | none => .ok none
  | some tip => do
      match ← s.readCommit tip with
      | some _ => return some tip
      | none => throw (.store (.missing tip))

/-- `kind.history(&name)`: first-parent history, newest first; an absent ref has none. -/
def history (s : Store git) (name : ObjectId) : Result ObjectId (List ObjectId) :=
  match s.refs name with
  | none => .ok []
  | some tip =>
      match s.objects.walk tip with
      | some ids => .ok ids
      | none => .error (.store (.missing tip))

/-- `publish_prepared`: write `commit` on top of the expected tip and move the ref to it,
provided the ref is still what was expected. -/
def publishPrepared (s : Store git) (name : ObjectId) (expectation : Option ObjectId)
    (commit : Commit ObjectId) (parent : commit.parents = expectation.toList) :
    Except (StoreError ObjectId) (ObjectId × Store git) :=
  if current : s.refs name = expectation then
    .ok (git.commitId commit,
      { objects := s.objects.write (.commit commit)
        refs := Function.update s.refs name (some (git.commitId commit))
        written := by
          intro other id named
          by_cases same : other = name
          · subst same
            simp only [Function.update_self, Option.some.injEq] at named
            subst named
            apply ContentStore.mem_ids_write_self (A := git.addressing) git.objectId_injective
            intro linked link
            change linked ∈ commit.parents at link
            rw [parent, ← current, Option.mem_toList] at link
            exact s.written _ _ link
          · rw [Function.update_of_ne same] at named
            exact ContentStore.mem_ids_write _ _ _ (s.written other id named) })
  else .error .backend

/-! What the operations leave behind. -/

/-- No object is lost and no history is rewritten: each ref's history only grows at its new end. -/
structure Extends (s t : Store git) : Prop where
  find : ∀ id object, s.find id = some object → t.find id = some object
  history : ∀ name ids, s.history name = .ok ids → ∃ newer, t.history name = .ok (newer ++ ids)

theorem Extends.refl (s : Store git) : s.Extends s :=
  ⟨fun _ _ found => found, fun _ _ read => ⟨[], read⟩⟩

theorem Extends.trans {s t u : Store git} (first : s.Extends t) (second : t.Extends u) : s.Extends u := by
  refine ⟨fun id object found => second.find id object (first.find id object found), ?_⟩
  intro name ids read
  obtain ⟨newer, middle⟩ := first.history name ids read
  obtain ⟨newest, last⟩ := second.history name _ middle
  exact ⟨newest ++ newer, by rw [last, List.append_assoc]⟩

theorem history_eq_of_ref_none (s : Store git) (name : ObjectId) (absent : s.refs name = none) :
    s.history name = .ok [] := by
  simp only [history, absent]

theorem history_ok_iff (s : Store git) (name tip : ObjectId) (named : s.refs name = some tip)
    (ids : List ObjectId) : s.history name = .ok ids ↔ s.objects.walk tip = some ids := by
  simp only [history, named]
  cases s.objects.walk tip <;> simp

theorem history_nodup (s : Store git) (name : ObjectId) (ids : List ObjectId)
    (read : s.history name = .ok ids) : ids.Nodup := by
  cases named : s.refs name with
  | none =>
    rw [history_eq_of_ref_none s name named] at read
    cases read
    exact List.nodup_nil
  | some tip =>
    rw [history_ok_iff s name tip named] at read
    exact ContentStore.walk_nodup _ _ _ read

/-- The tip is the newest entry of the history. -/
theorem history_head (s : Store git) (name : ObjectId) (ids : List ObjectId)
    (read : s.history name = .ok ids) : s.refs name = ids.head? := by
  cases named : s.refs name with
  | none =>
    rw [history_eq_of_ref_none s name named] at read
    cases read
    rfl
  | some tip =>
    rw [history_ok_iff s name tip named] at read
    exact (ContentStore.walk_head _ _ _ read).symm

theorem history_congr (s t : Store git) (name : ObjectId) (ids : List ObjectId)
    (refs : t.refs name = s.refs name)
    (walks : ∀ tip ids, s.objects.walk tip = some ids → t.objects.walk tip = some ids)
    (read : s.history name = .ok ids) : t.history name = .ok ids := by
  cases named : s.refs name with
  | none =>
    rw [history_eq_of_ref_none s name named] at read
    rw [history_eq_of_ref_none t name (refs.trans named)]
    exact read
  | some tip =>
    rw [history_ok_iff s name tip named] at read
    rw [history_ok_iff t name tip (refs.trans named)]
    exact walks tip ids read

theorem history_writeObject (s : Store git) (object : Object ObjectId) (name : ObjectId)
    (ids : List ObjectId) (read : s.history name = .ok ids) :
    (s.writeObject object).history name = .ok ids :=
  history_congr s _ name ids rfl (fun _ _ walked => ContentStore.walk_write _ _ _ _ walked) read

theorem extends_writeObject (s : Store git) (object : Object ObjectId) : s.Extends (s.writeObject object) :=
  ⟨fun _ _ found => ContentStore.find_write _ _ _ _ found,
    fun name ids read => ⟨[], history_writeObject s object name ids read⟩⟩

/-- A publication is possible exactly when the ref is what was expected. -/
theorem publishPrepared_of_current (s : Store git) (name : ObjectId) (expectation : Option ObjectId)
    (commit : Commit ObjectId) (parent : commit.parents = expectation.toList)
    (current : s.refs name = expectation) :
    ∃ t, s.publishPrepared name expectation commit parent = .ok (git.commitId commit, t) := by
  unfold publishPrepared
  rw [dif_pos current]
  exact ⟨_, rfl⟩

/-- Everything a successful publication does. -/
structure Published (s : Store git) (name : ObjectId) (commit : Commit ObjectId) (t : Store git) : Prop where
  parents : commit.parents = (s.refs name).toList
  objects : t.objects = s.objects.write (.commit commit)
  refs : t.refs = Function.update s.refs name (some (git.commitId commit))

theorem publishPrepared_ok (s t : Store git) (name id : ObjectId) (expectation : Option ObjectId)
    (commit : Commit ObjectId) (parent : commit.parents = expectation.toList)
    (ok : s.publishPrepared name expectation commit parent = .ok (id, t)) :
    s.refs name = expectation ∧ id = git.commitId commit ∧ Published s name commit t := by
  unfold publishPrepared at ok
  by_cases current : s.refs name = expectation
  · rw [dif_pos current] at ok
    simp only [Except.ok.injEq, Prod.mk.injEq] at ok
    obtain ⟨rfl, rfl⟩ := ok
    exact ⟨current, rfl, by rw [current, parent], rfl, rfl⟩
  · rw [dif_neg current] at ok
    cases ok

namespace Published
variable {s t : Store git} {name : ObjectId} {commit : Commit ObjectId}

theorem find_of_find (published : Published s name commit t) (id : ObjectId) (object : Object ObjectId)
    (found : s.find id = some object) : t.find id = some object := by
  unfold find
  rw [published.objects]
  exact ContentStore.find_write _ _ _ _ found

theorem find_self (published : Published s name commit t) :
    t.find (git.commitId commit) = some (.commit commit) := by
  unfold find
  rw [published.objects]
  apply ContentStore.find_write_self git.objectId_injective
  intro linked link
  change linked ∈ commit.parents at link
  rw [published.parents, Option.mem_toList] at link
  exact s.written _ _ link

theorem walk_of_walk (published : Published s name commit t) (tip : ObjectId) (ids : List ObjectId)
    (walked : s.objects.walk tip = some ids) : t.objects.walk tip = some ids := by
  rw [published.objects]
  exact ContentStore.walk_write _ _ _ _ walked

theorem history_other (published : Published s name commit t) (other : ObjectId) (different : other ≠ name)
    (ids : List ObjectId) (read : s.history other = .ok ids) : t.history other = .ok ids :=
  history_congr s t other ids (by rw [published.refs, Function.update_of_ne different])
    published.walk_of_walk read

/-- The commit lands on top of the history it was published against. -/
theorem history_self (published : Published s name commit t) (ids : List ObjectId)
    (read : s.history name = .ok ids) : t.history name = .ok (git.commitId commit :: ids) := by
  have named : t.refs name = some (git.commitId commit) := by
    rw [published.refs, Function.update_self]
  have links : git.addressing.links (.commit commit) = (s.refs name).toList := published.parents
  rw [history_ok_iff t name _ named, ContentStore.walk_object _ _ _ published.find_self, links]
  cases before : s.refs name with
  | none =>
    rw [history_eq_of_ref_none s name before] at read
    cases read
    rfl
  | some tip =>
    rw [history_ok_iff s name tip before] at read
    simp only [Option.toList_some, published.walk_of_walk tip ids read, Option.map_some]

theorem extends_store (published : Published s name commit t) : s.Extends t := by
  refine ⟨published.find_of_find, ?_⟩
  intro other ids read
  by_cases same : other = name
  · subst same
    exact ⟨[git.commitId commit], published.history_self ids read⟩
  · exact ⟨[], published.history_other other same ids read⟩

end Published

end Store

/-- Who writes: the identity on the commit, and the signer the store was given, if any. -/
structure Writer where
  committer : String
  signer : Option (Bytes → Bytes)

end GitAnchor.Attest
