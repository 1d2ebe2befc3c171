import GitAnchor.Foundation.Hunks
import GitAnchor.Anchoring.Util

/-! Git repositories as the `git-anchor` crate uses them. What an object id names is the same
in every repository; a repository decides which revisions resolve and which objects can be
read. Tree diffs, line diffs and path lookups belong to the git library. -/

namespace GitAnchor.Anchoring
open GitAnchor.Foundation GitAnchor.Substrate

inductive EntryMode where
  | tree | blob | blobExecutable | link | commit
deriving DecidableEq

def EntryMode.isBlob : EntryMode → Bool
  | .blob | .blobExecutable => true
  | _ => false

structure Entry (ObjectId : Type) where
  mode : EntryMode
  oid : ObjectId
deriving DecidableEq

/-- One change of a tree diff with rename tracking. -/
inductive Change (ObjectId : Type) where
  | addition (location : String)
  | deletion (location : String)
  | modification (location : String) (id : ObjectId) (entryMode : EntryMode)
  | rewrite (sourceLocation location : String) (id : ObjectId) (entryMode : EntryMode) (copy : Bool)
deriving DecidableEq

/-- Where a change leaves the entry it follows, and the id it gives there. -/
def Change.destination {ObjectId : Type} : Change ObjectId → Option (String × ObjectId)
  | .modification location id _ => some (location, id)
  | .rewrite _ location id _ _ => some (location, id)
  | _ => none

/-- The git library over one universe of objects: what ids name and how texts and trees
differ. The laws say what it documents of them: a written blob is named by its id, hunks
describe the two texts, and a change names the entry it leads to. -/
structure Gix (ObjectId : Type) where
  hex : ObjectId → String
  rootTree : ObjectId → Option ObjectId
  entryAt : ObjectId → String → Option (Entry ObjectId)
  content : ObjectId → Option Data
  blobId : Data → ObjectId
  changes : ObjectId → ObjectId → List (Change ObjectId)
  hunks : List Bytes → List Bytes → List Hunk
  content_blobId : ∀ data, content (blobId data) = some data
  hunks_script : ∀ olds news, Script 0 0 olds news (hunks olds news)
  changes_entry : ∀ source target, ∀ change ∈ changes source target, ∀ location id,
    change.destination = some (location, id) →
    ∃ entry, entryAt target location = some entry ∧ entry.oid = id

/-- The files of a working tree, by path. -/
structure WorkDir where
  isFile : String → Bool
  read : String → Option Data

variable {ObjectId : Type}

/-- A repository: what it answers is true of the objects, where it answers. -/
structure Repository (gix : Gix ObjectId) where
  revParseSingle : String → Option ObjectId
  hasObject : ObjectId → Bool
  peelToCommit : ObjectId → Option ObjectId
  tree : ObjectId → Except String ObjectId
  lookupEntryByPath : ObjectId → String → Except String (Option (Entry ObjectId))
  findBlob : ObjectId → Except String Data
  diffTreeToTree : ObjectId → ObjectId → Except String (List (Change ObjectId))
  readOnly : Option String
  workdir : Option WorkDir
  peel_commit : ∀ id commit, peelToCommit id = some commit → (gix.rootTree commit).isSome
  peel_self : ∀ id commit, peelToCommit id = some commit → (gix.rootTree id).isSome → commit = id
  tree_rootTree : ∀ commit root, tree commit = .ok root → gix.rootTree commit = some root
  lookup_entryAt : ∀ root path found, lookupEntryByPath root path = .ok found → found = gix.entryAt root path
  findBlob_content : ∀ id data, findBlob id = .ok data → gix.content id = some data
  diff_changes : ∀ source target found, diffTreeToTree source target = .ok found →
    found = gix.changes source target

variable {gix : Gix ObjectId}

/-- Write a blob: it can be read from then on. -/
def Repository.writeBlob [DecidableEq ObjectId] (repo : Repository gix) (data : Data) :
    Except String (Repository gix) :=
  match repo.readOnly with
  | some failure => .error failure
  | none => .ok { repo with
      hasObject := fun id => decide (id = gix.blobId data) || repo.hasObject id
      findBlob := fun id => if id = gix.blobId data then .ok data else repo.findBlob id
      findBlob_content := by
        intro id found read
        split at read
        · next same =>
          obtain rfl := Except.ok.inj read
          rw [same, gix.content_blobId]
        · exact repo.findBlob_content id found read }

/-- The commit that `revision` names. -/
def resolveCommit (repo : Repository gix) (revision : String) : Result ObjectId ObjectId :=
  match (repo.revParseSingle revision).bind repo.peelToCommit with
  | some commit => .ok commit
  | none => .error (.resolve revision)

def commitAt (repo : Repository gix) (id : ObjectId) : Result ObjectId ObjectId :=
  match repo.peelToCommit id with
  | some commit => .ok commit
  | none => .error (.resolve (gix.hex id))

def readBlob (repo : Repository gix) (id : ObjectId) : Result ObjectId Data :=
  (repo.findBlob id).mapError .object

def treeOf (repo : Repository gix) (commit : ObjectId) : Result ObjectId ObjectId :=
  (repo.tree commit).mapError .object

def lookupEntry (repo : Repository gix) (root : ObjectId) (path : String) :
    Result ObjectId (Option (Entry ObjectId)) :=
  (repo.lookupEntryByPath root path).mapError .object

/-- The blob id at `path`, or none when absent or not a blob. -/
def blobAt (repo : Repository gix) (root : ObjectId) (path : String) : Result ObjectId (Option ObjectId) := do
  let found ← lookupEntry repo root path
  return (found.filter (·.mode.isBlob)).map (·.oid)

theorem resolveCommit_eq_ok (repo : Repository gix) (revision : String) (commit : ObjectId) :
    resolveCommit repo revision = .ok commit ↔
      ∃ id, repo.revParseSingle revision = some id ∧ repo.peelToCommit id = some commit := by
  rw [← Option.bind_eq_some_iff]
  unfold resolveCommit
  split
  · next found resolved =>
    rw [resolved, Except.ok.injEq, Option.some.injEq]
  · next failed =>
    rw [failed]
    exact iff_of_false nofun nofun

theorem resolveCommit_isCommit (repo : Repository gix) (revision : String) (commit : ObjectId)
    (ok : resolveCommit repo revision = .ok commit) : (gix.rootTree commit).isSome := by
  obtain ⟨id, _, peeled⟩ := (resolveCommit_eq_ok repo revision commit).mp ok
  exact repo.peel_commit id commit peeled

/-- A commit is read under its own id. -/
theorem commitAt_self (repo : Repository gix) (id commit : ObjectId) (named : (gix.rootTree id).isSome)
    (ok : commitAt repo id = .ok commit) : commit = id := by
  unfold commitAt at ok
  split at ok
  · next found peeled =>
    rw [← Except.ok.inj ok]
    exact repo.peel_self id found peeled named
  · cases ok

theorem readBlob_ok (repo : Repository gix) (id : ObjectId) (data : Data)
    (ok : readBlob repo id = .ok data) : gix.content id = some data :=
  repo.findBlob_content id data (Result.mapError_eq_ok.mp ok)

theorem treeOf_ok (repo : Repository gix) (commit root : ObjectId) (ok : treeOf repo commit = .ok root) :
    gix.rootTree commit = some root :=
  repo.tree_rootTree commit root (Result.mapError_eq_ok.mp ok)

theorem lookupEntry_ok (repo : Repository gix) (root : ObjectId) (path : String)
    (found : Option (Entry ObjectId)) (ok : lookupEntry repo root path = .ok found) :
    found = gix.entryAt root path :=
  repo.lookup_entryAt root path found (Result.mapError_eq_ok.mp ok)

theorem Entry.kept_of_isBlob (entry : Entry ObjectId) (isBlob : entry.mode.isBlob = true) :
    (some entry).filter (fun entry => entry.mode.isBlob) = some entry := by
  rw [Option.filter_some, if_pos isBlob]

/-- Where a blob stands, its id is found. -/
theorem blobAt_of_isBlob (repo : Repository gix) (root : ObjectId) (path : String) (entry : Entry ObjectId)
    (looked : lookupEntry repo root path = .ok (some entry)) (isBlob : entry.mode.isBlob = true) :
    blobAt repo root path = .ok (some entry.oid) := by
  rw [blobAt, looked, Result.ok_bind, entry.kept_of_isBlob isBlob]
  rfl

end GitAnchor.Anchoring
