import GitAnchor.Anchoring.Binding
import GitAnchor.Anchoring.FingerprintOracle

/-! How up to date a binding is at a revision. Commits are checked by ancestry, trees by a
search of the whole tree, deltas against a given pair, and positions by the oracles. -/

namespace GitAnchor.Anchoring
open GitAnchor.Foundation GitAnchor.Substrate

inductive Validity where
  | valid | stale | unknown
deriving DecidableEq

/-- What a binding is checked against: a revision, and a tree pair where it is a delta. -/
structure EvalState (ObjectId : Type) where
  revision : String
  delta : Option (ObjectId × ObjectId)

/-- A repository with its history and its trees entry by entry. The merge base is one of two
commits; what peels is there and can be read again. -/
structure History {ObjectId : Type} (gix : Gix ObjectId) extends Repository gix where
  mergeBase : ObjectId → ObjectId → Option ObjectId
  treeItems : ObjectId → List (Except String (Entry ObjectId))
  findTree : ObjectId → Except String ObjectId
  mergeBase_commits : ∀ one other base, mergeBase one other = some base →
    (gix.rootTree one).isSome ∧ (gix.rootTree other).isSome
  peel_present : ∀ id commit, peelToCommit id = some commit → hasObject id = true ∧ hasObject commit = true
  peel_again : ∀ id commit, peelToCommit id = some commit → peelToCommit commit = some commit

variable {ObjectId : Type} {gix : Gix ObjectId}

/-- Unknown where either is, valid where both are, else stale. -/
def combine : Validity → Validity → Validity
  | .unknown, _ => .unknown
  | _, .unknown => .unknown
  | .valid, .valid => .valid
  | _, _ => .stale

variable [DecidableEq ObjectId]

def commitValidity (repo : History gix) (commit : ObjectId) (revision : String) : Validity :=
  if repo.hasObject commit = false then .unknown
  else
    match resolveCommit repo.toRepository revision with
    | .error _ => .unknown
    | .ok target =>
        if commit = target ∨ repo.mergeBase commit target = some commit then .valid else .stale

/-- The loop over the entries of a tree: trees only, each compared before it is searched. -/
def entriesContain (repo : History gix) (descend : ObjectId → Walk ObjectId Bool) (target : ObjectId) :
    List (Except String (Entry ObjectId)) → Walk ObjectId Bool
  | [] => return false
  | .error failure :: _ => throw (.object failure)
  | .ok entry :: rest => do
      if entry.mode ≠ .tree then entriesContain repo descend target rest
      else if entry.oid = target then return true
      else
        let subtree ← Walk.of ((repo.findTree entry.oid).mapError .object)
        let found ← descend subtree
        if found then return true
        else entriesContain repo descend target rest

/-- Whether `target` is `tree` or a tree somewhere below it. -/
def treeContains (repo : History gix) : Nat → ObjectId → ObjectId → Walk ObjectId Bool
  | 0, _, _ => ExceptT.mk none
  | fuel + 1, tree, target =>
      if tree = target then return true
      else entriesContain repo (fun subtree => treeContains repo fuel subtree target) target (repo.treeItems tree)

def treeReachable (repo : History gix) (fuel : Nat) (tree : ObjectId) (revision : String) :
    Walk ObjectId Validity :=
  match resolveCommit repo.toRepository revision with
  | .error _ => return .unknown
  | .ok commit => do
      let root ← Walk.of (treeOf repo.toRepository commit)
      let found ← treeContains repo fuel root tree
      return if found then .valid else .stale

/-- As `treeReachable`, with a look at the recorded path first. -/
def treeValidity (repo : History gix) (fuel : Nat) (tree : ObjectId) (path revision : String) :
    Walk ObjectId Validity :=
  match resolveCommit repo.toRepository revision with
  | .error _ => return .unknown
  | .ok commit => do
      let root ← Walk.of (treeOf repo.toRepository commit)
      match repo.lookupEntryByPath root path with
      | .ok (some entry) =>
          if entry.mode = .tree ∧ entry.oid = tree then return .valid
          else
            let found ← treeContains repo fuel root tree
            return if found then .valid else .stale
      | _ => do
          let found ← treeContains repo fuel root tree
          return if found then .valid else .stale

def deltaValidity (baseTree headTree : ObjectId) : Option (ObjectId × ObjectId) → Validity
  | some pair => if pair = (baseTree, headTree) then .valid else .stale
  | none => .unknown

/-- A position is valid while its trace finds it. Once its commit is gone, a window of the
target with the very same fingerprint counts as finding it. -/
def positionValidity (repo : Repository gix) (anchor : Anchor ObjectId) (revision : String) :
    Result ObjectId Validity :=
  match diffTrace repo anchor revision with
  | .ok candidates =>
      if candidates ≠ [] then .ok .valid
      else if repo.hasObject anchor.identity.genesisRev = false then
        match fingerprint repo anchor revision with
        | .ok found => if found.any (fun candidate => 1 ≤ candidate.confidence) then .ok .valid else .ok .stale
        | .error (.resolve _) => .ok .unknown
        | .error other => .error other
      else .ok .stale
  | .error (.resolve _) => .ok .unknown
  | .error other => .error other

def revalidate (repo : History gix) (fuel : Nat) (binding : Binding ObjectId) (state : EvalState ObjectId) :
    Walk ObjectId Validity :=
  match binding with
  | .commit identity _ => return commitValidity repo identity.commit state.revision
  | .tree identity hints => treeValidity repo fuel identity.tree hints.path state.revision
  | .delta identity _ => return deltaValidity identity.baseTree identity.headTree state.delta
  | .position anchor => Walk.of (positionValidity repo.toRepository anchor state.revision)
  | .hybrid identity _ => do
      let tree ← treeReachable repo fuel identity.tree state.revision
      return combine (commitValidity repo identity.commit state.revision) tree

end GitAnchor.Anchoring
