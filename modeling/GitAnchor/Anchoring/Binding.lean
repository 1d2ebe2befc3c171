import GitAnchor.Anchoring.Capture

/-! Bindings: what a claim is about, and the id that names it. The id is the hash of the
identity alone, written in the identity normal form, which no two variants share. -/

namespace GitAnchor.Anchoring
open GitAnchor.Foundation GitAnchor.Substrate

structure CommitIdentity (ObjectId : Type) where
  commit : ObjectId
deriving DecidableEq

/-- A parent commit and a body tree. -/
structure HybridIdentity (ObjectId : Type) where
  commit : ObjectId
  tree : ObjectId
deriving DecidableEq

structure NoHints where
deriving DecidableEq

structure TreeIdentity (ObjectId : Type) where
  tree : ObjectId
deriving DecidableEq

/-- Where a tree was found, and a commit whose ancestry reaches it. -/
structure TreeHints (ObjectId : Type) where
  path : String
  witness : ObjectId
deriving DecidableEq

structure DeltaIdentity (ObjectId : Type) where
  baseTree : ObjectId
  headTree : ObjectId
deriving DecidableEq

structure DeltaHints (ObjectId : Type) where
  path : String
  baseWitness : ObjectId
  headWitness : ObjectId
deriving DecidableEq

inductive Binding (ObjectId : Type) where
  | commit (identity : CommitIdentity ObjectId) (hints : NoHints)
  | tree (identity : TreeIdentity ObjectId) (hints : TreeHints ObjectId)
  | delta (identity : DeltaIdentity ObjectId) (hints : DeltaHints ObjectId)
  | position (anchor : Anchor ObjectId)
  | hybrid (identity : HybridIdentity ObjectId) (hints : NoHints)
deriving DecidableEq

variable {ObjectId : Type}

def CommitIdentity.toNormalForm (identity : CommitIdentity ObjectId) : NormalForm ObjectId :=
  .struct [("commit", .hash identity.commit)]

def HybridIdentity.toNormalForm (identity : HybridIdentity ObjectId) : NormalForm ObjectId :=
  .struct [("commit", .hash identity.commit), ("tree", .hash identity.tree)]

def TreeIdentity.toNormalForm (identity : TreeIdentity ObjectId) : NormalForm ObjectId :=
  .struct [("tree", .hash identity.tree)]

def DeltaIdentity.toNormalForm (identity : DeltaIdentity ObjectId) : NormalForm ObjectId :=
  .struct [("base_tree", .hash identity.baseTree), ("head_tree", .hash identity.headTree)]

def AnchorIdentity.toNormalForm (identity : AnchorIdentity ObjectId) : NormalForm ObjectId :=
  .struct [("genesis_rev", .hash identity.genesisRev), ("path", .str identity.path),
    ("span", .list [.u64 identity.span.start, .u64 identity.span.stop])]

/-- The content hash of an identity: the one place where an anchor id is made. -/
def hashIdentity (normalForm : NormalFormHash ObjectId) (identity : NormalForm ObjectId) : ObjectId :=
  normalForm.hash identity

def Anchor.id (normalForm : NormalFormHash ObjectId) (anchor : Anchor ObjectId) : ObjectId :=
  hashIdentity normalForm anchor.identity.toNormalForm

def Binding.anchorId (normalForm : NormalFormHash ObjectId) : Binding ObjectId → ObjectId
  | .commit identity _ => hashIdentity normalForm identity.toNormalForm
  | .hybrid identity _ => hashIdentity normalForm identity.toNormalForm
  | .tree identity _ => hashIdentity normalForm identity.toNormalForm
  | .delta identity _ => hashIdentity normalForm identity.toNormalForm
  | .position anchor => anchor.id normalForm

/-- The commits whose ancestry must reach what is bound. -/
def Binding.witnesses : Binding ObjectId → List ObjectId
  | .commit identity _ => [identity.commit]
  | .hybrid identity _ => [identity.commit]
  | .tree _ hints => [hints.witness]
  | .delta _ hints => [hints.baseWitness, hints.headWitness]
  | .position anchor => [anchor.identity.genesisRev]

/-- Two bindings of one variant with equal identity coordinates, whatever their hints. -/
def Binding.SameIdentity : Binding ObjectId → Binding ObjectId → Prop
  | .commit one _, .commit other _ => one.commit = other.commit
  | .hybrid one _, .hybrid other _ => one.commit = other.commit ∧ one.tree = other.tree
  | .tree one _, .tree other _ => one.tree = other.tree
  | .delta one _, .delta other _ => one.baseTree = other.baseTree ∧ one.headTree = other.headTree
  | .position one, .position other => one.identity.genesisRev = other.identity.genesisRev ∧
      one.identity.path = other.identity.path ∧ one.identity.span.start = other.identity.span.start ∧
      one.identity.span.stop = other.identity.span.stop
  | _, _ => False

/-- The normal form of a binding's identity. -/
def Binding.form : Binding ObjectId → NormalForm ObjectId
  | .commit identity _ => identity.toNormalForm
  | .hybrid identity _ => identity.toNormalForm
  | .tree identity _ => identity.toNormalForm
  | .delta identity _ => identity.toNormalForm
  | .position anchor => anchor.identity.toNormalForm

theorem anchorId_eq_hash (normalForm : NormalFormHash ObjectId) (binding : Binding ObjectId) :
    binding.anchorId normalForm = normalForm.hash binding.form := by
  cases binding <;> rfl

/-- No two variants have a normal form in common, and each keeps all its coordinates. -/
theorem form_eq_iff (one other : Binding ObjectId) : one.form = other.form ↔ one.SameIdentity other := by
  cases one <;> cases other <;>
    simp [Binding.form, Binding.SameIdentity, CommitIdentity.toNormalForm, HybridIdentity.toNormalForm,
      TreeIdentity.toNormalForm, DeltaIdentity.toNormalForm, AnchorIdentity.toNormalForm]

/-- Two bindings have one anchor id exactly when they are the same identity. -/
theorem anchorId_eq_iff (normalForm : NormalFormHash ObjectId) (one other : Binding ObjectId) :
    one.anchorId normalForm = other.anchorId normalForm ↔ one.SameIdentity other := by
  rw [anchorId_eq_hash, anchorId_eq_hash, normalForm.hash_injective.eq_iff, form_eq_iff]

end GitAnchor.Anchoring
