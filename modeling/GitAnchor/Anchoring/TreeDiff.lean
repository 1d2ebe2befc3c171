import Mathlib.Data.List.AList
import Mathlib.Data.List.Sort
import Mathlib.Data.String.Basic
import GitAnchor.Anchoring.Util

/-! The structural diff of two git trees by object id. The walk needs object reads only; the
order in which a hash map gives up its entries is taken as it comes, call by call. -/

namespace GitAnchor.Anchoring
open GitAnchor.Substrate

inductive Kind where
  | tree | blob | commit | tag
deriving DecidableEq

structure TreeEntry (ObjectId Mode : Type) where
  filename : Bytes
  oid : ObjectId
  mode : Mode
deriving DecidableEq

/-- How objects are written: ids in hex, the id of the empty tree, tree objects as bytes, and
the modes that say a tree entry is a tree. -/
structure ObjectFormat (ObjectId Mode : Type) where
  hex : ObjectId → String
  emptyTree : ObjectId
  treeFromBytes : Bytes → Except String (List (TreeEntry ObjectId Mode))
  isTree : Mode → Bool

/-- A source of objects. -/
structure Find (ObjectId : Type) where
  tryFind : ObjectId → Except String (Option (Kind × Bytes))

/-- One entry that differs between two trees, named by its full path. -/
structure TreeChange (ObjectId Mode : Type) where
  path : String
  base : Option (ObjectId × Mode)
  head : Option (ObjectId × Mode)
deriving DecidableEq

/-- An entry under its name. -/
abbrev Named (ObjectId Mode : Type) := String × ObjectId × Mode

def fromUtf8 (bytes : Bytes) : Option String := String.fromUTF8? ⟨bytes.toArray⟩

variable {ObjectId Mode : Type}

/-- `parent/name`, or bare `name` at the root. -/
def join (parent name : String) : String :=
  if parent.isEmpty then name else parent ++ "/" ++ name

def namedEntries (format : ObjectFormat ObjectId Mode) (id : ObjectId) :
    List (TreeEntry ObjectId Mode) → Result ObjectId (List (Named ObjectId Mode))
  | [] => return []
  | entry :: rest =>
      match fromUtf8 entry.filename with
      | none => throw (.object ("non-utf8 entry name in tree " ++ format.hex id))
      | some name => do
          let later ← namedEntries format id rest
          return (name, entry.oid, entry.mode) :: later

variable [DecidableEq ObjectId]

/-- The decoded entries of a tree; none and the empty tree id both stand for no entries. -/
def entries (format : ObjectFormat ObjectId Mode) (store : Find ObjectId) :
    Option ObjectId → Result ObjectId (List (Named ObjectId Mode))
  | none => return []
  | some id =>
      if id = format.emptyTree then return []
      else
        match store.tryFind id with
        | .error failure => throw (.object failure)
        | .ok none => throw (.object ("object " ++ format.hex id ++ " not found"))
        | .ok (some (kind, data)) =>
            if kind = .tree then
              match format.treeFromBytes data with
              | .error failure => throw (.object failure)
              | .ok found => namedEntries format id found
            else throw (.object (format.hex id ++ " is not a tree"))

/-- The base entries that no head entry has taken yet. -/
abbrev Remaining (ObjectId Mode : Type) := AList (fun _ : String => ObjectId × Mode)

def collect (named : List (Named ObjectId Mode)) : Remaining ObjectId Mode :=
  named.foldl (fun remaining entry => remaining.insert entry.1 entry.2) ∅

/-- The orders in which the hash maps of a walk are drained, by the names that lead from the
root to the call: two calls that drain something have different names to them. -/
structure Order (ObjectId Mode : Type) where
  drain : List String → List ((_ : String) × (ObjectId × Mode)) → List ((_ : String) × (ObjectId × Mode))
  perm : ∀ names remaining, (drain names remaining).Perm remaining

/-- Every map gives up its entries as it holds them. -/
def Order.asHeld : Order ObjectId Mode :=
  { drain := fun _ remaining => remaining, perm := fun _ remaining => .refl remaining }

/-- The orders of the calls below a name. -/
def Order.under (order : Order ObjectId Mode) (name : String) : Order ObjectId Mode :=
  { drain := fun names => order.drain (name :: names), perm := fun names => order.perm (name :: names) }

/-- What becomes of one name: nothing where the ids agree, what the descent finds where both
sides are trees or one is and the other is absent, else a change. -/
def changesAt (format : ObjectFormat ObjectId Mode)
    (descend : Option ObjectId → Option ObjectId → Walk ObjectId (List (TreeChange ObjectId Mode)))
    (path : String) : Option (ObjectId × Mode) → Option (ObjectId × Mode) →
      Walk ObjectId (List (TreeChange ObjectId Mode))
  | some (baseId, baseMode), some (headId, headMode) =>
      if baseId = headId then return []
      else if format.isTree baseMode ∧ format.isTree headMode then descend (some baseId) (some headId)
      else return [⟨path, some (baseId, baseMode), some (headId, headMode)⟩]
  | none, some (headId, headMode) =>
      if format.isTree headMode then descend none (some headId)
      else return [⟨path, none, some (headId, headMode)⟩]
  | some (baseId, baseMode), none =>
      if format.isTree baseMode then descend (some baseId) none
      else return [⟨path, some (baseId, baseMode), none⟩]
  | none, none => return []

section Loops
variable (format : ObjectFormat ObjectId Mode)
  (descend : String → Option ObjectId → Option ObjectId → Walk ObjectId (List (TreeChange ObjectId Mode)))
  (parent : String)

/-- The loop over the head entries, each of which takes the base entry of its name. -/
def headLoop : List (Named ObjectId Mode) → Remaining ObjectId Mode →
    Walk ObjectId (List (TreeChange ObjectId Mode) × Remaining ObjectId Mode)
  | [], remaining => return ([], remaining)
  | (name, head) :: rest, remaining => do
      let here ← changesAt format (descend name) (join parent name) (remaining.lookup name) (some head)
      let (later, remaining) ← headLoop rest (remaining.erase name)
      return (here ++ later, remaining)

/-- The loop over the base entries that no head entry took. -/
def drainLoop : List ((_ : String) × (ObjectId × Mode)) → Walk ObjectId (List (TreeChange ObjectId Mode))
  | [] => return []
  | ⟨name, base⟩ :: rest => do
      let here ← changesAt format (descend name) (join parent name) (some base) none
      let later ← drainLoop rest
      return here ++ later

end Loops

/-- The changes between the trees at `base` and `head`, none meaning empty, under `parent`. -/
def walk (format : ObjectFormat ObjectId Mode) (store : Find ObjectId) :
    Nat → Order ObjectId Mode → String → Option ObjectId → Option ObjectId →
      Walk ObjectId (List (TreeChange ObjectId Mode))
  | 0, _, _, _, _ => ExceptT.mk none
  | fuel + 1, order, parent, base, head =>
      if base = head then return []
      else do
        let baseEntries ← Walk.of (entries format store base)
        let headEntries ← Walk.of (entries format store head)
        let descend := fun name => walk format store fuel (order.under name) (join parent name)
        let (changed, remaining) ← headLoop format descend parent headEntries (collect baseEntries)
        let removed ← drainLoop format descend parent (order.drain [] remaining.entries)
        return changed ++ removed

def byPath (one other : TreeChange ObjectId Mode) : Prop := one.path ≤ other.path

instance : DecidableRel (byPath : TreeChange ObjectId Mode → TreeChange ObjectId Mode → Prop) :=
  fun one other => inferInstanceAs (Decidable (one.path ≤ other.path))

def diffTrees (format : ObjectFormat ObjectId Mode) (store : Find ObjectId) (fuel : Nat)
    (order : Order ObjectId Mode) (base head : Option ObjectId) :
    Walk ObjectId (List (TreeChange ObjectId Mode)) := do
  let changes ← walk format store fuel order "" base head
  return changes.insertionSort byPath

/-! The hash map of the base entries. -/

/-- The base entries left when the head entries of `names` have taken theirs. -/
def leftover (names : List String) (remaining : Remaining ObjectId Mode) : Remaining ObjectId Mode :=
  names.foldl (fun rest name => rest.erase name) remaining

omit [DecidableEq ObjectId] in
theorem lookup_leftover (names : List String) (remaining : Remaining ObjectId Mode) (name : String) :
    (leftover names remaining).lookup name = if name ∈ names then none else remaining.lookup name := by
  induction names generalizing remaining with
  | nil => simp [leftover]
  | cons first rest ih =>
    have later := ih (remaining.erase first)
    rw [leftover, List.foldl_cons]
    rw [leftover] at later
    rw [later]
    by_cases further : name ∈ rest
    · rw [if_pos further, if_pos (List.mem_cons_of_mem _ further)]
    · rw [if_neg further]
      by_cases same : name = first
      · rw [same, AList.lookup_erase, if_pos List.mem_cons_self]
      · rw [AList.lookup_erase_ne same, if_neg (by simp [same, further])]

omit [DecidableEq ObjectId] in
theorem lookup_insertions (named : List (Named ObjectId Mode)) (remaining : Remaining ObjectId Mode)
    (name : String) :
    (∀ found, (named.foldl (fun rest entry => rest.insert entry.1 entry.2) remaining).lookup name = some found →
      (name, found) ∈ named ∨ remaining.lookup name = some found) ∧
    ((named.foldl (fun rest entry => rest.insert entry.1 entry.2) remaining).lookup name = none →
      name ∉ named.map Prod.fst ∧ remaining.lookup name = none) := by
  induction named generalizing remaining with
  | nil => simp
  | cons first rest ih =>
    rw [List.foldl_cons]
    obtain ⟨present, absent⟩ := ih (remaining.insert first.1 first.2)
    refine ⟨?_, ?_⟩
    · intro found there
      rcases present found there with later | here
      · exact .inl (List.mem_cons_of_mem _ later)
      · by_cases same : name = first.1
        · subst same
          rw [AList.lookup_insert] at here
          rw [← Option.some.inj here]
          exact .inl List.mem_cons_self
        · rw [AList.lookup_insert_ne same] at here
          exact .inr here
    · intro nothing
      obtain ⟨later, here⟩ := absent nothing
      by_cases same : name = first.1
      · subst same
        rw [AList.lookup_insert] at here
        cases here
      · rw [AList.lookup_insert_ne same] at here
        exact ⟨by simp only [List.map_cons, List.mem_cons, not_or]; exact ⟨same, later⟩, here⟩

omit [DecidableEq ObjectId] in
/-- What the map holds under a name is an entry of that name. -/
theorem mem_of_lookup_collect (named : List (Named ObjectId Mode)) (name : String) (found : ObjectId × Mode)
    (there : (collect named).lookup name = some found) : (name, found) ∈ named := by
  rcases (lookup_insertions named ∅ name).1 found there with member | empty
  · exact member
  · simp at empty

omit [DecidableEq ObjectId] in
theorem not_mem_of_lookup_collect (named : List (Named ObjectId Mode)) (name : String)
    (nothing : (collect named).lookup name = none) : name ∉ named.map Prod.fst :=
  ((lookup_insertions named ∅ name).2 nothing).1

end GitAnchor.Anchoring
