import GitAnchor.Anchoring.Plain
import GitAnchor.Anchoring.Validity
import GitAnchor.Foundation.Ancestry
import Mathlib.Data.Set.Finite.Basic

/-! Validity as reachability: a commit is valid at its descendants, a tree wherever it stands
below the root. Neither the path recorded for a tree nor the choice among several merge bases
matters. -/

namespace GitAnchor.Anchoring
open GitAnchor.Foundation GitAnchor.Substrate

variable {ObjectId : Type} {gix : Gix ObjectId}

/-- `tree` has an entry for the tree `below`. -/
def History.Holds (repo : History gix) (tree below : ObjectId) : Prop :=
  ∃ entry, .ok entry ∈ repo.treeItems tree ∧ entry.mode = .tree ∧ entry.oid = below

/-- `below` is `tree`, or a tree entry at some depth below it. -/
def History.Below (repo : History gix) : ObjectId → ObjectId → Prop := Ancestry.Reaches repo.Holds

/-- Every tree below `root` can be read, and they form a finite graph without cycles. -/
structure Readable (repo : History gix) (root : ObjectId) : Prop where
  items : ∀ tree, repo.Below root tree → ∀ item ∈ repo.treeItems tree, ∃ entry, item = .ok entry
  found : ∀ tree, repo.Below root tree → repo.findTree tree = .ok tree
  finite : {tree | repo.Below root tree}.Finite
  acyclic : ∀ tree, repo.Below root tree → ¬ Relation.TransGen repo.Holds tree tree

/-- A path is followed from tree to tree: what a lookup finds is an entry of a tree below. -/
def LookupDescends (repo : History gix) (root : ObjectId) : Prop :=
  ∀ path entry, repo.lookupEntryByPath root path = .ok (some entry) →
    ∃ tree, repo.Below root tree ∧ .ok entry ∈ repo.treeItems tree

def ParentLink (parents : ObjectId → List ObjectId) (commit parent : ObjectId) : Prop := parent ∈ parents commit

/-- A merge base is some best common ancestor, and there is one where commits have a common
ancestor at all. -/
structure MergeBaseBest (repo : History gix) (parents : ObjectId → List ObjectId) : Prop where
  best : ∀ one other base, repo.mergeBase one other = some base →
    Ancestry.Best (ParentLink parents) one other base
  fails : ∀ one other, (gix.rootTree one).isSome → (gix.rootTree other).isSome →
    repo.mergeBase one other = none →
    ∀ node, ¬ Ancestry.Common (ParentLink parents) one other node

variable [DecidableEq ObjectId]

/-! Commits. -/

/-- A commit that is there is valid at a revision exactly when the revision's commit is that
commit or descends from it, and stale at every other. -/
theorem commitValidity_ancestry (repo : History gix) (parents : ObjectId → List ObjectId)
    (merges : MergeBaseBest repo parents) (commit target : ObjectId) (revision : String)
    (isCommit : (gix.rootTree commit).isSome) (held : repo.hasObject commit = true)
    (resolved : resolveCommit repo.toRepository revision = .ok target) :
    (commitValidity repo commit revision = .valid ↔
        Ancestry.Reaches (ParentLink parents) target commit) ∧
      (¬ Ancestry.Reaches (ParentLink parents) target commit →
        commitValidity repo commit revision = .stale) := by
  have decided : commitValidity repo commit revision =
      if commit = target ∨ repo.mergeBase commit target = some commit then .valid else .stale := by
    unfold commitValidity
    rw [held, resolved]
    rfl
  have ancestor : (commit = target ∨ repo.mergeBase commit target = some commit) ↔
      Ancestry.Reaches (ParentLink parents) target commit := by
    constructor
    · intro related
      rcases related with same | base
      · rw [same]
      · exact (merges.best commit target commit base).1.2
    · intro reached
      right
      cases base : repo.mergeBase commit target with
      | some found =>
        have best := merges.best commit target found base
        rw [(Ancestry.best_eq_left_iff _ commit target found best).mpr reached]
      | none =>
        have targetIsCommit := resolveCommit_isCommit repo.toRepository revision target resolved
        exact absurd ⟨.refl, reached⟩ (merges.fails commit target isCommit targetIsCommit base commit)
  rw [decided]
  constructor
  · rw [← ancestor]
    split
    · next related => exact iff_of_true rfl related
    · next unrelated => exact iff_of_false nofun unrelated
  · intro unreached
    exact if_neg (fun related => unreached (ancestor.mp related))

/-! Trees. -/

/-- The loop over entries that can be read answers whether one of the trees among them is
the target or has it below, once the search of each of these trees does. -/
theorem entriesContain_eq (repo : History gix) (descend : ObjectId → Walk ObjectId Bool) (target : ObjectId)
    (items : List (Except String (Entry ObjectId))) (read : ∀ item ∈ items, ∃ entry, item = .ok entry)
    (found : ∀ entry, .ok entry ∈ items → entry.mode = .tree → repo.findTree entry.oid = .ok entry.oid)
    (searched : ∀ entry, .ok entry ∈ items → entry.mode = .tree →
      ∃ answer, descend entry.oid = pure answer ∧ (answer = true ↔ repo.Below entry.oid target)) :
    ∃ answer, entriesContain repo descend target items = pure answer ∧
      (answer = true ↔ ∃ entry, .ok entry ∈ items ∧ entry.mode = .tree ∧ repo.Below entry.oid target) := by
  induction items with
  | nil => exact ⟨false, rfl, iff_of_false nofun (fun ⟨_, member, _⟩ => nomatch member)⟩
  | cons item rest ih =>
    obtain ⟨entry, rfl⟩ := read item List.mem_cons_self
    obtain ⟨later, returned, exactly⟩ := ih (fun other member => read other (List.mem_cons_of_mem _ member))
      (fun other member => found other (List.mem_cons_of_mem _ member))
      (fun other member => searched other (List.mem_cons_of_mem _ member))
    have first_or_later : (∃ other, .ok other ∈ Except.ok entry :: rest ∧ other.mode = .tree ∧
        repo.Below other.oid target) ↔ (entry.mode = .tree ∧ repo.Below entry.oid target) ∨ later = true := by
      rw [exactly]
      simp only [List.mem_cons, Except.ok.injEq, or_and_right, exists_or, exists_eq_left]
    rw [first_or_later]
    unfold entriesContain
    by_cases isTree : entry.mode = .tree
    · rw [if_neg (not_not_intro isTree)]
      by_cases same : entry.oid = target
      · exact ⟨true, by rw [if_pos same], iff_of_true rfl (.inl ⟨isTree, same ▸ .refl⟩)⟩
      · obtain ⟨answer, search, below⟩ := searched entry List.mem_cons_self isTree
        have opened : (Walk.of ((repo.findTree entry.oid).mapError .object) : Walk ObjectId ObjectId) = pure entry.oid := by
          rw [found entry List.mem_cons_self isTree]
          rfl
        rw [if_neg same, opened, pure_bind, search, pure_bind, ← below]
        cases answer with
        | true => exact ⟨true, rfl, iff_of_true rfl (.inl ⟨isTree, rfl⟩)⟩
        | false => exact ⟨later, returned, by simp⟩
    · rw [if_pos isTree]
      exact ⟨later, returned, by simp [isTree]⟩

/-- The search of one tree answers for it, once the searches of the trees in it do for them. -/
theorem treeContains_succ (repo : History gix) (fuel : Nat) (tree target : ObjectId)
    (read : ∀ item ∈ repo.treeItems tree, ∃ entry, item = .ok entry)
    (found : ∀ entry, .ok entry ∈ repo.treeItems tree → entry.mode = .tree → repo.findTree entry.oid = .ok entry.oid)
    (searched : ∀ entry, .ok entry ∈ repo.treeItems tree → entry.mode = .tree →
      ∃ answer, treeContains repo fuel entry.oid target = pure answer ∧ (answer = true ↔ repo.Below entry.oid target)) :
    ∃ answer, treeContains repo (fuel + 1) tree target = pure answer ∧ (answer = true ↔ repo.Below tree target) := by
  unfold treeContains
  by_cases same : tree = target
  · exact ⟨true, by rw [if_pos same], iff_of_true rfl (same ▸ .refl)⟩
  · rw [if_neg same]
    obtain ⟨answer, returned, exactly⟩ := entriesContain_eq repo (fun subtree => treeContains repo fuel subtree target)
      target (repo.treeItems tree) read found searched
    refine ⟨answer, returned, ?_⟩
    rw [exactly]
    constructor
    · intro ⟨entry, member, isTree, below⟩
      exact .head ⟨entry, member, isTree, rfl⟩ below
    · intro below
      rcases Relation.ReflTransGen.cases_head below with self | ⟨next, ⟨entry, member, isTree, rfl⟩, rest⟩
      · exact absurd self same
      · exact ⟨entry, member, isTree, rest⟩

/-- With enough fuel the search of a readable tree ends, and answers whether the target is
the tree or stands below it. -/
theorem treeContains_eq (repo : History gix) (root target : ObjectId) (readable : Readable repo root) :
    ∃ enough, ∀ fuel, enough ≤ fuel →
      ∃ answer, treeContains repo fuel root target = pure answer ∧ (answer = true ↔ repo.Below root target) := by
  -- the induction is on the trees below: in a finite graph without cycles there is an end to them
  have each (tree : ObjectId) (descent : Acc (fun below above => repo.Holds above below) tree)
      (inside : repo.Below root tree) : ∃ enough, ∀ fuel, enough ≤ fuel →
        ∃ answer, treeContains repo fuel tree target = pure answer ∧ (answer = true ↔ repo.Below tree target) := by
    induction descent with
    | intro tree _ ih =>
      have under (entry : Entry ObjectId) (member : .ok entry ∈ repo.treeItems tree) (isTree : entry.mode = .tree) :
          repo.Holds tree entry.oid := ⟨entry, member, isTree, rfl⟩
      obtain ⟨enough, searched⟩ := Ancestry.enough_for_all
        (fun item fuel => ∀ entry, item = .ok entry → entry.mode = .tree →
          ∃ answer, treeContains repo fuel entry.oid target = pure answer ∧
            (answer = true ↔ repo.Below entry.oid target))
        (repo.treeItems tree) (by
          intro item member
          obtain ⟨entry, rfl⟩ := readable.items tree inside item member
          by_cases isTree : entry.mode = .tree
          · have linked := under entry member isTree
            obtain ⟨enough, answers⟩ := ih entry.oid linked (inside.tail linked)
            refine ⟨enough, ?_⟩
            intro fuel covered other same _
            obtain rfl := Except.ok.inj same
            exact answers fuel covered
          · refine ⟨0, ?_⟩
            intro fuel _ other same otherIsTree
            obtain rfl := Except.ok.inj same
            exact absurd otherIsTree isTree)
      refine ⟨enough + 1, ?_⟩
      intro fuel covered
      obtain ⟨less, rfl⟩ : ∃ less, fuel = less + 1 := ⟨fuel - 1, by omega⟩
      apply treeContains_succ repo less tree target (readable.items tree inside)
      · intro entry member isTree
        exact readable.found entry.oid (inside.tail (under entry member isTree))
      · intro entry member isTree
        exact searched less (by omega) _ member entry rfl isTree
  exact each root (Ancestry.acc_of_finite repo.Holds root readable.finite readable.acyclic) .refl

/-- A tree is valid at a revision exactly when it is the root or stands below it, whatever
the path recorded for it: the look at the path can only find what the search finds too. -/
theorem treeValidity_below (repo : History gix) (revision : String) (commit root tree : ObjectId)
    (resolved : resolveCommit repo.toRepository revision = .ok commit)
    (rooted : treeOf repo.toRepository commit = .ok root) (readable : Readable repo root)
    (descends : LookupDescends repo root) :
    ∃ enough, ∀ fuel, enough ≤ fuel →
      (∃ answer, treeContains repo fuel root tree = pure answer) ∧
      (∀ path other, treeValidity repo fuel tree path revision = treeValidity repo fuel tree other revision ∧
        treeValidity repo fuel tree other revision = treeReachable repo fuel tree revision) ∧
      (treeReachable repo fuel tree revision = pure .valid ↔ repo.Below root tree) ∧
      (¬ repo.Below root tree → treeReachable repo fuel tree revision = pure .stale) := by
  obtain ⟨enough, searched⟩ := treeContains_eq repo root tree readable
  refine ⟨enough, ?_⟩
  intro fuel covered
  obtain ⟨answer, returned, exactly⟩ := searched fuel covered
  have reachable : treeReachable repo fuel tree revision = pure (if answer then .valid else .stale) := by
    unfold treeReachable
    rw [resolved]
    simp only [rooted, Walk.of_ok, pure_bind, returned]
  have recorded (path : String) : treeValidity repo fuel tree path revision = treeReachable repo fuel tree revision := by
    rw [reachable]
    unfold treeValidity
    rw [resolved]
    simp only [rooted, Walk.of_ok, pure_bind]
    split
    · next entry looked =>
      split
      · next here =>
        obtain ⟨above, inside, member⟩ := descends path entry looked
        have below : repo.Below root tree := inside.tail ⟨entry, member, here⟩
        rw [if_pos (exactly.mpr below)]
      · rw [returned, pure_bind]
    · rw [returned, pure_bind]
  refine ⟨⟨answer, returned⟩, ?_, ?_, ?_⟩
  · intro path other
    rw [recorded path, recorded other]
    exact ⟨rfl, rfl⟩
  · rw [reachable, ← exactly]
    cases answer with
    | true => exact iff_of_true rfl rfl
    | false => exact iff_of_false (fun same => nomatch Except.ok.inj (Option.some.inj same)) nofun
  · intro unreached
    rw [reachable, if_neg (fun yes => unreached (exactly.mp yes))]

section Sample

/-- Two histories that are merged twice, so that the merges have two best common ancestors,
and trees with one tree in two places. -/
inductive Braid where
  | blob (data : Data)
  | leaf | shelf | top
  | elder | younger | left | right
deriving DecidableEq

def braidParents : Braid → List Braid
  | .left | .right => [.elder, .younger]
  | _ => []

def braidRoot : Braid → Option Braid
  | .elder | .younger | .left | .right => some .top
  | _ => none

def braidItems : Braid → List (Entry Braid)
  | .top => [⟨.commit, .elder⟩, ⟨.tree, .shelf⟩, ⟨.tree, .leaf⟩]
  | .shelf => [⟨.tree, .leaf⟩]
  | .leaf => [⟨.blob, .blob ⟨[], by decide⟩⟩]
  | _ => []

def braidEntry : Braid → String → Option (Entry Braid)
  | .top, path =>
      if path = "leaf" ∨ path = "shelf/leaf" then some ⟨.tree, .leaf⟩
      else if path = "shelf" then some ⟨.tree, .shelf⟩ else none
  | _, _ => none

def braidGix : Gix Braid :=
  { hex := fun _ => "object"
    rootTree := braidRoot
    entryAt := braidEntry
    content := fun id => match id with
      | .blob data => some data
      | _ => none
    blobId := .blob
    changes := fun _ _ => []
    hunks := trimmedHunks
    content_blobId := fun _ => rfl
    hunks_script := trimmedHunks_script
    changes_entry := fun _ _ _ none => nomatch none }

/-- A commit and its parents, the commit first. -/
def braidAncestors (id : Braid) : List Braid := if (braidRoot id).isSome then id :: braidParents id else []

/-- Every revision names the merge `left`. -/
def braidHistory : History braidGix :=
  { revParseSingle := fun _ => some .left
    hasObject := fun _ => true
    peelToCommit := fun id => if (braidRoot id).isSome then some id else none
    tree := fun id => if (braidRoot id).isSome then .ok .top else .error "not a commit"
    lookupEntryByPath := fun root path => .ok (braidEntry root path)
    findBlob := fun id => match id with
      | .blob data => .ok data
      | _ => .error "not a blob"
    diffTreeToTree := fun _ _ => .ok []
    readOnly := none
    workdir := none
    mergeBase := fun one other => (braidAncestors one).find? (fun id => decide (id ∈ braidAncestors other))
    treeItems := fun id => (braidItems id).map .ok
    findTree := fun id => .ok id
    peel_commit := by
      intro id found peeled
      split at peeled
      · next isCommit => exact Option.some.inj peeled ▸ isCommit
      · cases peeled
    peel_self := by
      intro id found peeled _
      split at peeled
      · exact (Option.some.inj peeled).symm
      · cases peeled
    tree_rootTree := by
      intro id root read
      cases id <;> first | exact congrArg some (Except.ok.inj read) | cases read
    lookup_entryAt := fun _ _ _ read => (Except.ok.inj read).symm
    findBlob_content := by
      intro id data read
      cases id with
      | blob found => rw [Except.ok.inj read]; rfl
      | _ => cases read
    diff_changes := fun _ _ _ read => (Except.ok.inj read).symm
    mergeBase_commits := by
      intro one other base found
      have isCommit (id : Braid) (member : base ∈ braidAncestors id) : (braidRoot id).isSome := by
        unfold braidAncestors at member
        split at member
        · assumption
        · cases member
      exact ⟨isCommit one (List.mem_of_find?_eq_some found),
        isCommit other (by simpa using List.find?_some found)⟩
    peel_present := fun _ _ _ => ⟨rfl, rfl⟩
    peel_again := by
      intro id found peeled
      split at peeled
      · next isCommit =>
        obtain rfl := Option.some.inj peeled
        exact if_pos isCommit
      · cases peeled }

theorem braid_reaches (id below : Braid)
    (reached : Ancestry.Reaches (ParentLink braidParents) id below) :
    below = id ∨ below ∈ braidParents id := by
  induction reached with
  | refl => exact .inl rfl
  | tail _ linked ih =>
    rcases ih with rfl | parent
    · exact .inr linked
    · cases id <;> simp only [braidParents, List.mem_cons, List.not_mem_nil, or_false] at parent <;>
        rcases parent with rfl | rfl <;> cases linked

theorem braidHistory_merges : MergeBaseBest braidHistory braidParents := by
  have reaches (id below : Braid) (member : below ∈ braidAncestors id) :
      Ancestry.Reaches (ParentLink braidParents) id below := by
    unfold braidAncestors at member
    split at member
    · rcases List.mem_cons.mp member with rfl | parent
      · exact .refl
      · exact .single parent
    · cases member
  constructor
  · intro one other base found
    have first := List.mem_of_find?_eq_some found
    have second : base ∈ braidAncestors other := by simpa using List.find?_some found
    refine ⟨⟨reaches one base first, reaches other base second⟩, ?_⟩
    intro above common different below
    -- only a merge has parents, and nothing but itself reaches it
    obtain ⟨next, linked, _⟩ := Relation.TransGen.head'_iff.mp below
    have merge : above = .left ∨ above = .right := by
      cases above <;> first | exact .inl rfl | exact .inr rfl | cases linked
    have childless (id : Braid) : above ∉ braidParents id := by
      rcases merge with rfl | rfl <;> cases id <;> simp [braidParents]
    have self (id : Braid) (reached : Ancestry.Reaches (ParentLink braidParents) id above) : above = id :=
      (braid_reaches id above reached).resolve_right (childless id)
    obtain rfl := self one common.1
    obtain rfl := self other common.2
    rcases merge with rfl | rfl <;> exact different (Option.some.inj found)
  · intro one other isOne isOther none node common
    have among (id : Braid) (isCommit : (braidRoot id).isSome) (reached : Ancestry.Reaches (ParentLink braidParents) id node) :
        node ∈ braidAncestors id := by
      rw [braidAncestors, if_pos isCommit]
      rcases braid_reaches id node reached with rfl | parent
      · exact List.mem_cons_self
      · exact List.mem_cons_of_mem _ parent
    have missed := List.find?_eq_none.mp none node (among one isOne common.1)
    exact missed (decide_eq_true (among other isOther common.2))

def braidHeight : Braid → Nat
  | .top => 2
  | .shelf => 1
  | _ => 0

theorem braid_lower (tree below : Braid) (linked : braidHistory.Holds tree below) :
    braidHeight below < braidHeight tree ∧ (below = .shelf ∨ below = .leaf) := by
  obtain ⟨entry, member, isTree, rfl⟩ := linked
  obtain ⟨found, stands, same⟩ := List.mem_map.mp member
  obtain rfl := Except.ok.inj same
  cases tree <;> simp only [braidItems, List.mem_cons, List.not_mem_nil, or_false] at stands
  · rw [stands] at isTree
    cases isTree
  · rw [stands]
    decide
  · rcases stands with rfl | rfl | rfl
    · cases isTree
    · decide
    · decide

theorem braidHistory_readable : Readable braidHistory .top := by
  constructor
  · intro tree _ item member
    obtain ⟨entry, _, same⟩ := List.mem_map.mp member
    exact ⟨entry, same.symm⟩
  · exact fun _ _ => rfl
  · apply Set.Finite.subset (Set.toFinite {Braid.top, .shelf, .leaf})
    intro tree below
    rcases Relation.ReflTransGen.cases_tail below with rfl | ⟨above, _, linked⟩
    · exact .inl rfl
    · exact .inr (braid_lower above tree linked).2
  · intro tree _ cycle
    have descends (below : Braid) (path : Relation.TransGen braidHistory.Holds tree below) :
        braidHeight below < braidHeight tree := by
      induction path with
      | single linked => exact (braid_lower _ _ linked).1
      | tail _ linked ih => exact (braid_lower _ _ linked).1.trans ih
    exact Nat.lt_irrefl _ (descends tree cycle)

theorem braidHistory_descends : LookupDescends braidHistory .top := by
  intro path entry looked
  have found : braidEntry .top path = some entry := Except.ok.inj looked
  have top (id : Braid) (member : (⟨.tree, id⟩ : Entry Braid) ∈ braidItems .top) :
      ∃ tree, braidHistory.Below .top tree ∧ .ok ⟨.tree, id⟩ ∈ braidHistory.treeItems tree :=
    ⟨.top, .refl, List.mem_map_of_mem member⟩
  unfold braidEntry at found
  dsimp only at found
  split at found
  · rw [← Option.some.inj found]
    exact top .leaf (by decide)
  · split at found
    · rw [← Option.some.inj found]
      exact top .shelf (by decide)
    · cases found

/-- A subtree is found under a path where it is not. -/
theorem treeValidity_below_braid : ∃ fuel,
    treeValidity braidHistory fuel .leaf "nowhere" "HEAD" = pure .valid ∧
      treeValidity braidHistory fuel .leaf "leaf" "HEAD" = pure .valid := by
  obtain ⟨enough, covered⟩ := treeValidity_below braidHistory "HEAD" .left .top .leaf rfl rfl
    braidHistory_readable braidHistory_descends
  obtain ⟨_, same, valid, _⟩ := covered enough (Nat.le_refl _)
  have below : braidHistory.Below .top .leaf := .single ⟨⟨.tree, .leaf⟩, by decide, rfl, rfl⟩
  refine ⟨enough, ?_, ?_⟩
  · rw [(same "nowhere" "leaf").1, (same "nowhere" "leaf").2]
    exact valid.mpr below
  · rw [(same "nowhere" "leaf").2]
    exact valid.mpr below

/-- Of the two merges neither descends from the other, though they share both parents. -/
theorem commitValidity_ancestry_braid :
    commitValidity braidHistory .younger "HEAD" = .valid ∧ commitValidity braidHistory .right "HEAD" = .stale := by
  have reached : Ancestry.Reaches (ParentLink braidParents) Braid.left .younger :=
    .single (List.mem_cons_of_mem _ List.mem_cons_self)
  have unreached : ¬ Ancestry.Reaches (ParentLink braidParents) Braid.left .right := by
    intro below
    exact absurd (braid_reaches .left .right below) (by decide)
  exact ⟨(commitValidity_ancestry braidHistory braidParents braidHistory_merges .younger .left "HEAD" rfl rfl rfl).1.mpr reached,
    (commitValidity_ancestry braidHistory braidParents braidHistory_merges .right .left "HEAD" rfl rfl rfl).2 unreached⟩

end Sample

end GitAnchor.Anchoring
