import GitAnchor.Anchoring.TreeDiffExact

/-! Replaying a tree diff on the listing of the base: it gives the listing of the head, modes
included, exactly where no entry changed its mode and kept its object id. -/

namespace GitAnchor.Anchoring
open GitAnchor.Foundation GitAnchor.Substrate
variable {ObjectId Mode : Type} [DecidableEq ObjectId]

section Listing
variable (format : ObjectFormat ObjectId Mode) (store : Find ObjectId)

/-- The entries of a tree that are not trees, with ids and modes, by full path. -/
def listing (root : Option ObjectId) : Layouts.Layout String (ObjectId × Mode) :=
  Layouts.leaves format.dir (entryAt format store root)

/-- The listing of `base` with every change made to it: what `base` had at the path goes, with
everything under it, and what `head` has there comes in its place. -/
def replayed (base : Option ObjectId) (changes : List (TreeChange ObjectId Mode)) :
    Layouts.Layout String (ObjectId × Mode) :=
  Layouts.replay format.dir (fun entry => entryAt format store (some entry.1)) (listing format store base)
    (changes.map (fun change => (components change.path, change.head)))

/-- Where both trees have an object at a path, they have it under one mode, if not as trees. -/
def ModesKept (base head : Option ObjectId) : Prop :=
  Layouts.Kept Prod.fst format.dir (entryAt format store base) (entryAt format store head)

end Listing

variable {format : ObjectFormat ObjectId Mode} {store : Find ObjectId}

/-- What is at a longer path is what the tree at a shorter one has at the rest. -/
theorem entryAt_append (root : Option ObjectId) (above rest : List String) (somewhere : above ≠ []) (further : rest ≠ []) :
    entryAt format store root (above ++ rest) =
      entryAt format store (format.subtree (entryAt format store root above)) rest := by
  induction above generalizing root with
  | nil => exact absurd rfl somewhere
  | cons name others ih =>
    by_cases last : others = []
    · rw [last]
      exact entryAt_cons root name rest further
    · have longer : others ++ rest ≠ [] := fun empty => further (List.append_eq_nil_iff.mp empty).2
      rw [List.cons_append, entryAt_cons root name (others ++ rest) longer, ih _ last,
        entryAt_cons root name others last]

theorem nested_entryAt (root : Option ObjectId) : Layouts.Nested format.dir (entryAt format store root) := by
  intro above rest entry somewhere further there
  rw [entryAt_append root above rest somewhere further] at there
  cases parent : entryAt format store root above with
  | none =>
    rw [parent, ObjectFormat.subtree, entryAt_none] at there
    cases there
  | some found =>
    refine ⟨found, rfl, ?_⟩
    cases isTree : format.isTree found.2 with
    | true => exact isTree
    | false =>
      simp only [parent, ObjectFormat.subtree, isTree] at there
      rw [if_neg Bool.false_ne_true, entryAt_none] at there
      cases there

theorem holds_entryAt (root : Option ObjectId) :
    Layouts.Holds format.dir (fun entry => entryAt format store (some entry.1)) (entryAt format store root) := by
  intro path entry rest there isTree further
  have somewhere : path ≠ [] := by
    rintro rfl
    cases root <;> cases there
  rw [entryAt_append root path rest somewhere further, there]
  simp only [ObjectFormat.subtree, if_pos (show format.isTree entry.2 = true from isTree)]

theorem entryAt_nil (root : Option ObjectId) : entryAt format store root [] = none := by
  cases root <;> rfl

/-- Replaying the diff gives the listing of the head, and an empty diff means equal listings,
exactly when modes are kept. -/
theorem replayed_diffTrees_iff (base head : Option ObjectId) (formed : WellFormed format store base)
    (formed' : WellFormed format store head) :
    ∃ changes, (∃ enough, ∀ fuel ≥ enough, ∀ order, diffTrees format store fuel order base head = pure changes) ∧
      ((replayed format store base changes = listing format store head ∧
          (changes = [] → listing format store base = listing format store head)) ↔
        ModesKept format store base head) := by
  obtain ⟨changes, ⟨listed, _⟩, enough, ran⟩ := diffTrees_reports base head formed formed'
  refine ⟨changes, ⟨enough, fun fuel fits order => ran fuel fits order base head (.inl rfl) (.inl rfl)⟩, ?_⟩
  obtain ⟨depth, bounded⟩ := exists_bounded base formed
  obtain ⟨depth', bounded'⟩ := exists_bounded head formed'
  have named (path : List String) (changed : TreeChanged format store base head path) :
      components (joined "" path) = path :=
    components_joined path (ne_nil_of_treeChanged changed)
      (plain_of_treeChanged (max depth depth') (bounded_mono depth _ base (Nat.le_max_left _ _) bounded)
        (bounded_mono depth' _ head (Nat.le_max_right _ _) bounded') path changed)
  have edits : ∀ edit, edit ∈ changes.map (fun change => (components change.path, change.head)) ↔
      TreeChanged format store base head edit.1 ∧ edit.2 = entryAt format store head edit.1 := by
    rintro ⟨path, put⟩
    rw [List.mem_map]
    constructor
    · rintro ⟨change, member, same⟩
      obtain ⟨there, changed, rfl⟩ := (listed change).mp member
      obtain ⟨rfl, rfl⟩ := Prod.mk.inj same
      simp only [changeAt, named there changed, and_true]
      exact changed
    · rintro ⟨changed, same⟩
      dsimp only at changed same
      subst same
      refine ⟨changeAt format store base head "" path, (listed _).mpr ⟨path, changed, rfl⟩, ?_⟩
      simp only [changeAt, named path changed]
  have exactly : replayed format store base changes = listing format store head ↔ ModesKept format store base head :=
    Layouts.replay_changes_iff _ (entryAt_nil base) (entryAt_nil head) (nested_entryAt base) (nested_entryAt head)
      (holds_entryAt head) edits
  constructor
  · rintro ⟨same, _⟩
    exact exactly.mp same
  · intro kept
    have same := exactly.mpr kept
    refine ⟨same, ?_⟩
    rintro rfl
    exact same

/-- One file that becomes executable, and another that is edited. -/
def modeTrees : Find Bytes := treesOf
  [(sha1 1, [⟨[97], sha1 7, .blob⟩]), (sha1 2, [⟨[97], sha1 7, .blobExecutable⟩]), (sha1 3, [⟨[97], sha1 8, .blob⟩])]

theorem modeTrees_base : WellFormed sha1Trees modeTrees (some (sha1 1)) :=
  wellFormed_flat _ [("a", sha1 7, .blob)] (by decide +kernel) (by decide) (by decide) (by decide)

theorem modeTrees_edited : WellFormed sha1Trees modeTrees (some (sha1 3)) :=
  wellFormed_flat _ [("a", sha1 8, .blob)] (by decide +kernel) (by decide) (by decide) (by decide)

/-- An edited file is replayed. -/
theorem replayed_diffTrees_edited :
    ∃ changes, (∃ enough, ∀ fuel ≥ enough, ∀ order,
        diffTrees sha1Trees modeTrees fuel order (some (sha1 1)) (some (sha1 3)) = pure changes) ∧
      ((replayed sha1Trees modeTrees (some (sha1 1)) changes = listing sha1Trees modeTrees (some (sha1 3)) ∧
          (changes = [] → listing sha1Trees modeTrees (some (sha1 1)) = listing sha1Trees modeTrees (some (sha1 3)))) ↔
        ModesKept sha1Trees modeTrees (some (sha1 1)) (some (sha1 3))) :=
  replayed_diffTrees_iff (some (sha1 1)) (some (sha1 3)) modeTrees_base modeTrees_edited

/-- A file that only becomes executable is no change, and the listings differ. -/
theorem mode_change_not_replayed :
    WellFormed sha1Trees modeTrees (some (sha1 1)) ∧ WellFormed sha1Trees modeTrees (some (sha1 2)) ∧
      (diffTrees sha1Trees modeTrees 2 .asHeld (some (sha1 1)) (some (sha1 2))).run = some (.ok []) ∧
      replayed sha1Trees modeTrees (some (sha1 1)) [] ≠ listing sha1Trees modeTrees (some (sha1 2)) ∧
      listing sha1Trees modeTrees (some (sha1 1)) ≠ listing sha1Trees modeTrees (some (sha1 2)) := by
  have before : listing sha1Trees modeTrees (some (sha1 1)) ["a"] = some (sha1 7, .blob) := by decide +kernel
  have after : listing sha1Trees modeTrees (some (sha1 2)) ["a"] = some (sha1 7, .blobExecutable) := by decide +kernel
  have differ : listing sha1Trees modeTrees (some (sha1 1)) ≠ listing sha1Trees modeTrees (some (sha1 2)) := by
    intro same
    rw [same, after] at before
    cases before
  refine ⟨modeTrees_base, ?_, by decide +kernel, differ, differ⟩
  exact wellFormed_flat _ [("a", sha1 7, .blobExecutable)] (by decide +kernel) (by decide) (by decide) (by decide)

end GitAnchor.Anchoring
