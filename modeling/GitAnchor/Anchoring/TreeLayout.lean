import GitAnchor.Foundation.Layouts
import GitAnchor.Anchoring.TreeDiff

/-! What a stored tree has at each path. A tree is well formed when everything reachable from
it decodes, no tree is below itself, and its entries have distinct plain names. -/

namespace GitAnchor.Anchoring
open GitAnchor.Foundation GitAnchor.Substrate
variable {ObjectId Mode : Type}

/-- A name that can stand between the slashes of a path. -/
def Plainly (name : String) : Prop := name ≠ "" ∧ '/' ∉ name.toList

instance (name : String) : Decidable (Plainly name) :=
  inferInstanceAs (Decidable (name ≠ "" ∧ '/' ∉ name.toList))

/-- The only entry of a name, if there is one and no other. -/
def only (name : String) (named : List (Named ObjectId Mode)) : Option (ObjectId × Mode) :=
  match named.filter (fun entry => entry.1 = name) with
  | [entry] => some entry.2
  | _ => none

/-- The tree that an entry names, where it names one. -/
def ObjectFormat.subtree (format : ObjectFormat ObjectId Mode) : Option (ObjectId × Mode) → Option ObjectId
  | some (id, mode) => if format.isTree mode then some id else none
  | none => none

/-- The path whose names are `names`, below `parent`. -/
def joined (parent : String) (names : List String) : String := names.foldl join parent

/-- The names of a path. -/
def components (path : String) : List String := (path.toList.splitOn '/').map String.ofList

section Store
variable [DecidableEq ObjectId] (format : ObjectFormat ObjectId Mode) (store : Find ObjectId)

/-- The entries of a tree, none where it cannot be read. -/
def children (root : Option ObjectId) : List (Named ObjectId Mode) :=
  match entries format store root with
  | .ok named => named
  | .error _ => []

/-- The entry at a path of names in the tree at `root`. -/
def entryAt : Option ObjectId → Layouts.Layout String (ObjectId × Mode)
  | _, [] => none
  | root, [name] => only name (children format store root)
  | root, name :: next :: rest =>
      match only name (children format store root) with
      | some (id, mode) => if format.isTree mode then entryAt (some id) (next :: rest) else none
      | none => none

/-- The trees below a root: reading them ends, and never fails. -/
inductive WellFormed : Option ObjectId → Prop
  | absent : WellFormed none
  | tree (id : ObjectId) (named : List (Named ObjectId Mode)) (read : entries format store (some id) = .ok named)
      (distinct : (named.map Prod.fst).Nodup) (plain : ∀ entry ∈ named, Plainly entry.1)
      (lower : ∀ entry ∈ named, format.isTree entry.2.2 = true → WellFormed (some entry.2.1)) :
      WellFormed (some id)

/-- Well formed, with at most `depth` trees on a path. -/
def Bounded : Nat → Option ObjectId → Prop
  | _, none => True
  | 0, some _ => False
  | depth + 1, some id => ∃ named, entries format store (some id) = .ok named ∧
      (named.map Prod.fst).Nodup ∧ (∀ entry ∈ named, Plainly entry.1) ∧
      ∀ entry ∈ named, format.isTree entry.2.2 = true → Bounded depth (some entry.2.1)

variable {format store}

theorem bounded_mono (depth more : Nat) (root : Option ObjectId) (fits : depth ≤ more)
    (bounded : Bounded format store depth root) : Bounded format store more root := by
  induction depth generalizing more root with
  | zero =>
    cases root with
    | none => cases more <;> trivial
    | some id => cases bounded
  | succ depth ih =>
    cases root with
    | none => cases more <;> trivial
    | some id =>
      cases more with
      | zero => omega
      | succ more =>
        obtain ⟨named, read, distinct, plain, lower⟩ := bounded
        exact ⟨named, read, distinct, plain, fun entry member isTree =>
          ih more _ (by omega) (lower entry member isTree)⟩

/-- A tree without trees in it. -/
theorem wellFormed_flat (id : ObjectId) (named : List (Named ObjectId Mode))
    (read : entries format store (some id) = .ok named) (distinct : (named.map Prod.fst).Nodup)
    (plain : ∀ entry ∈ named, Plainly entry.1) (flat : ∀ entry ∈ named, format.isTree entry.2.2 = false) :
    WellFormed format store (some id) := by
  refine .tree id named read distinct plain ?_
  intro entry member isTree
  rw [flat entry member] at isTree
  cases isTree

/-- One depth is enough for the trees among finitely many entries. -/
theorem exists_bound (named : List (Named ObjectId Mode))
    (each : ∀ entry ∈ named, format.isTree entry.2.2 = true → ∃ depth, Bounded format store depth (some entry.2.1)) :
    ∃ depth, ∀ entry ∈ named, format.isTree entry.2.2 = true → Bounded format store depth (some entry.2.1) := by
  induction named with
  | nil => exact ⟨0, by simp⟩
  | cons first rest ih =>
    obtain ⟨depth, lower⟩ := ih (fun entry member => each entry (List.mem_cons_of_mem _ member))
    by_cases isTree : format.isTree first.2.2 = true
    · obtain ⟨own, bounded⟩ := each first List.mem_cons_self isTree
      refine ⟨max own depth, ?_⟩
      intro entry member tree
      rcases List.mem_cons.mp member with rfl | further
      · exact bounded_mono own _ _ (Nat.le_max_left _ _) bounded
      · exact bounded_mono depth _ _ (Nat.le_max_right _ _) (lower entry further tree)
    · refine ⟨depth, ?_⟩
      intro entry member tree
      rcases List.mem_cons.mp member with rfl | further
      · exact absurd tree isTree
      · exact lower entry further tree

theorem exists_bounded (root : Option ObjectId) (formed : WellFormed format store root) :
    ∃ depth, Bounded format store depth root := by
  induction formed with
  | absent => exact ⟨0, trivial⟩
  | tree id named read distinct plain _ ih =>
    obtain ⟨depth, lower⟩ := exists_bound named ih
    exact ⟨depth + 1, named, read, distinct, plain, lower⟩

/-- The entries of a bounded tree, and what is known of them. -/
theorem children_of_bounded (depth : Nat) (root : Option ObjectId)
    (bounded : Bounded format store (depth + 1) root) :
    entries format store root = .ok (children format store root) ∧
      ((children format store root).map Prod.fst).Nodup ∧
      (∀ entry ∈ children format store root, Plainly entry.1) ∧
      ∀ entry ∈ children format store root, format.isTree entry.2.2 = true →
        Bounded format store depth (some entry.2.1) := by
  cases root with
  | none => exact ⟨rfl, List.nodup_nil, by simp [children, entries, pure, Except.pure],
      by simp [children, entries, pure, Except.pure]⟩
  | some id =>
    obtain ⟨named, read, distinct, plain, lower⟩ := bounded
    have same : children format store (some id) = named := by
      unfold children
      rw [read]
    rw [same]
    exact ⟨read, distinct, plain, lower⟩

end Store

/-! The only entry of a name. -/

theorem mem_of_only (name : String) (named : List (Named ObjectId Mode)) (found : ObjectId × Mode)
    (there : only name named = some found) : (name, found) ∈ named := by
  unfold only at there
  split at there
  · next entry alone =>
    have member : entry ∈ named.filter (fun entry => entry.1 = name) := by
      rw [alone]
      exact List.mem_singleton_self entry
    obtain ⟨located, same⟩ := List.mem_filter.mp member
    rw [← Option.some.inj there, ← of_decide_eq_true same]
    exact located
  · cases there

theorem only_of_mem (name : String) (named : List (Named ObjectId Mode)) (found : ObjectId × Mode)
    (distinct : (named.map Prod.fst).Nodup) (member : (name, found) ∈ named) : only name named = some found := by
  have alone : named.filter (fun entry => entry.1 = name) = [(name, found)] := by
    induction named with
    | nil => cases member
    | cons first rest ih =>
      rw [List.map_cons, List.nodup_cons] at distinct
      rcases List.mem_cons.mp member with rfl | further
      · rw [List.filter_cons_of_pos (by simp), List.filter_eq_nil_iff.mpr]
        intro entry later same
        exact distinct.1 (List.mem_map.mpr ⟨entry, later, of_decide_eq_true same⟩)
      · have other : ¬ first.1 = name := by
          rintro rfl
          exact distinct.1 (List.mem_map.mpr ⟨_, further, rfl⟩)
        rw [List.filter_cons_of_neg (by simpa using other), ih distinct.2 further]
  unfold only
  rw [alone]

/-! What lies below a name. -/

section Below
variable [DecidableEq ObjectId] {format : ObjectFormat ObjectId Mode} {store : Find ObjectId}

theorem entryAt_none (path : List String) : entryAt format store none path = none := by
  cases path with
  | nil => rfl
  | cons name rest => cases rest <;> rfl

theorem entryAt_singleton (root : Option ObjectId) (name : String) :
    entryAt format store root [name] = only name (children format store root) := rfl

/-- What lies below a name is the tree there, if there is one. -/
theorem below_eq (root : Option ObjectId) (name : String) :
    Layouts.below (entryAt format store root) name =
      entryAt format store (format.subtree (only name (children format store root))) := by
  funext path
  cases path with
  | nil => rfl
  | cons next rest =>
    simp only [Layouts.below, entryAt]
    cases only name (children format store root) with
    | none => exact (entryAt_none _).symm
    | some entry =>
      cases isTree : format.isTree entry.2 with
      | true => simp [ObjectFormat.subtree, isTree]
      | false => simp [ObjectFormat.subtree, isTree, entryAt_none]

/-- What is at a longer path is what the tree at its first name has at the rest. -/
theorem entryAt_cons (root : Option ObjectId) (name : String) (rest : List String) (further : rest ≠ []) :
    entryAt format store root (name :: rest) =
      entryAt format store (format.subtree (entryAt format store root [name])) rest := by
  rw [entryAt_singleton, ← below_eq, Layouts.below_of_ne_nil _ further]

/-- Whatever is at a path, its names are plain. -/
theorem plain_of_entryAt (depth : Nat) (root : Option ObjectId) (bounded : Bounded format store depth root)
    (path : List String) (found : ObjectId × Mode) (there : entryAt format store root path = some found) :
    ∀ name ∈ path, Plainly name := by
  induction depth generalizing root path with
  | zero =>
    cases root with
    | none =>
      rw [entryAt_none] at there
      cases there
    | some id => cases bounded
  | succ depth ih =>
    obtain ⟨_, _, plain, lower⟩ := children_of_bounded depth root bounded
    cases path with
    | nil => cases there
    | cons name rest =>
      cases rest with
      | nil =>
        intro other member
        rw [List.mem_singleton.mp member]
        exact plain _ (mem_of_only name _ found there)
      | cons next rest =>
        rw [entryAt] at there
        cases first : only name (children format store root) with
        | none => simp [first] at there
        | some entry =>
          obtain ⟨id, mode⟩ := entry
          have located := mem_of_only name _ _ first
          simp only [first] at there
          split at there
          · next isTree =>
            have later := ih (some id) (lower _ located isTree) (next :: rest) there
            intro other member
            rcases List.mem_cons.mp member with rfl | further
            · exact plain _ located
            · exact later other further
          · cases there

end Below

/-! Paths and their names. -/

theorem toList_joined (parent : String) (names : List String) (some_parent : parent ≠ "") :
    (joined parent names).toList = parent.toList ++ names.flatMap (fun name => '/' :: name.toList) := by
  induction names generalizing parent with
  | nil => simp [joined]
  | cons name rest ih =>
    have extended : join parent name = parent ++ "/" ++ name := by
      simp [join, some_parent]
    have longer : join parent name ≠ "" := by
      rw [extended]
      intro empty
      have lists := congrArg String.toList empty
      simp at lists
    rw [joined, List.foldl_cons]
    have later := ih (join parent name) longer
    rw [joined] at later
    rw [later, extended]
    simp [String.toList_append]

theorem intercalate_cons (first : List Char) (rest : List (List Char)) :
    ['/'].intercalate (first :: rest) = first ++ rest.flatMap (fun word => '/' :: word) := by
  induction rest generalizing first with
  | nil => simp
  | cons next later ih =>
    rw [List.intercalate_cons_cons, ih]
    simp

/-- A path has the names it was put together from. -/
theorem components_joined (names : List String) (some_name : names ≠ []) (plain : ∀ name ∈ names, Plainly name) :
    components (joined "" names) = names := by
  cases names with
  | nil => exact absurd rfl some_name
  | cons first rest =>
    have root : join "" first = first := by simp [join]
    have spelled : (joined "" (first :: rest)).toList =
        ['/'].intercalate ((first :: rest).map String.toList) := by
      rw [joined, List.foldl_cons, root, List.map_cons, intercalate_cons]
      have later := toList_joined first rest (plain first List.mem_cons_self).1
      rw [joined] at later
      rw [later, List.flatMap_map]
    unfold components
    rw [spelled, List.splitOn_intercalate]
    · rw [List.map_map]
      simp [Function.comp_def]
    · intro word member
      obtain ⟨name, located, rfl⟩ := List.mem_map.mp member
      exact (plain name located).2
    · simp

theorem joined_injective (names others : List String) (some_name : names ≠ []) (some_other : others ≠ [])
    (plain : ∀ name ∈ names, Plainly name) (plain' : ∀ name ∈ others, Plainly name)
    (same : joined "" names = joined "" others) : names = others := by
  rw [← components_joined names some_name plain, same, components_joined others some_other plain']

theorem joined_append (parent : String) (names rest : List String) :
    joined parent (names ++ rest) = joined (joined parent names) rest := List.foldl_append

end GitAnchor.Anchoring
