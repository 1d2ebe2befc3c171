import GitAnchor.Anchoring.TreeLayout
import GitAnchor.Anchoring.TreeObjects

/-! What the tree diff lists: exactly the paths where the two trees have different ids and
neither side has only more below, each once and in order, whatever the order in which the
hash maps are drained. -/

namespace GitAnchor.Anchoring
open GitAnchor.Foundation GitAnchor.Substrate
variable {ObjectId Mode : Type}

/-- The entry is a tree, with entries of its own below it. -/
def ObjectFormat.dir (format : ObjectFormat ObjectId Mode) (entry : ObjectId × Mode) : Bool :=
  format.isTree entry.2

variable [DecidableEq ObjectId] {format : ObjectFormat ObjectId Mode} {store : Find ObjectId}

/-- The path is one of those the diff has to list. -/
def TreeChanged (format : ObjectFormat ObjectId Mode) (store : Find ObjectId) (base head : Option ObjectId)
    (path : List String) : Prop :=
  Layouts.Changed Prod.fst format.dir (entryAt format store base) (entryAt format store head) path

/-- The change to report at a path. -/
def changeAt (format : ObjectFormat ObjectId Mode) (store : Find ObjectId) (base head : Option ObjectId)
    (parent : String) (path : List String) : TreeChange ObjectId Mode :=
  ⟨joined parent path, entryAt format store base path, entryAt format store head path⟩

/-- The list has every change below `parent` that there is to report, each at a path of its own. -/
structure Lists (format : ObjectFormat ObjectId Mode) (store : Find ObjectId) (base head : Option ObjectId)
    (parent : String) (reported : List String → Prop) (found : List (TreeChange ObjectId Mode)) : Prop where
  distinct : (found.map TreeChange.path).Nodup
  listed : ∀ change, change ∈ found ↔
    ∃ path, TreeChanged format store base head path ∧ reported path ∧ change = changeAt format store base head parent path

/-! One name. -/

theorem ne_nil_of_treeChanged {base head : Option ObjectId} {path : List String}
    (changed : TreeChanged format store base head path) : path ≠ [] := by
  rintro rfl
  refine Layouts.not_changed_nil ?_ ?_ changed
  · cases base <;> rfl
  · cases head <;> rfl

/-- A change below a name, seen from above it. -/
theorem changeAt_cons (base head : Option ObjectId) (parent name : String) (rest : List String) (further : rest ≠ []) :
    changeAt format store (format.subtree (entryAt format store base [name]))
      (format.subtree (entryAt format store head [name])) (join parent name) rest =
      changeAt format store base head parent (name :: rest) := by
  unfold changeAt
  rw [← entryAt_cons base name rest further, ← entryAt_cons head name rest further]
  rfl

omit [DecidableEq ObjectId] in
/-- Where the ids agree and neither side is replaced, the trees below are the same. -/
theorem subtree_eq_of_alike {base head : Layouts.Layout String (ObjectId × Mode)} {path : List String}
    (alike : Layouts.Alike Prod.fst base head path) (kept : ¬ Layouts.Replaced format.dir base head path) :
    format.subtree (base path) = format.subtree (head path) := by
  unfold Layouts.Alike at alike
  cases here : base path with
  | none =>
    rw [here, Option.map_none] at alike
    rw [Option.map_eq_none_iff.mp alike.symm]
  | some old =>
    rw [here, Option.map_some] at alike
    obtain ⟨new, there, same⟩ := Option.map_eq_some_iff.mp alike.symm
    have kind : format.isTree old.2 = format.isTree new.2 := by
      by_contra differ
      exact kept ⟨old, new, here, there, differ⟩
    rw [there]
    simp only [ObjectFormat.subtree, kind, same]

omit [DecidableEq ObjectId] in
theorem not_replaced_of_descends {base head : Layouts.Layout String (ObjectId × Mode)} {path : List String}
    (descends : Layouts.Descends format.dir base head path) : ¬ Layouts.Replaced format.dir base head path := by
  rintro ⟨old, new, here, there, differ⟩
  rcases descends with ⟨old', new', here', there', isDir, isDir'⟩ | ⟨_, _, absent, _⟩ | ⟨_, absent, _, _⟩
  · rw [here] at here'
    rw [there] at there'
    rw [Option.some.inj here', Option.some.inj there', isDir, isDir'] at differ
    exact differ rfl
  · rw [there] at absent
    cases absent
  · rw [here] at absent
    cases absent

omit [DecidableEq ObjectId] in
/-- Where the two sides differ and neither is replaced or has more below, there are no trees. -/
theorem subtree_eq_none {base head : Layouts.Layout String (ObjectId × Mode)} {path : List String}
    (ends : ¬ Layouts.Descends format.dir base head path) (kept : ¬ Layouts.Replaced format.dir base head path) :
    format.subtree (base path) = none ∧ format.subtree (head path) = none := by
  cases here : base path with
  | none =>
    cases there : head path with
    | none => exact ⟨rfl, rfl⟩
    | some new =>
      cases isTree : format.isTree new.2 with
      | true => exact absurd (.inr (.inr ⟨new, here, there, isTree⟩)) ends
      | false => exact ⟨rfl, by simp [ObjectFormat.subtree, isTree]⟩
  | some old =>
    cases isTree : format.isTree old.2 with
    | true =>
      cases there : head path with
      | none => exact absurd (.inr (.inl ⟨old, here, there, isTree⟩)) ends
      | some new =>
        cases isTree' : format.isTree new.2 with
        | true => exact absurd (.inl ⟨old, new, here, there, isTree, isTree'⟩) ends
        | false => exact absurd ⟨old, new, here, there, by simp [ObjectFormat.dir, isTree, isTree']⟩ kept
    | false =>
      cases there : head path with
      | none => exact ⟨by simp [ObjectFormat.subtree, isTree], rfl⟩
      | some new =>
        cases isTree' : format.isTree new.2 with
        | true => exact absurd ⟨old, new, here, there, by simp [ObjectFormat.dir, isTree, isTree']⟩ kept
        | false => exact ⟨by simp [ObjectFormat.subtree, isTree], by simp [ObjectFormat.subtree, isTree']⟩

/-- At one name: nothing where the ids agree, a descent where only what is below can differ,
and otherwise one change. -/
theorem changesAt_cases (descend : Option ObjectId → Option ObjectId → Walk ObjectId (List (TreeChange ObjectId Mode)))
    (path : String) (root root' : Option ObjectId) (name : String) :
    (Layouts.Alike Prod.fst (entryAt format store root) (entryAt format store root') [name] ∧
      changesAt format descend path (entryAt format store root [name]) (entryAt format store root' [name]) = pure []) ∨
    (¬ Layouts.Alike Prod.fst (entryAt format store root) (entryAt format store root') [name] ∧
      Layouts.Descends format.dir (entryAt format store root) (entryAt format store root') [name] ∧
      changesAt format descend path (entryAt format store root [name]) (entryAt format store root' [name]) =
        descend (format.subtree (entryAt format store root [name])) (format.subtree (entryAt format store root' [name]))) ∨
    (¬ Layouts.Alike Prod.fst (entryAt format store root) (entryAt format store root') [name] ∧
      ¬ Layouts.Descends format.dir (entryAt format store root) (entryAt format store root') [name] ∧
      changesAt format descend path (entryAt format store root [name]) (entryAt format store root' [name]) =
        pure [⟨path, entryAt format store root [name], entryAt format store root' [name]⟩]) := by
  unfold Layouts.Alike Layouts.Descends
  generalize entryAt format store root [name] = base
  generalize entryAt format store root' [name] = head
  cases base with
  | none =>
    cases head with
    | none => simp [changesAt]
    | some new => cases isTree : format.isTree new.2 <;> simp [changesAt, ObjectFormat.subtree, ObjectFormat.dir, isTree]
  | some old =>
    cases head with
    | none => cases isTree : format.isTree old.2 <;> simp [changesAt, ObjectFormat.subtree, ObjectFormat.dir, isTree]
    | some new =>
      by_cases same : old.1 = new.1
      · simp [changesAt, same]
      · cases isTree : format.isTree old.2 <;> cases isTree' : format.isTree new.2 <;>
          simp [changesAt, ObjectFormat.subtree, ObjectFormat.dir, isTree, isTree', same]

theorem alone_or_further {name : String} {path : List String} (named : path.head? = some name) :
    path = [name] ∨ ∃ rest, rest ≠ [] ∧ path = name :: rest := by
  cases path with
  | nil => cases named
  | cons first rest =>
    obtain rfl := Option.some.inj named
    by_cases last : rest = []
    · exact .inl (by rw [last])
    · exact .inr ⟨rest, last, rfl⟩

/-- A change below a name is one of the trees there, unless the name is replaced as a whole. -/
theorem treeChanged_cons_iff (base head : Option ObjectId) (name : String) (rest : List String) (further : rest ≠ []) :
    TreeChanged format store base head (name :: rest) ↔
      ¬ Layouts.Replaced format.dir (entryAt format store base) (entryAt format store head) [name] ∧
        TreeChanged format store (format.subtree (entryAt format store base [name]))
          (format.subtree (entryAt format store head [name])) rest := by
  unfold TreeChanged
  rw [Layouts.changed_cons further rfl, below_eq, below_eq]
  rfl

/-- What the walk finds at a name is what there is to report there, if its descent is right. -/
theorem changesAt_lists (base head : Option ObjectId) (parent name : String)
    (descend : Option ObjectId → Option ObjectId → Walk ObjectId (List (TreeChange ObjectId Mode)))
    (lower : ∃ found, descend (format.subtree (entryAt format store base [name]))
        (format.subtree (entryAt format store head [name])) = pure found ∧
      Lists format store (format.subtree (entryAt format store base [name]))
        (format.subtree (entryAt format store head [name])) (join parent name) (fun _ => True) found) :
    ∃ found, changesAt format descend (join parent name) (entryAt format store base [name])
        (entryAt format store head [name]) = pure found ∧
      Lists format store base head parent (fun path => path.head? = some name) found := by
  rcases changesAt_cases descend (join parent name) base head name with
    ⟨alike, none_found⟩ | ⟨unlike, descends, went⟩ | ⟨unlike, ends, one⟩
  · refine ⟨[], none_found, List.nodup_nil, ?_⟩
    intro change
    refine iff_of_false List.not_mem_nil ?_
    rintro ⟨path, changed, named, _⟩
    rcases alone_or_further named with rfl | ⟨rest, further, rfl⟩
    · exact changed.1 alike
    · obtain ⟨kept, lower_changed⟩ := (treeChanged_cons_iff base head name rest further).mp changed
      refine Layouts.not_changed_of_eq rest ?_ lower_changed
      rw [subtree_eq_of_alike alike kept]
  · obtain ⟨found, walked, distinct, listed⟩ := lower
    refine ⟨found, went.trans walked, distinct, ?_⟩
    intro change
    rw [listed]
    constructor
    · rintro ⟨rest, changed, _, rfl⟩
      have further := ne_nil_of_treeChanged changed
      refine ⟨name :: rest, (treeChanged_cons_iff base head name rest further).mpr ⟨not_replaced_of_descends descends, changed⟩, rfl, ?_⟩
      exact changeAt_cons base head parent name rest further
    · rintro ⟨path, changed, named, rfl⟩
      rcases alone_or_further named with rfl | ⟨rest, further, rfl⟩
      · exact absurd descends changed.2.1
      · exact ⟨rest, ((treeChanged_cons_iff base head name rest further).mp changed).2, trivial,
          (changeAt_cons base head parent name rest further).symm⟩
  · refine ⟨_, one, List.nodup_singleton _, ?_⟩
    intro change
    rw [List.mem_singleton]
    constructor
    · rintro rfl
      exact ⟨[name], (Layouts.changed_singleton rfl).mpr ⟨unlike, ends⟩, rfl, rfl⟩
    · rintro ⟨path, changed, named, rfl⟩
      rcases alone_or_further named with rfl | ⟨rest, further, rfl⟩
      · rfl
      · obtain ⟨kept, lower_changed⟩ := (treeChanged_cons_iff base head name rest further).mp changed
        obtain ⟨empty, empty'⟩ := subtree_eq_none ends kept
        rw [empty, empty'] at lower_changed
        exact absurd lower_changed (Layouts.not_changed_of_eq rest rfl)

/-! The two loops. -/

section Loops
variable (descend : String → Option ObjectId → Option ObjectId → Walk ObjectId (List (TreeChange ObjectId Mode)))
  (parent : String) (here : String → List (TreeChange ObjectId Mode))

variable (format) in
/-- The loop over the head finds what there is at each of its names. -/
theorem headLoop_pure (named : List (Named ObjectId Mode)) (remaining : Remaining ObjectId Mode)
    (distinct : (named.map Prod.fst).Nodup)
    (each : ∀ entry ∈ named, changesAt format (descend entry.1) (join parent entry.1) (remaining.lookup entry.1)
      (some entry.2) = pure (here entry.1)) :
    headLoop format descend parent named remaining =
      pure ((named.map Prod.fst).flatMap here, leftover (named.map Prod.fst) remaining) := by
  induction named generalizing remaining with
  | nil => rfl
  | cons first rest ih =>
    obtain ⟨name, entry⟩ := first
    rw [List.map_cons, List.nodup_cons] at distinct
    have later := ih (remaining.erase name) distinct.2 (by
      intro other member
      have differ : other.1 ≠ name := by
        rintro rfl
        exact distinct.1 (List.mem_map.mpr ⟨other, member, rfl⟩)
      rw [AList.lookup_erase_ne differ]
      exact each other (List.mem_cons_of_mem _ member))
    rw [headLoop, each _ List.mem_cons_self, later]
    rfl

variable (format) in
/-- The loop over what is left of the base finds what there is at each of its names. -/
theorem drainLoop_pure (drained : List ((_ : String) × (ObjectId × Mode)))
    (each : ∀ entry ∈ drained, changesAt format (descend entry.1) (join parent entry.1) (some entry.2) none =
      pure (here entry.1)) :
    drainLoop format descend parent drained = pure ((drained.map Sigma.fst).flatMap here) := by
  induction drained with
  | nil => rfl
  | cons first rest ih =>
    rw [drainLoop, each _ List.mem_cons_self, ih (fun entry member => each entry (List.mem_cons_of_mem _ member))]
    rfl

end Loops

/-! The whole walk. -/

omit [DecidableEq ObjectId] in
/-- The map of a tree with distinct names holds what the tree has under each. -/
theorem lookup_collect (named : List (Named ObjectId Mode)) (distinct : (named.map Prod.fst).Nodup) (name : String) :
    (collect named).lookup name = only name named := by
  cases there : (collect named).lookup name with
  | some found => exact (only_of_mem name named found distinct (mem_of_lookup_collect named name found there)).symm
  | none =>
    symm
    rw [Option.eq_none_iff_forall_ne_some]
    intro found alone
    exact not_mem_of_lookup_collect named name there (List.mem_map.mpr ⟨_, mem_of_only name named found alone, rfl⟩)

theorem bounded_subtree (depth : Nat) (root : Option ObjectId) (bounded : Bounded format store (depth + 1) root)
    (name : String) : Bounded format store depth (format.subtree (entryAt format store root [name])) := by
  obtain ⟨_, _, _, lower⟩ := children_of_bounded depth root bounded
  rw [entryAt_singleton]
  cases there : only name (children format store root) with
  | none => cases depth <;> trivial
  | some entry =>
    cases isTree : format.isTree entry.2 with
    | false =>
      simp only [ObjectFormat.subtree, isTree]
      cases depth <;> trivial
    | true =>
      simp only [ObjectFormat.subtree, isTree, if_true]
      exact lower _ (mem_of_only name _ entry there) isTree

theorem plain_of_treeChanged (depth : Nat) {base head : Option ObjectId} (bounded : Bounded format store depth base)
    (bounded' : Bounded format store depth head) (path : List String)
    (changed : TreeChanged format store base head path) : ∀ name ∈ path, Plainly name := by
  cases here : entryAt format store base path with
  | some old => exact plain_of_entryAt depth base bounded path old here
  | none =>
    cases there : entryAt format store head path with
    | some new => exact plain_of_entryAt depth head bounded' path new there
    | none => exact absurd changed (Layouts.not_changed_of_eq path (here.trans there.symm))

/-- What is found name by name is what there is to report, if every name is among them. -/
theorem lists_flatMap (depth : Nat) (above : List String) (base head : Option ObjectId)
    (names : List String) (here : String → List (TreeChange ObjectId Mode))
    (bounded : Bounded format store depth base) (bounded' : Bounded format store depth head)
    (plain : ∀ name ∈ above, Plainly name) (distinct : names.Nodup)
    (each : ∀ name ∈ names, Lists format store base head (joined "" above) (fun path => path.head? = some name) (here name))
    (every : ∀ name, name ∉ names →
      entryAt format store base [name] = none ∧ entryAt format store head [name] = none) :
    Lists format store base head (joined "" above) (fun _ => True) (names.flatMap here) := by
  refine ⟨?_, ?_⟩
  · rw [List.map_flatMap, List.nodup_flatMap]
    refine ⟨fun name member => (each name member).distinct, ?_⟩
    refine List.Pairwise.imp_of_mem ?_ distinct
    intro name other member member' differ path found found'
    obtain ⟨change, among, rfl⟩ := List.mem_map.mp found
    obtain ⟨change', among', same⟩ := List.mem_map.mp found'
    obtain ⟨path, changed, named, rfl⟩ := ((each name member).listed change).mp among
    obtain ⟨path', changed', named', rfl⟩ := ((each other member').listed change').mp among'
    simp only [changeAt, ← joined_append] at same
    have whole := joined_injective (above ++ path') (above ++ path)
      (by simp [ne_nil_of_treeChanged changed']) (by simp [ne_nil_of_treeChanged changed])
      (by
        intro name member
        rcases List.mem_append.mp member with upper | lower
        · exact plain name upper
        · exact plain_of_treeChanged depth bounded bounded' path' changed' name lower)
      (by
        intro name member
        rcases List.mem_append.mp member with upper | lower
        · exact plain name upper
        · exact plain_of_treeChanged depth bounded bounded' path changed name lower) same
    rw [List.append_cancel_left whole, named] at named'
    exact differ (Option.some.inj named')
  · intro change
    rw [List.mem_flatMap]
    constructor
    · rintro ⟨name, member, found⟩
      obtain ⟨path, changed, _, rfl⟩ := ((each name member).listed change).mp found
      exact ⟨path, changed, trivial, rfl⟩
    · rintro ⟨path, changed, _, rfl⟩
      cases path with
      | nil => exact absurd rfl (ne_nil_of_treeChanged changed)
      | cons name rest =>
        have member : name ∈ names := by
          by_contra missing
          obtain ⟨nothing, nothing'⟩ := every name missing
          refine Layouts.not_changed_of_eq (name :: rest) ?_ changed
          by_cases last : rest = []
          · rw [last, nothing, nothing']
          · rw [entryAt_cons base name rest last, entryAt_cons head name rest last, nothing, nothing']
        exact ⟨name, member, ((each name member).listed _).mpr ⟨_, changed, rfl, rfl⟩⟩

/-! What one call of the walk visits. -/

/-- The base entries that a walk drains: those that no head entry has taken. -/
def drained (order : Order ObjectId Mode) (base head : List (Named ObjectId Mode)) :
    List ((_ : String) × (ObjectId × Mode)) :=
  order.drain [] (leftover (head.map Prod.fst) (collect base)).entries

/-- The names a walk visits, in its order. -/
def visited (order : Order ObjectId Mode) (base head : List (Named ObjectId Mode)) : List String :=
  head.map Prod.fst ++ (drained order base head).map Sigma.fst

omit [DecidableEq ObjectId] in
theorem only_eq_none (name : String) (named : List (Named ObjectId Mode)) (missing : name ∉ named.map Prod.fst) :
    only name named = none := by
  rw [Option.eq_none_iff_forall_ne_some]
  intro found alone
  exact missing (List.mem_map.mpr ⟨_, mem_of_only name named found alone, rfl⟩)

omit [DecidableEq ObjectId] in
theorem mem_drained_iff (order : Order ObjectId Mode) (base head : List (Named ObjectId Mode))
    (distinct : (base.map Prod.fst).Nodup) (entry : (_ : String) × (ObjectId × Mode)) :
    entry ∈ drained order base head ↔ entry.1 ∉ head.map Prod.fst ∧ only entry.1 base = some entry.2 := by
  have located : entry ∈ (leftover (head.map Prod.fst) (collect base)).entries ↔
      (leftover (head.map Prod.fst) (collect base)).lookup entry.1 = some entry.2 := AList.mem_lookup_iff.symm
  rw [drained, (order.perm [] _).mem_iff, located, lookup_leftover, lookup_collect base distinct]
  by_cases member : entry.1 ∈ head.map Prod.fst <;> simp [member]

omit [DecidableEq ObjectId] in
theorem visited_nodup (order : Order ObjectId Mode) (base head : List (Named ObjectId Mode))
    (distinct : (base.map Prod.fst).Nodup) (distinct' : (head.map Prod.fst).Nodup) :
    (visited order base head).Nodup := by
  refine List.nodup_append'.mpr ⟨distinct', ?_, ?_⟩
  · exact ((order.perm [] _).map Sigma.fst).nodup_iff.mpr (AList.nodupKeys _)
  · intro name member member'
    obtain ⟨entry, drain, rfl⟩ := List.mem_map.mp member'
    exact ((mem_drained_iff order base head distinct entry).mp drain).1 member

omit [DecidableEq ObjectId] in
/-- A name that is not visited is a name of neither tree. -/
theorem only_eq_none_of_not_visited (order : Order ObjectId Mode) (base head : List (Named ObjectId Mode))
    (distinct : (base.map Prod.fst).Nodup) (name : String) (missing : name ∉ visited order base head) :
    only name base = none ∧ only name head = none := by
  rw [visited, List.mem_append, not_or] at missing
  refine ⟨?_, only_eq_none name head missing.1⟩
  rw [Option.eq_none_iff_forall_ne_some]
  intro found there
  have drain := (mem_drained_iff order base head distinct ⟨name, found⟩).mpr ⟨missing.1, there⟩
  exact missing.2 (List.mem_map.mpr ⟨_, drain, rfl⟩)

omit [DecidableEq ObjectId] in
theorem plainly_of_visited (order : Order ObjectId Mode) (base head : List (Named ObjectId Mode))
    (distinct : (base.map Prod.fst).Nodup) (plain : ∀ entry ∈ base, Plainly entry.1)
    (plain' : ∀ entry ∈ head, Plainly entry.1) (name : String) (member : name ∈ visited order base head) :
    Plainly name := by
  rcases List.mem_append.mp member with upper | lower
  · obtain ⟨entry, located, rfl⟩ := List.mem_map.mp upper
    exact plain' entry located
  · obtain ⟨entry, drain, rfl⟩ := List.mem_map.mp lower
    exact plain _ (mem_of_only _ _ _ ((mem_drained_iff order base head distinct entry).mp drain).2)

/-- A walk of two trees that differ returns what there is at each of the names it visits. -/
theorem walk_eq_flatMap (fuel : Nat) (order : Order ObjectId Mode) (parent : String) (base head : Option ObjectId)
    (differ : base ≠ head) (read : entries format store base = .ok (children format store base))
    (read' : entries format store head = .ok (children format store head))
    (distinct : ((children format store base).map Prod.fst).Nodup)
    (distinct' : ((children format store head).map Prod.fst).Nodup) (here : String → List (TreeChange ObjectId Mode))
    (went : ∀ name ∈ visited order (children format store base) (children format store head),
      changesAt format (walk format store fuel (order.under name) (join parent name)) (join parent name)
        (entryAt format store base [name]) (entryAt format store head [name]) = pure (here name)) :
    walk format store (fuel + 1) order parent base head =
      pure ((visited order (children format store base) (children format store head)).flatMap here) := by
  have heads := headLoop_pure format (fun name => walk format store fuel (order.under name) (join parent name))
    parent here (children format store head) (collect (children format store base)) distinct' (by
      intro entry member
      have there : entryAt format store head [entry.1] = some entry.2 := only_of_mem _ _ _ distinct' member
      rw [lookup_collect _ distinct, ← entryAt_singleton, ← there]
      exact went entry.1 (List.mem_append_left _ (List.mem_map.mpr ⟨entry, member, rfl⟩)))
  have drains := drainLoop_pure format (fun name => walk format store fuel (order.under name) (join parent name))
    parent here (drained order (children format store base) (children format store head)) (by
      intro entry member
      obtain ⟨missing, there⟩ := (mem_drained_iff order _ _ distinct entry).mp member
      rw [← there, ← only_eq_none entry.1 _ missing, ← entryAt_singleton, ← entryAt_singleton]
      exact went entry.1 (List.mem_append_right _ (List.mem_map.mpr ⟨entry, member, rfl⟩)))
  rw [walk, if_neg differ, read, read', Walk.of_ok, Walk.of_ok, pure_bind, pure_bind]
  dsimp only
  rw [heads, pure_bind]
  dsimp only
  rw [← drained, drains, pure_bind, visited, List.flatMap_append]

theorem lists_self (root : Option ObjectId) (parent : String) :
    Lists format store root root parent (fun _ => True) [] := by
  refine ⟨List.nodup_nil, ?_⟩
  intro change
  refine iff_of_false List.not_mem_nil ?_
  rintro ⟨path, changed, _⟩
  exact Layouts.not_changed_of_eq path rfl changed

/-- With fuel for the depth of both trees, the walk lists every change once. -/
theorem walk_lists (depth : Nat) (fuel : Nat) (enough : depth < fuel) (order : Order ObjectId Mode)
    (above : List String) (plain : ∀ name ∈ above, Plainly name) (base head : Option ObjectId)
    (bounded : Bounded format store depth base) (bounded' : Bounded format store depth head) :
    ∃ found, walk format store fuel order (joined "" above) base head = pure found ∧
      Lists format store base head (joined "" above) (fun _ => True) found := by
  induction depth generalizing fuel order above base head with
  | zero =>
    obtain ⟨fuel, rfl⟩ : ∃ more, fuel = more + 1 := ⟨fuel - 1, by omega⟩
    cases base with
    | some id => cases bounded
    | none =>
      cases head with
      | some id => cases bounded'
      | none => exact ⟨[], by simp [walk], lists_self none _⟩
  | succ depth ih =>
    obtain ⟨fuel, rfl⟩ : ∃ more, fuel = more + 1 := ⟨fuel - 1, by omega⟩
    by_cases same : base = head
    · subst same
      exact ⟨[], by simp [walk], lists_self base _⟩
    · obtain ⟨read, distinct, plain_names, _⟩ := children_of_bounded depth base bounded
      obtain ⟨read', distinct', plain_names', _⟩ := children_of_bounded depth head bounded'
      have at_name (name : String) (some_name : Plainly name) :
          ∃ found, changesAt format (walk format store fuel (order.under name) (join (joined "" above) name))
              (join (joined "" above) name) (entryAt format store base [name]) (entryAt format store head [name]) =
                pure found ∧
            Lists format store base head (joined "" above) (fun path => path.head? = some name) found := by
        apply changesAt_lists
        have extended : join (joined "" above) name = joined "" (above ++ [name]) := by
          rw [joined_append]
          rfl
        rw [extended]
        apply ih fuel (by omega)
        · intro other member
          rcases List.mem_append.mp member with upper | last
          · exact plain other upper
          · rw [List.mem_singleton.mp last]
            exact some_name
        · exact bounded_subtree depth base bounded name
        · exact bounded_subtree depth head bounded' name
      choose! here went lists using at_name
      have visits := plainly_of_visited order _ _ distinct plain_names plain_names'
      refine ⟨_, walk_eq_flatMap fuel order _ base head same read read' distinct distinct' here
        (fun name member => went name (visits name member)), ?_⟩
      apply lists_flatMap (depth + 1) above base head _ here bounded bounded' plain
      · exact visited_nodup order _ _ distinct distinct'
      · exact fun name member => lists name (visits name member)
      · exact only_eq_none_of_not_visited order _ _ distinct

/-! The sorted diff. -/

/-- The sides that mean an empty tree. -/
def ObjectFormat.Empty (format : ObjectFormat ObjectId Mode) (root : Option ObjectId) : Prop :=
  root = none ∨ root = some format.emptyTree

/-- The same side, up to the two ways to mean an empty tree. -/
def ObjectFormat.SameSide (format : ObjectFormat ObjectId Mode) (root root' : Option ObjectId) : Prop :=
  root' = root ∨ format.Empty root ∧ format.Empty root'

theorem children_of_empty (root : Option ObjectId) (empty : format.Empty root) :
    entries format store root = .ok [] := by
  rcases empty with rfl | rfl
  · rfl
  · simp [entries, pure, Except.pure]

theorem entryAt_of_empty (root : Option ObjectId) (empty : format.Empty root) :
    entryAt format store root = fun _ => none := by
  have nothing : children format store root = [] := by
    unfold children
    rw [children_of_empty root empty]
  funext path
  cases path with
  | nil => cases root <;> rfl
  | cons name rest =>
    cases rest with
    | nil => rw [entryAt_singleton, nothing]; rfl
    | cons next rest => rw [entryAt, nothing]; rfl

theorem entryAt_of_sameSide (root root' : Option ObjectId) (same : format.SameSide root root') :
    entryAt format store root' = entryAt format store root := by
  rcases same with rfl | ⟨empty, empty'⟩
  · rfl
  · rw [entryAt_of_empty root empty, entryAt_of_empty root' empty']

theorem bounded_of_sameSide (depth : Nat) (root root' : Option ObjectId) (same : format.SameSide root root')
    (bounded : Bounded format store (depth + 1) root) : Bounded format store (depth + 1) root' := by
  rcases same with rfl | ⟨_, empty⟩
  · exact bounded
  · cases root' with
    | none => trivial
    | some id => exact ⟨[], children_of_empty _ empty, List.nodup_nil, by simp, by simp⟩

instance : Std.Total (byPath : TreeChange ObjectId Mode → TreeChange ObjectId Mode → Prop) :=
  ⟨fun one other => le_total one.path other.path⟩

instance : IsTrans (TreeChange ObjectId Mode) byPath := ⟨fun _ _ _ first second => le_trans (α := String) first second⟩

omit [DecidableEq ObjectId] in
/-- Changes at paths of their own are sorted strictly. -/
theorem sorted_pairwise (found : List (TreeChange ObjectId Mode)) (distinct : (found.map TreeChange.path).Nodup) :
    (found.insertionSort byPath).Pairwise (fun one other => one.path < other.path) := by
  have apart : (found.insertionSort byPath).Pairwise (fun one other => one.path ≠ other.path) := by
    rw [← List.pairwise_map (f := TreeChange.path) (R := fun one other => one ≠ other)]
    exact ((List.perm_insertionSort byPath found).map _).nodup_iff.mpr distinct
  exact ((List.pairwise_insertionSort byPath found).and apart).imp (fun ⟨le, ne⟩ => lt_of_le_of_ne le ne)

omit [DecidableEq ObjectId] in
/-- Strictly sorted changes are determined by which they are. -/
theorem sorted_ext (changes others : List (TreeChange ObjectId Mode))
    (sorted : changes.Pairwise (fun one other => one.path < other.path))
    (sorted' : others.Pairwise (fun one other => one.path < other.path))
    (same : ∀ change, change ∈ changes ↔ change ∈ others) : changes = others := by
  have distinct : changes.Nodup := sorted.imp (by rintro one other below rfl; exact lt_irrefl _ below)
  have distinct' : others.Nodup := sorted'.imp (by rintro one other below rfl; exact lt_irrefl _ below)
  refine List.Perm.eq_of_pairwise ?_ sorted sorted' ((List.perm_ext_iff_of_nodup distinct distinct').mpr same)
  intro one other _ _ below above
  exact absurd above (lt_asymm below)

/-- The list has the changes there are between two trees, and has them in order. -/
structure Reports (format : ObjectFormat ObjectId Mode) (store : Find ObjectId) (base head : Option ObjectId)
    (changes : List (TreeChange ObjectId Mode)) : Prop where
  listed : ∀ change, change ∈ changes ↔
    ∃ path, TreeChanged format store base head path ∧ change = changeAt format store base head "" path
  sorted : changes.Pairwise (fun one other => one.path < other.path)

theorem reports_sorted (base head : Option ObjectId) (found : List (TreeChange ObjectId Mode))
    (lists : Lists format store base head "" (fun _ => True) found) :
    Reports format store base head (found.insertionSort byPath) := by
  refine ⟨?_, sorted_pairwise found lists.distinct⟩
  intro change
  rw [List.mem_insertionSort, lists.listed]
  simp only [true_and]

theorem reports_unique (base head : Option ObjectId) (changes others : List (TreeChange ObjectId Mode))
    (reports : Reports format store base head changes) (reports' : Reports format store base head others) :
    changes = others := by
  apply sorted_ext changes others reports.sorted reports'.sorted
  intro change
  rw [reports.listed, reports'.listed]

/-- With fuel for the depth of both trees, the walk reports the changes whichever way an
empty side is given. -/
theorem walk_reports (depth : Nat) (base head : Option ObjectId) (bounded : Bounded format store (depth + 1) base)
    (bounded' : Bounded format store (depth + 1) head) (fuel : Nat) (enough : fuel ≥ depth + 2)
    (order : Order ObjectId Mode) (base' head' : Option ObjectId) (same : format.SameSide base base')
    (same' : format.SameSide head head') :
    ∃ changes, diffTrees format store fuel order base' head' = pure changes ∧ Reports format store base head changes := by
  obtain ⟨found, went, distinct, listed⟩ := walk_lists (depth + 1) fuel (by omega) order [] (by simp) base' head'
    (bounded_of_sameSide _ base base' same bounded) (bounded_of_sameSide _ head head' same' bounded')
  have root : joined "" [] = "" := rfl
  rw [root] at went
  refine ⟨found.insertionSort byPath, by rw [diffTrees, went, pure_bind], ?_⟩
  apply reports_sorted
  refine ⟨distinct, ?_⟩
  simpa only [root, TreeChanged, changeAt, entryAt_of_sameSide base base' same, entryAt_of_sameSide head head' same']
    using listed

theorem diffTrees_reports (base head : Option ObjectId) (formed : WellFormed format store base)
    (formed' : WellFormed format store head) :
    ∃ changes, Reports format store base head changes ∧
      ∃ enough, ∀ fuel ≥ enough, ∀ order base' head', format.SameSide base base' → format.SameSide head head' →
        diffTrees format store fuel order base' head' = pure changes := by
  obtain ⟨depth, bounded⟩ := exists_bounded base formed
  obtain ⟨depth', bounded'⟩ := exists_bounded head formed'
  have deep : Bounded format store (max depth depth' + 1) base := bounded_mono depth _ base (by omega) bounded
  have deep' : Bounded format store (max depth depth' + 1) head := bounded_mono depth' _ head (by omega) bounded'
  obtain ⟨changes, _, reports⟩ := walk_reports _ base head deep deep' _ le_rfl .asHeld base head (.inl rfl) (.inl rfl)
  refine ⟨changes, reports, max depth depth' + 2, ?_⟩
  intro fuel enough order base' head' same same'
  obtain ⟨others, ran, reports'⟩ := walk_reports _ base head deep deep' fuel enough order base' head' same same'
  rw [ran, reports_unique base head others changes reports' reports]

/-- The diff of two well-formed trees ends without an error, whatever the order in which maps
are drained and however an empty side is given, and has the changes there are, sorted. -/
theorem diffTrees_exact (base head : Option ObjectId) (formed : WellFormed format store base)
    (formed' : WellFormed format store head) :
    ∃ changes, (∃ enough, ∀ fuel ≥ enough, ∀ order base' head', format.SameSide base base' →
        format.SameSide head head' → diffTrees format store fuel order base' head' = pure changes) ∧
      (∀ change, change ∈ changes ↔ ∃ path, TreeChanged format store base head path ∧
        change = changeAt format store base head "" path) ∧
      changes.Pairwise (fun one other => one.path < other.path) := by
  obtain ⟨changes, reports, ran⟩ := diffTrees_reports base head formed formed'
  exact ⟨changes, ran, reports.listed, reports.sorted⟩

/-- A file edited in a directory, one taken away and one added. -/
def editedTrees : Find Bytes := treesOf
  [(sha1 1, [⟨[97], sha1 3, .tree⟩, ⟨[98], sha1 7, .blob⟩]),
   (sha1 2, [⟨[97], sha1 4, .tree⟩, ⟨[99], sha1 7, .blob⟩]),
   (sha1 3, [⟨[100], sha1 7, .blob⟩]),
   (sha1 4, [⟨[100], sha1 8, .blob⟩])]

theorem editedTrees_root (id below : Bytes) (other : String)
    (read : entries sha1Trees editedTrees (some id) = .ok [("a", below, .tree), (other, sha1 7, .blob)])
    (distinct : other ≠ "a") (plain : Plainly other) (lower : WellFormed sha1Trees editedTrees (some below)) :
    WellFormed sha1Trees editedTrees (some id) := by
  refine .tree id _ read ?_ ?_ ?_
  · simpa using distinct.symm
  · intro entry member
    rcases List.mem_cons.mp member with rfl | later
    · exact (by decide : Plainly "a")
    · rw [List.mem_singleton.mp later]
      exact plain
  · intro entry member isTree
    rcases List.mem_cons.mp member with rfl | later
    · exact lower
    · rw [List.mem_singleton.mp later] at isTree
      cases isTree

theorem diffTrees_exact_edited :
    ∃ changes, (∃ enough, ∀ fuel ≥ enough, ∀ order base' head', sha1Trees.SameSide (some (sha1 1)) base' →
        sha1Trees.SameSide (some (sha1 2)) head' → diffTrees sha1Trees editedTrees fuel order base' head' = pure changes) ∧
      (∀ change, change ∈ changes ↔ ∃ path, TreeChanged sha1Trees editedTrees (some (sha1 1)) (some (sha1 2)) path ∧
        change = changeAt sha1Trees editedTrees (some (sha1 1)) (some (sha1 2)) "" path) ∧
      changes.Pairwise (fun one other => one.path < other.path) :=
  diffTrees_exact (some (sha1 1)) (some (sha1 2))
    (editedTrees_root _ (sha1 3) "b" (read_treesOf _ _ _ _ (by decide) rfl (by decide) (by decide) (by decide +kernel)) (by decide) (by decide +kernel)
      (wellFormed_flat _ [("d", sha1 7, .blob)] (read_treesOf _ _ _ _ (by decide) rfl (by decide) (by decide) (by decide +kernel))
        (by decide) (by decide) (by decide)))
    (editedTrees_root _ (sha1 4) "c" (read_treesOf _ _ _ _ (by decide) rfl (by decide) (by decide) (by decide +kernel)) (by decide) (by decide +kernel)
      (wellFormed_flat _ [("d", sha1 8, .blob)] (read_treesOf _ _ _ _ (by decide) rfl (by decide) (by decide) (by decide +kernel))
        (by decide) (by decide) (by decide)))

example : (diffTrees sha1Trees editedTrees 3 .asHeld (some (sha1 1)) (some (sha1 2))).run = some (.ok
    [⟨"a/d", some (sha1 7, .blob), some (sha1 8, .blob)⟩, ⟨"b", some (sha1 7, .blob), none⟩,
      ⟨"c", none, some (sha1 7, .blob)⟩]) := by decide +kernel

end GitAnchor.Anchoring
