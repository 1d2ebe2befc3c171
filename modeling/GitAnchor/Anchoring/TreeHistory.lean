import GitAnchor.Anchoring.TreeReplay
import GitAnchor.Foundation.Transition

/-! Tree diffs along a history. The diff the other way takes a diff back, and the diffs from
each tree to the next, one after another, make the listing of the last tree of that of the first. -/

namespace GitAnchor.Anchoring
open GitAnchor.Foundation GitAnchor.Substrate
variable {ObjectId Mode : Type} [DecidableEq ObjectId]

/-- The change with its sides exchanged. -/
def TreeChange.inverse (change : TreeChange ObjectId Mode) : TreeChange ObjectId Mode :=
  ⟨change.path, change.head, change.base⟩

/-- A listing with every change made to it. -/
def patched (format : ObjectFormat ObjectId Mode) (store : Find ObjectId) (found : Layouts.Layout String (ObjectId × Mode))
    (changes : List (TreeChange ObjectId Mode)) : Layouts.Layout String (ObjectId × Mode) :=
  Layouts.replay format.dir (fun entry => entryAt format store (some entry.1)) found
    (changes.map (fun change => (components change.path, change.head)))

/-- What the diff of two trees comes to, with enough fuel and whatever the order in which maps
are drained. -/
def Diffs (format : ObjectFormat ObjectId Mode) (store : Find ObjectId) (base head : Option ObjectId)
    (changes : List (TreeChange ObjectId Mode)) : Prop :=
  ∃ enough, ∀ fuel ≥ enough, ∀ order, diffTrees format store fuel order base head = pure changes

/-- A tree, the next one, and the diff between them; no entry changes its mode alone, for the
diff would not say so. -/
structure Commits (format : ObjectFormat ObjectId Mode) (store : Find ObjectId) (base : Option ObjectId)
    (changes : List (TreeChange ObjectId Mode)) (head : Option ObjectId) : Prop where
  formed : WellFormed format store base
  formed' : WellFormed format store head
  kept : ModesKept format store base head
  diffs : Diffs format store base head changes

variable {format : ObjectFormat ObjectId Mode} {store : Find ObjectId}

/-! The diff the other way. -/

theorem diffs_iff_reports (base head : Option ObjectId) (formed : WellFormed format store base)
    (formed' : WellFormed format store head) (changes : List (TreeChange ObjectId Mode)) :
    Diffs format store base head changes ↔ Reports format store base head changes := by
  obtain ⟨exactly, reports, enough, ran⟩ := diffTrees_reports base head formed formed'
  have computed (fuel : Nat) (fits : fuel ≥ enough) (order : Order ObjectId Mode) :
      diffTrees format store fuel order base head = pure exactly :=
    ran fuel fits order base head (.inl rfl) (.inl rfl)
  constructor
  · rintro ⟨least, diffed⟩
    have same := (computed (max enough least) (Nat.le_max_left _ _) .asHeld).symm.trans
      (diffed (max enough least) (Nat.le_max_right _ _) .asHeld)
    rw [← Except.ok.inj (Option.some.inj same)]
    exact reports
  · intro others
    rw [reports_unique base head changes exactly others reports]
    exact ⟨enough, computed⟩

theorem reports_inverse (base head : Option ObjectId) (changes : List (TreeChange ObjectId Mode))
    (reports : Reports format store base head changes) :
    Reports format store head base (changes.map TreeChange.inverse) := by
  constructor
  · intro change
    rw [List.mem_map]
    constructor
    · rintro ⟨other, member, rfl⟩
      obtain ⟨path, changed, rfl⟩ := (reports.listed other).mp member
      exact ⟨path, (Layouts.changed_comm path).mpr changed, rfl⟩
    · rintro ⟨path, changed, rfl⟩
      exact ⟨changeAt format store base head "" path,
        (reports.listed _).mpr ⟨path, (Layouts.changed_comm path).mp changed, rfl⟩, rfl⟩
  · rw [List.pairwise_map]
    exact reports.sorted

/-- The diff the other way has the same changes in the same order, each with its sides exchanged. -/
theorem diffTrees_inverse (base head : Option ObjectId) (formed : WellFormed format store base)
    (formed' : WellFormed format store head) :
    ∃ changes enough, ∀ fuel ≥ enough, ∀ order,
      diffTrees format store fuel order base head = pure changes ∧
        diffTrees format store fuel order head base = pure (changes.map TreeChange.inverse) := by
  obtain ⟨changes, reports, enough, ran⟩ := diffTrees_reports base head formed formed'
  obtain ⟨enough', ran'⟩ := (diffs_iff_reports head base formed' formed _).mpr (reports_inverse base head changes reports)
  refine ⟨changes, max enough enough', ?_⟩
  intro fuel fits order
  exact ⟨ran fuel (le_of_max_le_left fits) order base head (.inl rfl) (.inl rfl), ran' fuel (le_of_max_le_right fits) order⟩

/-- An edit of a file, and the edit that takes it back. -/
theorem diffTrees_inverse_edited : ∃ changes enough, ∀ fuel ≥ enough, ∀ order,
    diffTrees sha1Trees modeTrees fuel order (some (sha1 1)) (some (sha1 3)) = pure changes ∧
      diffTrees sha1Trees modeTrees fuel order (some (sha1 3)) (some (sha1 1)) = pure (changes.map TreeChange.inverse) :=
  diffTrees_inverse (some (sha1 1)) (some (sha1 3)) modeTrees_base modeTrees_edited

/-! One step. -/

/-- The path of a change spells the names that lead to it. -/
theorem components_of_treeChanged (base head : Option ObjectId) (formed : WellFormed format store base)
    (formed' : WellFormed format store head) (path : List String) (changed : TreeChanged format store base head path) :
    components (joined "" path) = path := by
  obtain ⟨depth, bounded⟩ := exists_bounded base formed
  obtain ⟨depth', bounded'⟩ := exists_bounded head formed'
  have deep := bounded_mono depth (max depth depth') base (Nat.le_max_left _ _) bounded
  have deep' := bounded_mono depth' (max depth depth') head (Nat.le_max_right _ _) bounded'
  exact components_joined path (ne_nil_of_treeChanged changed) (plain_of_treeChanged _ deep deep' path changed)

/-- The changes as edits: at each changed path what the head has there. -/
theorem edits_of_reports (base head : Option ObjectId) (formed : WellFormed format store base)
    (formed' : WellFormed format store head) (changes : List (TreeChange ObjectId Mode))
    (reports : Reports format store base head changes) (edit : List String × Option (ObjectId × Mode)) :
    edit ∈ changes.map (fun change => (components change.path, change.head)) ↔
      TreeChanged format store base head edit.1 ∧ edit.2 = entryAt format store head edit.1 := by
  have named := components_of_treeChanged base head formed formed'
  obtain ⟨path, put⟩ := edit
  constructor
  · intro member
    obtain ⟨change, there, same⟩ := List.mem_map.mp member
    obtain ⟨place, changed, rfl⟩ := (reports.listed change).mp there
    obtain ⟨rfl, rfl⟩ := Prod.mk.inj same
    dsimp only [changeAt]
    rw [named place changed]
    exact ⟨changed, rfl⟩
  · rintro ⟨changed, same⟩
    dsimp only at changed same
    apply List.mem_map.mpr
    refine ⟨changeAt format store base head "" path, (reports.listed _).mpr ⟨path, changed, rfl⟩, ?_⟩
    rw [same]
    exact Prod.ext (named path changed) rfl

theorem patched_of_reports (base head : Option ObjectId) (formed : WellFormed format store base)
    (formed' : WellFormed format store head) (kept : ModesKept format store base head)
    (changes : List (TreeChange ObjectId Mode)) (reports : Reports format store base head changes) :
    patched format store (listing format store base) changes = listing format store head :=
  (Layouts.replay_changes_iff _ (entryAt_nil base) (entryAt_nil head) (nested_entryAt base) (nested_entryAt head)
    (holds_entryAt head) (edits_of_reports base head formed formed' changes reports)).mpr kept

/-- A diff can be made to the listing of its base, and taken back from that of its head. -/
theorem Commits.patched_eq {base head : Option ObjectId} {changes : List (TreeChange ObjectId Mode)}
    (commits : Commits format store base changes head) :
    patched format store (listing format store base) changes = listing format store head ∧
      patched format store (listing format store head) (changes.map TreeChange.inverse) = listing format store base := by
  have reports := (diffs_iff_reports base head commits.formed commits.formed' changes).mp commits.diffs
  exact ⟨patched_of_reports base head commits.formed commits.formed' commits.kept changes reports,
    patched_of_reports head base commits.formed' commits.formed (Layouts.kept_comm.mpr commits.kept) _
      (reports_inverse base head changes reports)⟩

/-- What a diff does not list, there or above, it leaves as it was. -/
theorem Commits.untouched {base head : Option ObjectId} {changes : List (TreeChange ObjectId Mode)}
    (commits : Commits format store base changes head) (path : List String)
    (away : ∀ change ∈ changes, ¬ components change.path <+: path) :
    listing format store head path = listing format store base path := by
  rw [← commits.patched_eq.1, patched, Layouts.replay_untouched]
  intro edit member
  obtain ⟨change, there, rfl⟩ := List.mem_map.mp member
  exact away change there

/-! A history. -/

/-- However many trees follow one another, without changes of modes alone: their diffs, made in
turn, lead from the first listing to the last, and taken back newest first lead back; and
where the two listings differ, one of the diffs says so, there or above. -/
theorem history_patched (origin root : Option ObjectId)
    (trace : List (Option ObjectId × List (TreeChange ObjectId Mode)))
    (run : Run (· = origin) (Commits format store) trace root) :
    trace.foldr (fun taken found => patched format store found taken.2) (listing format store origin) =
        listing format store root ∧
      trace.foldl (fun found taken => patched format store found (taken.2.map TreeChange.inverse))
        (listing format store root) = listing format store origin ∧
      ∀ path, listing format store origin path ≠ listing format store root path →
        ∃ taken ∈ trace, ∃ change ∈ taken.2, components change.path <+: path := by
  induction run with
  | start initial =>
    rw [initial]
    exact ⟨rfl, rfl, fun path differ => absurd rfl differ⟩
  | @next trace base head changes run commits ih =>
    obtain ⟨made, taken_back, accounted⟩ := ih
    obtain ⟨forth, back⟩ := commits.patched_eq
    refine ⟨?_, ?_, ?_⟩
    · rw [List.foldr_cons, made, forth]
    · rw [List.foldl_cons, back, taken_back]
    · intro path differ
      by_cases listed : ∃ change ∈ changes, components change.path <+: path
      · exact ⟨_, List.mem_cons_self, listed⟩
      · have same := commits.untouched path (fun change member upper => listed ⟨change, member, upper⟩)
        rw [same] at differ
        obtain ⟨taken, member, change⟩ := accounted path differ
        exact ⟨taken, List.mem_cons_of_mem _ member, change⟩

theorem entryAt_flat (id : ObjectId) (name : String) (found : ObjectId × Mode)
    (read : entries format store (some id) = .ok [(name, found)]) (leaf : format.isTree found.2 = false)
    (path : List String) (entry : ObjectId × Mode) (there : entryAt format store (some id) path = some entry) :
    path = [name] ∧ entry = found := by
  have children_eq : children format store (some id) = [(name, found)] := by rw [children, read]
  cases path with
  | nil => cases there
  | cons first rest =>
    have top : ∀ other, entryAt format store (some id) [first] = some other → first = name ∧ other = found := by
      intro other here
      rw [entryAt_singleton, children_eq] at here
      simpa using mem_of_only first _ other here
    cases rest with
    | nil =>
      obtain ⟨rfl, rfl⟩ := top entry there
      exact ⟨rfl, rfl⟩
    | cons next later =>
      rw [entryAt_cons _ _ _ (List.cons_ne_nil next later)] at there
      cases here : entryAt format store (some id) [first] with
      | none =>
        rw [here, ObjectFormat.subtree, entryAt_none] at there
        cases there
      | some other =>
        obtain ⟨rfl, rfl⟩ := top other here
        simp only [here, ObjectFormat.subtree, leaf] at there
        rw [if_neg Bool.false_ne_true, entryAt_none] at there
        cases there

theorem modeTrees_kept : ModesKept sha1Trees modeTrees (some (sha1 1)) (some (sha1 3)) := by
  intro path old new here there alike
  obtain ⟨_, rfl⟩ := entryAt_flat (sha1 1) "a" (sha1 7, .blob) (by decide +kernel) rfl path old here
  obtain ⟨_, rfl⟩ := entryAt_flat (sha1 3) "a" (sha1 8, .blob) (by decide +kernel) rfl path new there
  exact absurd alike (by decide)

/-- A file is edited, and then is as it was. -/
theorem history_patched_reverted : ∃ edit revert,
    Commits sha1Trees modeTrees (some (sha1 1)) edit (some (sha1 3)) ∧
      Commits sha1Trees modeTrees (some (sha1 3)) revert (some (sha1 1)) ∧
      patched sha1Trees modeTrees (patched sha1Trees modeTrees (listing sha1Trees modeTrees (some (sha1 1))) edit) revert =
        listing sha1Trees modeTrees (some (sha1 1)) ∧
      ∃ change ∈ edit, components change.path <+: ["a"] := by
  obtain ⟨edit, reports, enough, ran⟩ := diffTrees_reports (some (sha1 1)) (some (sha1 3)) modeTrees_base modeTrees_edited
  have there : Commits sha1Trees modeTrees (some (sha1 1)) edit (some (sha1 3)) :=
    ⟨modeTrees_base, modeTrees_edited, modeTrees_kept, (diffs_iff_reports _ _ modeTrees_base modeTrees_edited edit).mpr reports⟩
  have back : Commits sha1Trees modeTrees (some (sha1 3)) (edit.map TreeChange.inverse) (some (sha1 1)) :=
    ⟨modeTrees_edited, modeTrees_base, Layouts.kept_comm.mpr modeTrees_kept,
      (diffs_iff_reports _ _ modeTrees_edited modeTrees_base _).mpr (reports_inverse _ _ edit reports)⟩
  have edited : listing sha1Trees modeTrees (some (sha1 1)) ["a"] ≠ listing sha1Trees modeTrees (some (sha1 3)) ["a"] := by
    decide +kernel
  obtain ⟨taken, member, listed⟩ :=
    (history_patched (some (sha1 1)) (some (sha1 3)) _ (.next (.start rfl) there)).2.2 ["a"] edited
  obtain rfl := List.mem_singleton.mp member
  exact ⟨edit, _, there, back,
    (history_patched (some (sha1 1)) (some (sha1 1)) _ (.next (.next (.start rfl) there) back)).1, listed⟩

end GitAnchor.Anchoring
