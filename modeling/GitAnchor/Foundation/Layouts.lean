import Mathlib.Data.List.Basic
import Mathlib.Data.List.Infix

/-! Layouts: what is at each path of names, where some entries are directories. Two layouts
are compared path by path, and edits made to one at the paths where they differ turn its
leaves into those of the other, as far as an entry's identity tells entries apart. -/

namespace GitAnchor.Foundation.Layouts
variable {Name Entry Id : Type}

/-- What a layout has at a path. -/
abbrev Layout (Name Entry : Type) := List Name → Option Entry

section Compare
variable (identity : Entry → Id) (dir : Entry → Bool)

/-- A directory on one side stands where the other has something else. -/
def Replaced (base head : Layout Name Entry) (path : List Name) : Prop :=
  ∃ old new, base path = some old ∧ head path = some new ∧ dir old ≠ dir new

/-- The two sides have the same thing at a path, or neither has anything. -/
def Alike (base head : Layout Name Entry) (path : List Name) : Prop :=
  (base path).map identity = (head path).map identity

/-- A directory on both sides, or on one with nothing on the other: what differs lies below. -/
def Descends (base head : Layout Name Entry) (path : List Name) : Prop :=
  (∃ old new, base path = some old ∧ head path = some new ∧ dir old = true ∧ dir new = true) ∨
    (∃ old, base path = some old ∧ head path = none ∧ dir old = true) ∨
    ∃ new, base path = none ∧ head path = some new ∧ dir new = true

/-- The two sides differ at `path` itself, and not because one of them is replaced above. -/
def Changed (base head : Layout Name Entry) (path : List Name) : Prop :=
  ¬ Alike identity base head path ∧ ¬ Descends dir base head path ∧
    ∀ above, above <+: path → above ≠ path → ¬ Replaced dir base head above

/-- What is below a name, as a layout of its own. -/
def below (layout : Layout Name Entry) (name : Name) : Layout Name Entry
  | [] => none
  | next :: rest => layout (name :: next :: rest)

variable {identity dir} {base head : Layout Name Entry} {name : Name} {rest : List Name}

theorem below_of_ne_nil (layout : Layout Name Entry) (further : rest ≠ []) :
    below layout name rest = layout (name :: rest) := by
  cases rest with
  | nil => exact absurd rfl further
  | cons next others => rfl

theorem not_changed_of_eq (path : List Name) (same : base path = head path) :
    ¬ Changed identity dir base head path := by
  intro changed
  apply changed.1
  unfold Alike
  rw [same]

theorem not_changed_nil (bare : base [] = none) (empty : head [] = none) :
    ¬ Changed identity dir base head [] :=
  not_changed_of_eq [] (bare.trans empty.symm)

/-- Below a name the comparison is that of what is below it, unless one side is replaced there. -/
theorem changed_cons (further : rest ≠ []) (bare : base [] = none) :
    Changed identity dir base head (name :: rest) ↔ ¬ Replaced dir base head [name] ∧
      Changed identity dir (below base name) (below head name) rest := by
  have replaced_below (above : List Name) (some_name : above ≠ []) :
      Replaced dir (below base name) (below head name) above ↔ Replaced dir base head (name :: above) := by
    unfold Replaced
    rw [below_of_ne_nil base some_name, below_of_ne_nil head some_name]
  have here : (Alike identity (below base name) (below head name) rest ↔ Alike identity base head (name :: rest)) ∧
      (Descends dir (below base name) (below head name) rest ↔ Descends dir base head (name :: rest)) := by
    unfold Alike Descends
    rw [below_of_ne_nil base further, below_of_ne_nil head further]
    exact ⟨.rfl, .rfl⟩
  unfold Changed
  rw [here.1, here.2]
  constructor
  · rintro ⟨unlike, ends, unreplaced⟩
    refine ⟨?_, unlike, ends, ?_⟩
    · apply unreplaced [name]
      · exact List.cons_prefix_cons.mpr ⟨rfl, List.nil_prefix⟩
      · intro same
        exact further (List.cons.inj same).2.symm
    · intro above upper proper
      cases above with
      | nil =>
        rintro ⟨old, new, there, _⟩
        cases there
      | cons next others =>
        rw [replaced_below _ (List.cons_ne_nil next others)]
        apply unreplaced
        · exact List.cons_prefix_cons.mpr ⟨rfl, upper⟩
        · intro same
          exact proper (List.cons.inj same).2
  · rintro ⟨kept, unlike, ends, unreplaced⟩
    refine ⟨unlike, ends, ?_⟩
    intro above upper proper
    cases above with
    | nil =>
      rintro ⟨old, new, there, _⟩
      rw [bare] at there
      cases there
    | cons first others =>
      obtain ⟨rfl, lower⟩ := List.cons_prefix_cons.mp upper
      cases others with
      | nil => exact kept
      | cons next later =>
        rw [← replaced_below _ (List.cons_ne_nil next later)]
        apply unreplaced _ lower
        intro same
        exact proper (by rw [same])

/-- At a single name, only what is there counts. -/
theorem changed_singleton (bare : base [] = none) :
    Changed identity dir base head [name] ↔
      ¬ Alike identity base head [name] ∧ ¬ Descends dir base head [name] := by
  constructor
  · intro changed
    exact ⟨changed.1, changed.2.1⟩
  · rintro ⟨unlike, ends⟩
    refine ⟨unlike, ends, ?_⟩
    intro above upper proper
    rcases List.prefix_cons_iff.mp upper with rfl | ⟨rest, rfl, lower⟩
    · rintro ⟨old, new, there, _⟩
      rw [bare] at there
      cases there
    · rw [List.prefix_nil.mp lower] at proper
      exact absurd rfl proper

/-- The comparison is the same whichever side is the base. -/
theorem changed_comm (path : List Name) :
    Changed identity dir head base path ↔ Changed identity dir base head path := by
  have alike : Alike identity head base path ↔ Alike identity base head path := eq_comm
  have replaced (above : List Name) : Replaced dir head base above ↔ Replaced dir base head above := by
    constructor <;> exact fun ⟨old, new, here, there, differ⟩ => ⟨new, old, there, here, differ.symm⟩
  have descends (one other : Layout Name Entry) (ends : Descends dir one other path) : Descends dir other one path := by
    rcases ends with ⟨old, new, here, there, isDir, isDir'⟩ | ⟨old, here, absent, isDir⟩ | ⟨new, absent, there, isDir⟩
    · exact .inl ⟨new, old, there, here, isDir', isDir⟩
    · exact .inr (.inr ⟨old, absent, here, isDir⟩)
    · exact .inr (.inl ⟨new, there, absent, isDir⟩)
  have descends_comm : Descends dir head base path ↔ Descends dir base head path :=
    ⟨descends head base, descends base head⟩
  unfold Changed
  rw [alike, descends_comm]
  simp only [replaced]

end Compare

/-! Replaying edits on the leaves of a layout. -/

section Replay
variable (dir : Entry → Bool) (contents : Entry → Layout Name Entry)

/-- What is at each path and not a directory. -/
def leaves (layout : Layout Name Entry) : Layout Name Entry :=
  fun path => (layout path).filter (fun entry => !dir entry)

/-- The leaves of an entry: itself, or those of its contents where it is a directory. -/
def leavesOf : Option Entry → Layout Name Entry
  | none, _ => none
  | some entry, [] => if dir entry then none else some entry
  | some entry, name :: rest => if dir entry then leaves dir (contents entry) (name :: rest) else none

variable [DecidableEq Name]

/-- Take out what is at the path of an edit and below it, and put its entry there. -/
def applyEdit (listing : Layout Name Entry) (edit : List Name × Option Entry) : Layout Name Entry :=
  fun path =>
    if edit.1 <+: path then leavesOf dir contents edit.2 (path.drop edit.1.length) else listing path

def replay (listing : Layout Name Entry) (edits : List (List Name × Option Entry)) : Layout Name Entry :=
  edits.foldl (applyEdit dir contents) listing

variable {dir contents} {base head : Layout Name Entry}

/-- Where no edit reaches, all stays. -/
theorem replay_untouched (edits : List (List Name × Option Entry)) (listing : Layout Name Entry) (path : List Name)
    (away : ∀ edit ∈ edits, ¬ edit.1 <+: path) : replay dir contents listing edits path = listing path := by
  induction edits generalizing listing with
  | nil => rfl
  | cons edit later ih =>
    rw [replay, List.foldl_cons, ← replay, ih _ (fun other member => away other (List.mem_cons_of_mem _ member)),
      applyEdit, if_neg (away edit List.mem_cons_self)]

/-- Edits that put what `head` has give what `head` has, wherever they reach. -/
theorem replay_eq (edits : List (List Name × Option Entry)) (listing : Layout Name Entry) (path : List Name)
    (faithful : ∀ edit ∈ edits, ∀ rest, leavesOf dir contents edit.2 rest = leaves dir head (edit.1 ++ rest)) :
    replay dir contents listing edits path =
      if ∃ edit ∈ edits, edit.1 <+: path then leaves dir head path else listing path := by
  induction edits generalizing listing with
  | nil =>
    rw [if_neg (by simp)]
    rfl
  | cons edit later ih =>
    have first := faithful edit List.mem_cons_self
    have rest := ih (applyEdit dir contents listing edit)
      (fun other member => faithful other (List.mem_cons_of_mem _ member))
    rw [replay, List.foldl_cons]
    rw [replay] at rest
    rw [rest]
    by_cases reached : ∃ other ∈ later, other.1 <+: path
    · obtain ⟨other, member, upper⟩ := reached
      rw [if_pos ⟨other, member, upper⟩, if_pos ⟨other, List.mem_cons_of_mem _ member, upper⟩]
    · rw [if_neg reached, applyEdit]
      by_cases upper : edit.1 <+: path
      · rw [if_pos upper, if_pos ⟨edit, List.mem_cons_self, upper⟩, first, List.prefix_iff_eq_append.mp upper]
      · rw [if_neg upper, if_neg]
        rintro ⟨other, member, there⟩
        rcases List.mem_cons.mp member with rfl | further
        · exact upper there
        · exact reached ⟨other, further, there⟩

end Replay

section Exact
variable {identity : Entry → Id} {dir : Entry → Bool} {base head : Layout Name Entry}

/-- Entries lie below directories only. -/
def Nested (dir : Entry → Bool) (layout : Layout Name Entry) : Prop :=
  ∀ above rest entry, above ≠ [] → rest ≠ [] → layout (above ++ rest) = some entry →
    ∃ parent, layout above = some parent ∧ dir parent = true

/-- Entries of one identity are directories on both sides or on neither. -/
def Kinds (identity : Entry → Id) (dir : Entry → Bool) (base head : Layout Name Entry) : Prop :=
  ∀ path old new, base path = some old → head path = some new → identity old = identity new → dir old = dir new

/-- Where one side is replaced, that is a change there or above. -/
theorem exists_changed_of_replaced (kinds : Kinds identity dir base head) (path : List Name)
    (replaced : Replaced dir base head path) : ∃ above, above <+: path ∧ Changed identity dir base head above := by
  induction size : path.length using Nat.strong_induction_on generalizing path with
  | _ length ih =>
    by_cases higher : ∃ above, above <+: path ∧ above ≠ path ∧ Replaced dir base head above
    · obtain ⟨above, upper, proper, already⟩ := higher
      have shorter : above.length < length := by
        rw [← size]
        exact lt_of_le_of_ne upper.length_le (fun same => proper (upper.eq_of_length same))
      obtain ⟨top, highest, changed⟩ := ih above.length shorter above already rfl
      exact ⟨top, highest.trans upper, changed⟩
    · obtain ⟨old, new, here, there, differ⟩ := replaced
      refine ⟨path, List.prefix_rfl, ?_, ?_, ?_⟩
      · intro alike
        rw [Alike, here, there] at alike
        exact differ (kinds path old new here there (Option.some.inj alike))
      · rintro (⟨old', new', here', there', isDir, isDir'⟩ | ⟨old', _, absent, _⟩ | ⟨new', absent, _, _⟩)
        · rw [here] at here'
          rw [there] at there'
          rw [Option.some.inj here', Option.some.inj there', isDir, isDir'] at differ
          exact differ rfl
        · rw [there] at absent
          cases absent
        · rw [here] at absent
          cases absent
      · intro above upper proper already
        exact higher ⟨above, upper, proper, already⟩

/-- Away from every change both sides have the same leaf, up to what identity leaves out. -/
theorem leaves_of_unchanged (kinds : Kinds identity dir base head) (path : List Name)
    (unchanged : ¬ ∃ above, above <+: path ∧ Changed identity dir base head above) :
    (leaves dir base path = none ∧ leaves dir head path = none) ∨
      ∃ old new, base path = some old ∧ head path = some new ∧ identity old = identity new ∧
        dir old = false ∧ dir new = false := by
  have not_replaced (above : List Name) (upper : above <+: path) : ¬ Replaced dir base head above := by
    intro replaced
    obtain ⟨top, highest, changed⟩ := exists_changed_of_replaced kinds above replaced
    exact unchanged ⟨top, highest.trans upper, changed⟩
  by_cases alike : Alike identity base head path
  · unfold Alike at alike
    cases here : base path with
    | none =>
      rw [here, Option.map_none] at alike
      left
      simp only [leaves, here, Option.map_eq_none_iff.mp alike.symm, Option.filter_none, and_self]
    | some old =>
      rw [here, Option.map_some] at alike
      obtain ⟨new, there, same⟩ := Option.map_eq_some_iff.mp alike.symm
      have kind := kinds path old new here there same.symm
      cases directory : dir old with
      | true =>
        left
        rw [directory] at kind
        simp [leaves, here, there, directory, ← kind]
      | false => exact .inr ⟨old, new, rfl, there, same.symm, directory, by rw [← kind, directory]⟩
  · by_cases ends : Descends dir base head path
    · left
      rcases ends with ⟨old, new, here, there, isDir, isDir'⟩ | ⟨old, here, there, isDir⟩ | ⟨new, here, there, isDir⟩
      · simp [leaves, here, there, isDir, isDir']
      · simp [leaves, here, there, isDir]
      · simp [leaves, here, there, isDir]
    · exact absurd ⟨path, List.prefix_rfl, alike, ends, fun above upper _ => not_replaced above upper⟩ unchanged

variable [DecidableEq Name] {contents : Entry → Layout Name Entry}

/-- A directory's contents are what lies below it. -/
def Holds (dir : Entry → Bool) (contents : Entry → Layout Name Entry) (layout : Layout Name Entry) : Prop :=
  ∀ path entry rest, layout path = some entry → dir entry = true → rest ≠ [] →
    contents entry rest = layout (path ++ rest)

omit [DecidableEq Name] in
/-- The leaves of an entry are those of the layout at and below its path. -/
theorem leavesOf_eq (nested : Nested dir head) (holds : Holds dir contents head) (path rest : List Name)
    (somewhere : path ≠ []) : leavesOf dir contents (head path) rest = leaves dir head (path ++ rest) := by
  cases rest with
  | nil =>
    rw [List.append_nil, leaves]
    cases there : head path with
    | none => rfl
    | some entry => cases directory : dir entry <;> simp [leavesOf, directory, Option.filter]
  | cons name others =>
    have orphan : ∀ entry, head (path ++ name :: others) = some entry →
        ∃ parent, head path = some parent ∧ dir parent = true :=
      fun entry => nested path (name :: others) entry somewhere (List.cons_ne_nil _ _)
    cases there : head path with
    | none =>
      cases lower : head (path ++ name :: others) with
      | none => simp [leavesOf, leaves, lower]
      | some entry =>
        obtain ⟨parent, standing, _⟩ := orphan entry lower
        rw [there] at standing
        cases standing
    | some entry =>
      cases directory : dir entry with
      | true => simp [leavesOf, directory, leaves, holds path entry _ there directory (List.cons_ne_nil name others)]
      | false =>
        cases lower : head (path ++ name :: others) with
        | none => simp [leavesOf, directory, leaves, lower]
        | some found =>
          obtain ⟨parent, standing, isDir⟩ := orphan found lower
          rw [there] at standing
          rw [← Option.some.inj standing, directory] at isDir
          cases isDir

/-- Where both sides have entries of one identity, these are directories or the same entry. -/
def Kept (identity : Entry → Id) (dir : Entry → Bool) (base head : Layout Name Entry) : Prop :=
  ∀ path old new, base path = some old → head path = some new → identity old = identity new →
    ¬ (dir old = true ∧ dir new = true) → old = new

omit [DecidableEq Name] in
theorem kept_comm : Kept identity dir head base ↔ Kept identity dir base head := by
  have turned (one other : Layout Name Entry) (kept : Kept identity dir one other) : Kept identity dir other one := by
    intro path old new here there alike single
    exact (kept path new old there here alike.symm (fun both => single both.symm)).symm
  exact ⟨turned head base, turned base head⟩

omit [DecidableEq Name] in
theorem kinds_of_kept (kept : Kept identity dir base head) : Kinds identity dir base head := by
  intro path old new here there alike
  by_cases both : dir old = true ∧ dir new = true
  · rw [both.1, both.2]
  · rw [kept path old new here there alike both]

/-- Replaying what changed gives the head's leaves exactly when no entry kept its identity
and became another. -/
theorem replay_changes_iff (edits : List (List Name × Option Entry)) (bare : base [] = none)
    (empty : head [] = none) (nested_base : Nested dir base) (nested_head : Nested dir head)
    (holds : Holds dir contents head)
    (listed : ∀ edit, edit ∈ edits ↔ Changed identity dir base head edit.1 ∧ edit.2 = head edit.1) :
    replay dir contents (leaves dir base) edits = leaves dir head ↔ Kept identity dir base head := by
  have faithful : ∀ edit ∈ edits, ∀ rest,
      leavesOf dir contents edit.2 rest = leaves dir head (edit.1 ++ rest) := by
    intro edit member rest
    obtain ⟨changed, put⟩ := (listed edit).mp member
    rw [put]
    apply leavesOf_eq nested_head holds
    intro root
    rw [root] at changed
    exact not_changed_nil bare empty changed
  have reached (path : List Name) : (∃ edit ∈ edits, edit.1 <+: path) ↔
      ∃ above, above <+: path ∧ Changed identity dir base head above := by
    constructor
    · rintro ⟨edit, member, upper⟩
      exact ⟨edit.1, upper, ((listed edit).mp member).1⟩
    · rintro ⟨above, upper, changed⟩
      exact ⟨(above, head above), (listed _).mpr ⟨changed, rfl⟩, upper⟩
  constructor
  · intro same path old new here there alike single
    have uncovered : ¬ ∃ edit ∈ edits, edit.1 <+: path := by
      rw [reached]
      rintro ⟨above, ⟨rest, rfl⟩, changed⟩
      by_cases whole : rest = []
      · rw [whole, List.append_nil] at here there
        apply changed.1
        rw [Alike, here, there, Option.map_some, Option.map_some, alike]
      · have somewhere : above ≠ [] := by
          rintro rfl
          exact not_changed_nil bare empty changed
        obtain ⟨parent, standing, isDir⟩ := nested_base above rest old somewhere whole here
        obtain ⟨parent', standing', isDir'⟩ := nested_head above rest new somewhere whole there
        exact changed.2.1 (.inl ⟨parent, parent', standing, standing', isDir, isDir'⟩)
    have at_path := congrFun same path
    rw [replay_eq edits _ path faithful, if_neg uncovered] at at_path
    cases leaf : dir old <;> cases leaf' : dir new
    · simpa [leaves, here, there, leaf, leaf', Option.filter] using at_path
    · simp [leaves, here, there, leaf, leaf', Option.filter] at at_path
    · simp [leaves, here, there, leaf, leaf', Option.filter] at at_path
    · exact absurd ⟨leaf, leaf'⟩ single
  · intro kept
    have kinds := kinds_of_kept kept
    funext path
    rw [replay_eq edits _ path faithful]
    by_cases covered : ∃ edit ∈ edits, edit.1 <+: path
    · rw [if_pos covered]
    · rw [if_neg covered]
      rw [reached] at covered
      rcases leaves_of_unchanged kinds path covered with ⟨none_here, none_there⟩ | ⟨old, new, here, there, alike, leaf, _⟩
      · rw [none_here, none_there]
      · rw [leaves, leaves, here, there, kept path old new here there alike (by simp [leaf])]

end Exact

end GitAnchor.Foundation.Layouts
