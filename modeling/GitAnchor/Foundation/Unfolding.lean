import Mathlib.Logic.Basic
import Mathlib.Data.Fin.Basic

/-! Terms with named definitions. A name stands for the term that a table defines it as, so a
term unfolds to a tree, endless where definitions go round; two terms, each under a table of
its own, are the same where the trees are. -/

namespace GitAnchor.Foundation.Unfolding
variable {Label : Type} {arity : Label → Nat}

/-- A name, or a label with as many terms under it as the label takes. -/
inductive Term (arity : Label → Nat) where
  | name (name : String)
  | node (label : Label) (parts : Fin (arity label) → Term arity)

abbrev Table (arity : Label → Nat) := String → Option (Term arity)

namespace Term

theorem node_inj {label : Label} {parts parts' : Fin (arity label) → Term arity} :
    node label parts = node label parts' ↔ ∀ i, parts i = parts' i := by
  rw [← funext_iff]
  constructor
  · intro same
    injection same
  · intro same
    rw [same]

def decEq [DecidableEq Label] : (one other : Term arity) → Decidable (one = other)
  | .name one, .name other => decidable_of_iff (one = other) ⟨congrArg Term.name, fun same => by injection same⟩
  | .name _, .node _ _ => isFalse nofun
  | .node _ _, .name _ => isFalse nofun
  | .node label parts, .node label' parts' =>
      if same : label = label' then
        match label', same, parts' with
        | _, rfl, parts' =>
            have : ∀ i, Decidable (parts i = parts' i) := fun i => decEq (parts i) (parts' i)
            decidable_of_iff (∀ i, parts i = parts' i) node_inj.symm
      else isFalse fun equal => by injection equal; contradiction

instance [DecidableEq Label] : DecidableEq (Term arity) := decEq

end Term

/-- A term leads to a node: by itself, or through the definitions of names. -/
inductive Leads (table : Table arity) : Term arity → (label : Label) → (Fin (arity label) → Term arity) → Prop where
  | node (label : Label) (parts : Fin (arity label) → Term arity) : Leads table (.node label parts) label parts
  | name (name : String) (target : Term arity) (label : Label) (parts : Fin (arity label) → Term arity)
      (defined : table name = some target) (leads : Leads table target label parts) :
      Leads table (.name name) label parts

/-- The trees of two terms agree down to a depth: the nodes that they lead to have one label,
and agree part by part. -/
def Agree (table table' : Table arity) : Nat → Term arity → Term arity → Prop
  | 0, _, _ => True
  | depth + 1, one, other => ∃ label parts parts', Leads table one label parts ∧ Leads table' other label parts' ∧
      ∀ i, Agree table table' depth (parts i) (parts' i)

/-- The trees of two terms agree to every depth. -/
def Same (table table' : Table arity) (one other : Term arity) : Prop := ∀ depth, Agree table table' depth one other

/-- A term has a name somewhere in it. -/
inductive Mentions : Term arity → String → Prop where
  | here (name : String) : Mentions (.name name) name
  | under (label : Label) (parts : Fin (arity label) → Term arity) (i : Fin (arity label)) (name : String)
      (mentioned : Mentions (parts i) name) : Mentions (.node label parts) name

/-- Somewhere in two terms there are two names, or a name beside a node, where all above is alike. -/
inductive Respelled : Term arity → Term arity → Prop where
  | renamed (name name' : String) (different : name ≠ name') : Respelled (.name name) (.name name')
  | inlined (name : String) (label : Label) (parts : Fin (arity label) → Term arity) :
      Respelled (.node label parts) (.name name)
  | outlined (name : String) (label : Label) (parts : Fin (arity label) → Term arity) :
      Respelled (.name name) (.node label parts)
  | under (label : Label) (parts parts' : Fin (arity label) → Term arity) (i : Fin (arity label))
      (respelled : Respelled (parts i) (parts' i)) : Respelled (.node label parts) (.node label parts')

variable {table table' : Table arity}

theorem leads_unique {term : Term arity} {label label' : Label} {parts : Fin (arity label) → Term arity}
    {parts' : Fin (arity label') → Term arity} (one : Leads table term label parts)
    (other : Leads table term label' parts') : Term.node label parts = .node label' parts' := by
  induction one with
  | node label parts =>
    cases other
    rfl
  | name name target label parts defined _ ih =>
    cases other with
    | name _ target' _ _ defined' leads' =>
      obtain rfl := Option.some.inj (defined.symm.trans defined')
      exact ih leads'

theorem leads_node_iff {label label' : Label} {parts : Fin (arity label) → Term arity}
    {parts' : Fin (arity label') → Term arity} :
    Leads table (.node label parts) label' parts' ↔ Term.node label parts = .node label' parts' := by
  constructor
  · exact leads_unique (.node label parts)
  · intro same
    injection same with labels pieces
    subst labels
    rw [eq_of_heq pieces]
    exact .node _ _

theorem leads_name_iff {name : String} {label : Label} {parts : Fin (arity label) → Term arity} :
    Leads table (.name name) label parts ↔ ∃ target, table name = some target ∧ Leads table target label parts := by
  constructor
  · intro leads
    cases leads with
    | name _ target _ _ defined leads => exact ⟨target, defined, leads⟩
  · rintro ⟨target, defined, leads⟩
    exact .name name target label parts defined leads

/-- Two terms are the same exactly when they lead to nodes of one label with the same parts. -/
theorem same_iff {one other : Term arity} :
    Same table table' one other ↔ ∃ label parts parts', Leads table one label parts ∧
      Leads table' other label parts' ∧ ∀ i, Same table table' (parts i) (parts' i) := by
  constructor
  · intro same
    obtain ⟨label, parts, parts', leads, leads', _⟩ := same 1
    refine ⟨label, parts, parts', leads, leads', ?_⟩
    intro i depth
    obtain ⟨found, pieces, pieces', finds, finds', agree⟩ := same (depth + 1)
    have left := leads_unique leads finds
    have right := leads_unique leads' finds'
    obtain ⟨labels, _⟩ := Term.node.inj left
    subst labels
    rw [Term.node_inj] at left right
    rw [left i, right i]
    exact agree i
  · rintro ⟨label, parts, parts', leads, leads', same⟩ depth
    cases depth with
    | zero => trivial
    | succ depth => exact ⟨label, parts, parts', leads, leads', fun i => same i depth⟩

theorem same_node_iff {label : Label} {parts parts' : Fin (arity label) → Term arity} :
    Same table table' (.node label parts) (.node label parts') ↔ ∀ i, Same table table' (parts i) (parts' i) := by
  rw [same_iff]
  constructor
  · rintro ⟨found, pieces, pieces', leads, leads', same⟩ i
    have left := leads_node_iff.mp leads
    have right := leads_node_iff.mp leads'
    obtain ⟨labels, _⟩ := Term.node.inj left
    subst labels
    rw [Term.node_inj] at left right
    rw [left i, right i]
    exact same i
  · intro same
    exact ⟨label, parts, parts', .node _ _, .node _ _, same⟩

/-- A term may be taken for any other that leads where it does. -/
theorem same_congr {one one' other other' : Term arity}
    (left : ∀ label parts, Leads table one label parts ↔ Leads table one' label parts)
    (right : ∀ label parts, Leads table' other label parts ↔ Leads table' other' label parts) :
    Same table table' one other ↔ Same table table' one' other' := by
  rw [same_iff, same_iff]
  simp only [left, right]

/-- One term is the same under two tables exactly when each name in it is. -/
theorem same_self_iff (term : Term arity) :
    Same table table' term term ↔ ∀ name, Mentions term name → Same table table' (.name name) (.name name) := by
  induction term with
  | name name =>
    constructor
    · intro same _ mentioned
      cases mentioned
      exact same
    · intro all
      exact all name (.here name)
  | node label parts ih =>
    rw [same_node_iff]
    constructor
    · intro same name mentioned
      cases mentioned with
      | under _ _ i _ below => exact (ih i).mp (same i) name below
    · intro all i
      exact (ih i).mpr (fun name mentioned => all name (.under label parts i name mentioned))

/-- Terms that are the same and not equal use names differently somewhere. -/
theorem respelled_of_same (one other : Term arity) (same : Same table table' one other) (different : one ≠ other) :
    Respelled one other := by
  induction one generalizing other with
  | name name =>
    cases other with
    | name name' => exact .renamed name name' (fun equal => different (congrArg Term.name equal))
    | node label parts => exact .outlined name label parts
  | node label parts ih =>
    cases other with
    | name name' => exact .inlined name' label parts
    | node label' parts' =>
      obtain ⟨found, pieces, pieces', leads, leads', _⟩ := same_iff.mp same
      have left := leads_node_iff.mp leads
      have right := leads_node_iff.mp leads'
      obtain ⟨labels, _⟩ := Term.node.inj left
      subst labels
      obtain ⟨labels', _⟩ := Term.node.inj right
      subst labels'
      rw [ne_eq, Term.node_inj, not_forall] at different
      obtain ⟨i, differs⟩ := different
      exact .under _ parts parts' i (ih i (parts' i) (same_node_iff.mp same i) differs)

theorem ne_of_respelled {one other : Term arity} (respelled : Respelled one other) : one ≠ other := by
  induction respelled with
  | renamed name name' different =>
    intro equal
    injection equal
    contradiction
  | inlined => exact nofun
  | outlined => exact nofun
  | under label parts parts' i _ ih =>
    intro equal
    exact ih (Term.node_inj.mp equal i)

end GitAnchor.Foundation.Unfolding
