import Mathlib.Data.Set.Insert
import Mathlib.Data.List.Nodup
import GitAnchor.Foundation.Result

/-! Removing entities by name. All names are checked before any is deleted, so that a bad name
leaves everything in place; but what the check saw of a name is out of date once an earlier
deletion of the same call has taken it. -/

namespace GitAnchor.Anchoring
open GitAnchor.Foundation

abbrev RefSegment := String
abbrev RefPath := String

inductive DeleteResult where
  | deleted | alreadyDeleted | absent
deriving DecidableEq

/-- The entities of a store, kind by kind, with no other writer. What can be read is live; a
deletion takes one live entity and leaves the others, and a failed one leaves all. -/
structure EntityStore (State Value : Type) where
  read : State → RefSegment → RefPath → Except String (Option Value)
  deleteName : State → RefSegment → RefPath → Except String (DeleteResult × State)
  live : State → RefSegment → Set RefPath
  read_live : ∀ s kind name found, read s kind name = .ok found → (found.isSome ↔ name ∈ live s kind)
  deleted_live : ∀ s t kind name, deleteName s kind name = .ok (.deleted, t) →
    name ∈ live s kind ∧ live t kind = live s kind \ {name}
  missing_live : ∀ s t kind name result, deleteName s kind name = .ok (result, t) → result ≠ .deleted →
    name ∉ live s kind ∧ live t kind = live s kind

inductive RemoveError where
  | store (failure : String)
  | noEntity (name : RefPath) (kind : RefSegment)
deriving DecidableEq

def RemoveError.message : RemoveError → String
  | .store failure => failure
  | .noEntity name kind => "no entity " ++ name ++ " in kind " ++ kind

variable {State Value : Type} (store : EntityStore State Value)

/-- The first loop: every name is that of an entity. -/
def confirmAll (s : State) (kind : RefSegment) : List RefPath → Except RemoveError Unit
  | [] => .ok ()
  | name :: rest =>
      match store.read s kind name with
      | .error failure => .error (.store failure)
      | .ok none => .error (.noEntity name kind)
      | .ok (some _) => confirmAll s kind rest

/-- The second loop: the names one by one, until one is not there to delete. -/
def deleteEach (s : State) (kind : RefSegment) : List RefPath → Except RemoveError Unit × State
  | [] => (.ok (), s)
  | name :: rest =>
      match store.deleteName s kind name with
      | .error failure => (.error (.store failure), s)
      | .ok (.deleted, t) => deleteEach t kind rest
      | .ok (_, t) => (.error (.noEntity name kind), t)

def cmdRemove (s : State) (kind : RefSegment) (names : List RefPath) : Except RemoveError Unit × State :=
  match confirmAll store s kind names with
  | .error failure => (.error failure, s)
  | .ok () => deleteEach store s kind names

/-- Nothing is gone where the command fails, and exactly what it names where it succeeds. -/
structure Atomic (s : State) (kind : RefSegment) (names : List RefPath) : Prop where
  failed : ∀ failure, (cmdRemove store s kind names).1 = .error failure →
    store.live (cmdRemove store s kind names).2 kind = store.live s kind
  done : (cmdRemove store s kind names).1 = .ok () →
    (∀ name ∈ names, name ∈ store.live s kind) ∧
      store.live (cmdRemove store s kind names).2 kind = store.live s kind \ {name | name ∈ names}

/-- The name can be read, and is that of an entity. -/
def EntityStore.Confirms (s : State) (kind : RefSegment) (name : RefPath) : Prop :=
  ∃ value, store.read s kind name = .ok (some value)

/-- The store as it is once each of the names has been deleted in turn. -/
def EntityStore.without (s : State) (kind : RefSegment) : List RefPath → Option State
  | [] => some s
  | name :: rest =>
      match store.deleteName s kind name with
      | .ok (.deleted, t) => EntityStore.without t kind rest
      | _ => none

/-- The store refuses a deletion after others of the same call. -/
def EntityStore.RefusesLate (s : State) (kind : RefSegment) (names : List RefPath) : Prop :=
  ∃ before name after t failure, names = before ++ name :: after ∧ before ≠ [] ∧
    store.without s kind before = some t ∧ store.deleteName t kind name = .error failure

/-- The store refuses the first deletion. -/
def EntityStore.RefusesFirst (s : State) (kind : RefSegment) (names : List RefPath) : Prop :=
  ∃ name rest failure, names = name :: rest ∧ store.deleteName s kind name = .error failure

/-! The loops. -/

theorem confirmAll_eq_ok (s : State) (kind : RefSegment) (names : List RefPath) :
    confirmAll store s kind names = .ok () ↔ ∀ name ∈ names, store.Confirms s kind name := by
  induction names with
  | nil => exact iff_of_true rfl nofun
  | cons name rest ih =>
    rw [List.forall_mem_cons, ← ih]
    rw [confirmAll, EntityStore.Confirms]
    cases found : store.read s kind name with
    | error failure => simp
    | ok value => cases value <;> simp

/-- Deleting takes distinct live entities, and leaves all the others. -/
theorem without_live (s t : State) (kind : RefSegment) (names : List RefPath)
    (deleted : store.without s kind names = some t) :
    names.Nodup ∧ (∀ name ∈ names, name ∈ store.live s kind) ∧
      store.live t kind = store.live s kind \ {name | name ∈ names} := by
  induction names generalizing s with
  | nil =>
    obtain rfl := Option.some.inj deleted
    refine ⟨List.nodup_nil, nofun, ?_⟩
    ext name
    simp
  | cons name rest ih =>
    unfold EntityStore.without at deleted
    split at deleted
    · next u first =>
      obtain ⟨here, taken⟩ := store.deleted_live s u kind name first
      obtain ⟨distinct, there, left⟩ := ih u deleted
      rw [taken] at there left
      refine ⟨List.nodup_cons.mpr ⟨fun again => (there name again).2 rfl, distinct⟩, ?_, ?_⟩
      · intro other member
        rcases List.mem_cons.mp member with rfl | later
        · exact here
        · exact (there other later).1
      · ext other
        rw [left]
        simp only [Set.mem_sdiff, Set.mem_singleton_iff, Set.mem_ofPred_eq, List.mem_cons, not_or, and_assoc]
    · cases deleted

/-- How the second loop ends: all are deleted, or it is stuck at a name that the store
refuses to delete or no longer has. -/
theorem deleteEach_outcome (s : State) (kind : RefSegment) (names : List RefPath) :
    (∃ t, store.without s kind names = some t ∧ deleteEach store s kind names = (.ok (), t)) ∨
      ∃ before name after t failure u, names = before ++ name :: after ∧ store.without s kind before = some t ∧
        deleteEach store s kind names = (.error failure, u) ∧ store.live u kind = store.live t kind ∧
        ((∃ refusal, store.deleteName t kind name = .error refusal) ∨ name ∉ store.live t kind) := by
  induction names generalizing s with
  | nil => exact .inl ⟨s, rfl, rfl⟩
  | cons name rest ih =>
    rw [deleteEach, EntityStore.without]
    cases tried : store.deleteName s kind name with
    | error refusal =>
      exact .inr ⟨[], name, rest, s, _, s, rfl, rfl, rfl, rfl, .inl ⟨refusal, tried⟩⟩
    | ok outcome =>
      obtain ⟨result, t⟩ := outcome
      by_cases took : result = .deleted
      · subst took
        rcases ih t with all | ⟨before, stuck, after, u, failure, v, split, there, ended, same, why⟩
        · exact .inl all
        · refine .inr ⟨name :: before, stuck, after, u, failure, v, by rw [split]; rfl, ?_, ended, same, why⟩
          rw [EntityStore.without, tried]
          exact there
      · obtain ⟨gone, same⟩ := store.missing_live s t kind name result tried took
        refine .inr ⟨[], name, rest, s, .noEntity name kind, t, rfl, rfl, ?_, same, .inr gone⟩
        cases result with
        | deleted => exact absurd rfl took
        | alreadyDeleted => rfl
        | absent => rfl

theorem without_append (s : State) (kind : RefSegment) (before after : List RefPath) :
    store.without s kind (before ++ after) =
      (store.without s kind before).bind (fun t => store.without t kind after) := by
  induction before generalizing s with
  | nil => rfl
  | cons name rest ih =>
    rw [List.cons_append, EntityStore.without, EntityStore.without]
    split
    · next t taken => exact ih t
    · rfl

theorem not_refusesLate_of_without (s t : State) (kind : RefSegment) (names : List RefPath)
    (deleted : store.without s kind names = some t) : ¬ store.RefusesLate s kind names := by
  rintro ⟨before, name, after, u, failure, rfl, _, there, refused⟩
  rw [without_append, there, Option.bind_some, EntityStore.without, refused] at deleted
  cases deleted

/-! The command. -/

/-- A command that fails is atomic exactly when it leaves what was there. -/
theorem atomic_iff_of_failed (s t : State) (kind : RefSegment) (names : List RefPath) (failure : RemoveError)
    (ran : cmdRemove store s kind names = (.error failure, t)) :
    Atomic store s kind names ↔ store.live t kind = store.live s kind := by
  constructor
  · intro atomic
    have kept := atomic.failed failure (by rw [ran])
    rw [ran] at kept
    exact kept
  · intro kept
    constructor
    · intro _ _
      rw [ran]
      exact kept
    · intro succeeded
      rw [ran] at succeeded
      cases succeeded

theorem cmdRemove_of_confirmed (s : State) (kind : RefSegment) (names : List RefPath)
    (confirmed : ∀ name ∈ names, store.Confirms s kind name) :
    cmdRemove store s kind names = deleteEach store s kind names := by
  unfold cmdRemove
  rw [(confirmAll_eq_ok store s kind names).mpr confirmed]

/-- A name that is not confirmed stops the command before it deletes anything. -/
theorem atomic_of_unconfirmed (s : State) (kind : RefSegment) (names : List RefPath)
    (unconfirmed : ∃ name ∈ names, ¬ store.Confirms s kind name) : Atomic store s kind names := by
  obtain ⟨name, member, missing⟩ := unconfirmed
  cases checked : confirmAll store s kind names with
  | error failure =>
    have ran : cmdRemove store s kind names = (.error failure, s) := by
      unfold cmdRemove
      rw [checked]
    exact (atomic_iff_of_failed store s s kind names failure ran).mpr rfl
  | ok _ => exact absurd ((confirmAll_eq_ok store s kind names).mp checked name member) missing

/-- The first name is gone by the time the command is stuck at a later one. -/
theorem not_atomic_of_stuck (s t u : State) (kind : RefSegment) (first : RefPath) (rest names : List RefPath)
    (failure : RemoveError) (ran : cmdRemove store s kind names = (.error failure, u))
    (deleted : store.without s kind (first :: rest) = some t) (same : store.live u kind = store.live t kind) :
    ¬ Atomic store s kind names := by
  obtain ⟨_, had, left⟩ := without_live store s t kind (first :: rest) deleted
  rw [atomic_iff_of_failed store s u kind names failure ran, same, left]
  intro kept
  have still := had first List.mem_cons_self
  rw [← kept] at still
  exact still.2 List.mem_cons_self

/-- Where all names are confirmed, a removal is all or nothing exactly when the first deletion
is refused, or none is and no name comes twice. -/
theorem atomic_iff_of_confirmed (s : State) (kind : RefSegment) (names : List RefPath)
    (confirmed : ∀ name ∈ names, store.Confirms s kind name) :
    Atomic store s kind names ↔
      store.RefusesFirst s kind names ∨ (names.Nodup ∧ ¬ store.RefusesLate s kind names) := by
  have alive (name : RefPath) (member : name ∈ names) : name ∈ store.live s kind := by
    obtain ⟨value, read⟩ := confirmed name member
    exact (store.read_live s kind name _ read).mp rfl
  have ran := cmdRemove_of_confirmed store s kind names confirmed
  rcases deleteEach_outcome store s kind names with ⟨t, deleted, ended⟩ |
    ⟨before, name, after, t, failure, u, rfl, there, ended, same, why⟩
  · rw [ended] at ran
    obtain ⟨distinct, _, left⟩ := without_live store s t kind names deleted
    refine iff_of_true ⟨?_, ?_⟩ (.inr ⟨distinct, not_refusesLate_of_without store s t kind names deleted⟩)
    · intro failure failed
      rw [ran] at failed
      cases failed
    · intro _
      rw [ran]
      exact ⟨alive, left⟩
  · rw [ended] at ran
    cases before with
    | nil =>
      obtain rfl := Option.some.inj there
      have refused : store.RefusesFirst s kind (name :: after) := by
        rcases why with ⟨refusal, refused⟩ | gone
        · exact ⟨name, after, refusal, rfl, refused⟩
        · exact absurd (alive name List.mem_cons_self) gone
      exact iff_of_true ((atomic_iff_of_failed store s u kind _ failure ran).mpr same) (.inl refused)
    | cons first rest =>
      refine iff_of_false (not_atomic_of_stuck store s t u kind first rest _ failure ran there same) ?_
      rintro (⟨name', rest', refusal, split, refused⟩ | ⟨distinct, unrefused⟩)
      · obtain ⟨rfl, _⟩ := List.cons.inj split
        rw [EntityStore.without, refused] at there
        cases there
      · rcases why with ⟨refusal, refused⟩ | gone
        · exact unrefused ⟨first :: rest, name, after, t, refusal, rfl, List.cons_ne_nil _ _, there, refused⟩
        · -- the name is among those deleted before it
          rw [(without_live store s t kind (first :: rest) there).2.2] at gone
          have earlier : name ∈ first :: rest := by
            by_contra fresh
            exact gone ⟨alive name (List.mem_append_right _ List.mem_cons_self), fresh⟩
          exact (List.nodup_append.mp distinct).2.2 name earlier name List.mem_cons_self rfl

/-- A removal is all or nothing exactly when it fails before it deletes anything, or when no
name comes twice and the store refuses no later deletion. -/
theorem cmdRemove_atomic_iff (s : State) (kind : RefSegment) (names : List RefPath) :
    Atomic store s kind names ↔
      (∃ name ∈ names, ¬ store.Confirms s kind name) ∨ store.RefusesFirst s kind names ∨
        (names.Nodup ∧ ¬ store.RefusesLate s kind names) := by
  by_cases unconfirmed : ∃ name ∈ names, ¬ store.Confirms s kind name
  · exact iff_of_true (atomic_of_unconfirmed store s kind names unconfirmed) (.inl unconfirmed)
  · have confirmed : ∀ name ∈ names, store.Confirms s kind name := by
      simpa only [not_exists, not_and, not_not] using unconfirmed
    rw [or_iff_right unconfirmed]
    exact atomic_iff_of_confirmed store s kind names confirmed

section Sample

/-- The entities of each kind that are there, and those that were. -/
structure Entities where
  alive : List (RefSegment × RefPath)
  buried : List (RefSegment × RefPath)
deriving DecidableEq

def entityStore : EntityStore Entities Unit :=
  { read := fun s kind name => .ok (if (kind, name) ∈ s.alive then some () else none)
    deleteName := fun s kind name =>
      if (kind, name) ∈ s.alive then
        .ok (.deleted, ⟨s.alive.filter (· ≠ (kind, name)), (kind, name) :: s.buried⟩)
      else if (kind, name) ∈ s.buried then .ok (.alreadyDeleted, s)
      else .ok (.absent, s)
    live := fun s kind => {name | (kind, name) ∈ s.alive}
    read_live := by
      intro s kind name found read
      rw [← Except.ok.inj read]
      split
      · next here => exact iff_of_true rfl here
      · next gone => exact iff_of_false nofun gone
    deleted_live := by
      intro s t kind name deleted
      split at deleted
      · next here =>
        obtain ⟨_, rfl⟩ := Prod.mk.inj (Except.ok.inj deleted)
        refine ⟨here, ?_⟩
        ext other
        simp
      · split at deleted <;> cases deleted
    missing_live := by
      intro s t kind name result missed other
      split at missed
      · obtain ⟨rfl, _⟩ := Prod.mk.inj (Except.ok.inj missed)
        exact absurd rfl other
      · next gone =>
        split at missed <;>
          obtain ⟨_, rfl⟩ := Prod.mk.inj (Except.ok.inj missed) <;>
          exact ⟨gone, rfl⟩ }

def twoDocs : Entities := ⟨[("doc", "a"), ("doc", "b")], []⟩

/-- One entity named twice is deleted, and then reported missing. -/
theorem repeated_name_removed :
    cmdRemove entityStore twoDocs "doc" ["a", "a"] =
        (.error (.noEntity "a" "doc"), ⟨[("doc", "b")], [("doc", "a")]⟩) ∧
      ¬ Atomic entityStore twoDocs "doc" ["a", "a"] := by
  have ran : cmdRemove entityStore twoDocs "doc" ["a", "a"] =
      (.error (.noEntity "a" "doc"), ⟨[("doc", "b")], [("doc", "a")]⟩) := by decide
  refine ⟨ran, ?_⟩
  intro atomic
  have kept := atomic.failed _ (congrArg Prod.fst ran)
  have here : "a" ∈ entityStore.live twoDocs "doc" := List.mem_cons_self
  rw [← kept, ran] at here
  exact absurd here (by decide : ("doc", "a") ∉ [("doc", "b")])

end Sample

end GitAnchor.Anchoring
