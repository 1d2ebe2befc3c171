import GitAnchor.Foundation.Transition
import GitAnchor.Anchoring.Reachability

/-! What the validity of a binding means, apart from how it is computed: whether there is
evidence, and whether it is in favour. It is the same for all bindings of an identity, whatever
their hints, and what holds of a commit goes on to hold as a branch moves ahead. -/

namespace GitAnchor.Anchoring
open GitAnchor.Foundation GitAnchor.Substrate
open scoped Classical

variable {ObjectId : Type} {gix : Gix ObjectId}

/-- A revision that is resolved and read: its commit, and the root of its tree. -/
structure Resolved (repo : History gix) (revision : String) (target root : ObjectId) : Prop where
  commit : resolveCommit repo.toRepository revision = .ok target
  tree : treeOf repo.toRepository target = .ok root
  readable : Readable repo root
  descends : LookupDescends repo root

/-- The revision names a commit. -/
def LeadsToCommit (repo : History gix) (revision : String) : Prop :=
  ∃ target, resolveCommit repo.toRepository revision = .ok target

/-- There is something to judge the binding by. A position is traced, and judged apart. -/
def Evident (repo : History gix) (state : EvalState ObjectId) : Binding ObjectId → Prop
  | .commit identity _ => LeadsToCommit repo state.revision ∧ repo.hasObject identity.commit = true
  | .hybrid identity _ => LeadsToCommit repo state.revision ∧ repo.hasObject identity.commit = true
  | .delta _ _ => state.delta.isSome
  | .tree _ _ => LeadsToCommit repo state.revision
  | .position _ => False

/-- The target commit is the bound one, or a descendant of it. -/
def Reached (gix : Gix ObjectId) (parents : ObjectId → List ObjectId) (target commit : ObjectId) : Prop :=
  (gix.rootTree commit).isSome ∧ Ancestry.Reaches (ParentLink parents) target commit

/-- The commit is in the history of the revision. -/
def InHistory (repo : History gix) (parents : ObjectId → List ObjectId) (revision : String) (commit : ObjectId) : Prop :=
  ∃ target, resolveCommit repo.toRepository revision = .ok target ∧ Reached gix parents target commit

/-- The tree is that of the revision, or anywhere below. -/
def InTree (repo : History gix) (revision : String) (tree : ObjectId) : Prop :=
  ∃ target root, resolveCommit repo.toRepository revision = .ok target ∧
    treeOf repo.toRepository target = .ok root ∧ repo.Below root tree

/-- What is bound is there. -/
def Stands (repo : History gix) (parents : ObjectId → List ObjectId) (state : EvalState ObjectId) :
    Binding ObjectId → Prop
  | .commit identity _ => InHistory repo parents state.revision identity.commit
  | .tree identity _ => InTree repo state.revision identity.tree
  | .delta identity _ => state.delta = some (identity.baseTree, identity.headTree)
  | .hybrid identity _ => InHistory repo parents state.revision identity.commit ∧ InTree repo state.revision identity.tree
  | .position _ => False

/-- The validity that the evidence makes. -/
noncomputable def meaning (evident stands : Prop) : Validity :=
  if evident then if stands then .valid else .stale else .unknown

theorem meaning_unknown (evident stands : Prop) (absent : ¬ evident) : meaning evident stands = .unknown := if_neg absent

/-- Where one half has less evidence than the other, it decides whether there is any. -/
theorem combine_meaning (evident evident' stands stands' : Prop) (less : evident → evident') :
    combine (meaning evident stands) (meaning evident' stands') = meaning evident (stands ∧ stands') := by
  unfold meaning
  by_cases known : evident
  · have known' := less known
    by_cases first : stands <;> by_cases second : stands' <;> simp [known, known', first, second, combine]
  · simp [known, combine]

theorem not_leadsToCommit (repo : History gix) (revision : String) (failure : Error ObjectId)
    (unresolved : resolveCommit repo.toRepository revision = .error failure) : ¬ LeadsToCommit repo revision := by
  rintro ⟨target, resolved⟩
  exact nomatch unresolved.symm.trans resolved

variable [DecidableEq ObjectId]

theorem commitValidity_resolved (repo : History gix) (parents : ObjectId → List ObjectId)
    (merges : MergeBaseBest repo parents) (commit target : ObjectId) (revision : String)
    (resolved : resolveCommit repo.toRepository revision = .ok target) :
    commitValidity repo commit revision = meaning (repo.hasObject commit = true) (Reached gix parents target commit) := by
  have targetIsCommit := resolveCommit_isCommit repo.toRepository revision target resolved
  have related : (commit = target ∨ repo.mergeBase commit target = some commit) ↔ Reached gix parents target commit := by
    constructor
    · intro either
      rcases either with same | base
      · rw [same]
        exact ⟨targetIsCommit, .refl⟩
      · exact ⟨(repo.mergeBase_commits commit target commit base).1, (merges.best commit target commit base).1.2⟩
    · intro reached
      right
      cases base : repo.mergeBase commit target with
      | some found => rw [(Ancestry.best_eq_left_iff _ commit target found (merges.best _ _ _ base)).mpr reached.2]
      | none => exact absurd ⟨.refl, reached.2⟩ (merges.fails commit target reached.1 targetIsCommit base commit)
  unfold commitValidity meaning
  cases held : repo.hasObject commit with
  | false => simp
  | true => simp only [resolved, related, if_true, Bool.true_eq_false, if_false]

theorem commitValidity_meaning (repo : History gix) (parents : ObjectId → List ObjectId)
    (merges : MergeBaseBest repo parents) (commit : ObjectId) (revision : String) :
    commitValidity repo commit revision =
      meaning (LeadsToCommit repo revision ∧ repo.hasObject commit = true) (InHistory repo parents revision commit) := by
  cases resolved : resolveCommit repo.toRepository revision with
  | error failure =>
    have unnamed := not_leadsToCommit repo revision failure resolved
    rw [meaning_unknown _ _ (fun evident => unnamed evident.1)]
    unfold commitValidity
    simp [resolved]
  | ok target =>
    have named : LeadsToCommit repo revision := ⟨target, resolved⟩
    have there : InHistory repo parents revision commit ↔ Reached gix parents target commit := by
      simp only [InHistory, resolved, Except.ok.injEq, exists_eq_left']
    rw [commitValidity_resolved repo parents merges commit target revision resolved]
    simp only [named, there, true_and]

/-- With enough fuel both searches for a tree come to whether it is there, and so the path
that was recorded makes no difference. -/
theorem treeValidity_resolved (repo : History gix) (revision : String) (target root tree : ObjectId)
    (resolved : Resolved repo revision target root) :
    ∃ enough, ∀ fuel, enough ≤ fuel →
      treeReachable repo fuel tree revision = pure (meaning True (repo.Below root tree)) ∧
        ∀ path, treeValidity repo fuel tree path revision = pure (meaning True (repo.Below root tree)) := by
  obtain ⟨enough, searched⟩ := treeContains_eq repo root tree resolved.readable
  refine ⟨enough, ?_⟩
  intro fuel covered
  obtain ⟨answer, returned, exactly⟩ := searched fuel covered
  have judged : (if answer = true then Validity.valid else .stale) = meaning True (repo.Below root tree) := by
    unfold meaning
    rw [if_pos trivial]
    by_cases there : repo.Below root tree
    · rw [if_pos there, if_pos (exactly.mpr there)]
    · rw [if_neg there, if_neg (fun yes => there (exactly.mp yes))]
  constructor
  · unfold treeReachable
    simp only [resolved.commit, resolved.tree, Walk.of_ok, pure_bind, returned, judged]
  · intro path
    unfold treeValidity
    simp only [resolved.commit, resolved.tree, Walk.of_ok, pure_bind]
    split
    · next entry looked =>
      split
      · next here =>
        obtain ⟨above, inside, member⟩ := resolved.descends path entry looked
        have below : repo.Below root tree := inside.tail ⟨entry, member, here⟩
        rw [meaning, if_pos trivial, if_pos below]
      · rw [returned, pure_bind, judged]
    · rw [returned, pure_bind, judged]

/-- A revision that names no commit is as good as one that can be read. -/
theorem treeValidity_meaning (repo : History gix) (revision : String) (tree : ObjectId)
    (readable : ∀ target, resolveCommit repo.toRepository revision = .ok target → ∃ root, Resolved repo revision target root) :
    ∃ enough, ∀ fuel, enough ≤ fuel →
      treeReachable repo fuel tree revision = pure (meaning (LeadsToCommit repo revision) (InTree repo revision tree)) ∧
        ∀ path, treeValidity repo fuel tree path revision = pure (meaning (LeadsToCommit repo revision) (InTree repo revision tree)) := by
  cases commit : resolveCommit repo.toRepository revision with
  | error failure =>
    rw [meaning_unknown _ _ (not_leadsToCommit repo revision failure commit)]
    exact ⟨0, fun fuel _ => ⟨by simp only [treeReachable, commit], fun path => by simp only [treeValidity, commit]⟩⟩
  | ok target =>
    obtain ⟨root, resolved⟩ := readable target commit
    have named : LeadsToCommit repo revision ↔ True := iff_true_intro ⟨target, commit⟩
    have there : InTree repo revision tree ↔ repo.Below root tree := by
      simp only [InTree, commit, Except.ok.injEq, exists_and_left, exists_eq_left', resolved.tree]
    rw [named, there]
    exact treeValidity_resolved repo revision target root tree resolved

theorem deltaValidity_meaning (baseTree headTree : ObjectId) (delta : Option (ObjectId × ObjectId)) :
    deltaValidity baseTree headTree delta = meaning delta.isSome (delta = some (baseTree, headTree)) := by
  unfold deltaValidity meaning
  cases delta with
  | none => simp
  | some pair => simp only [Option.isSome_some, if_true, Option.some.injEq]

/-- The code computes what the validity means: unknown without evidence (at a revision that names
no commit all but deltas are), else valid exactly where what is bound stands. -/
theorem revalidate_means (repo : History gix) (parents : ObjectId → List ObjectId) (merges : MergeBaseBest repo parents)
    (state : EvalState ObjectId)
    (readable : ∀ target, resolveCommit repo.toRepository state.revision = .ok target →
      ∃ root, Resolved repo state.revision target root)
    (binding : Binding ObjectId) (placeless : ∀ anchor, binding ≠ .position anchor) :
    ∃ enough, ∀ fuel, enough ≤ fuel → revalidate repo fuel binding state =
      pure (meaning (Evident repo state binding) (Stands repo parents state binding)) := by
  cases binding with
  | position anchor => exact absurd rfl (placeless anchor)
  | commit identity hints =>
    refine ⟨0, ?_⟩
    intro fuel _
    rw [revalidate, commitValidity_meaning repo parents merges]
    rfl
  | delta identity hints =>
    refine ⟨0, ?_⟩
    intro fuel _
    rw [revalidate, deltaValidity_meaning]
    rfl
  | tree identity hints =>
    obtain ⟨enough, judged⟩ := treeValidity_meaning repo state.revision identity.tree readable
    exact ⟨enough, fun fuel covered => (judged fuel covered).2 hints.path⟩
  | hybrid identity hints =>
    obtain ⟨enough, judged⟩ := treeValidity_meaning repo state.revision identity.tree readable
    refine ⟨enough, ?_⟩
    intro fuel covered
    rw [revalidate, (judged fuel covered).1, pure_bind, commitValidity_meaning repo parents merges,
      combine_meaning _ _ _ _ And.left]
    rfl

/-! Bindings of one identity. -/

/-- A tree is judged alike whatever path is recorded for it, also where it cannot be judged. -/
theorem treeValidity_congr (repo : History gix) (tree : ObjectId) (revision : String)
    (readable : ∀ target root, resolveCommit repo.toRepository revision = .ok target →
      treeOf repo.toRepository target = .ok root → Readable repo root ∧ LookupDescends repo root) :
    ∃ enough, ∀ fuel, enough ≤ fuel → ∀ path path',
      treeValidity repo fuel tree path revision = treeValidity repo fuel tree path' revision := by
  cases commit : resolveCommit repo.toRepository revision with
  | error failure => exact ⟨0, fun fuel _ path path' => by simp only [treeValidity, commit]⟩
  | ok target =>
    cases rooted : treeOf repo.toRepository target with
    | error failure =>
      refine ⟨0, ?_⟩
      intro fuel _ path path'
      simp only [treeValidity, commit, rooted]
      rfl
    | ok root =>
      obtain ⟨whole, descends⟩ := readable target root commit rooted
      obtain ⟨enough, judged⟩ := treeValidity_resolved repo revision target root tree ⟨commit, rooted, whole, descends⟩
      refine ⟨enough, ?_⟩
      intro fuel covered path path'
      rw [(judged fuel covered).2 path, (judged fuel covered).2 path']

omit [DecidableEq ObjectId] in
theorem identity_eq_of_same (one other : Anchor ObjectId)
    (same : (Binding.position one).SameIdentity (.position other)) : one.identity = other.identity := by
  obtain ⟨⟨genesis, path, span⟩, hints⟩ := one
  obtain ⟨⟨genesis', path', span'⟩, hints'⟩ := other
  obtain ⟨rfl, rfl, starts, stops⟩ := same
  cases span
  cases span'
  dsimp only at starts stops
  rw [starts, stops]

/-- While its commit is there, a position is judged by its identity alone. -/
theorem positionValidity_congr (repo : Repository gix) (one other : Anchor ObjectId) (revision : String)
    (same : one.identity = other.identity) (held : repo.hasObject one.identity.genesisRev = true) :
    positionValidity repo one revision = positionValidity repo other revision := by
  have traced : diffTrace repo one revision = diffTrace repo other revision := by
    unfold diffTrace diffTraceOnto
    rw [same]
  have held' : repo.hasObject other.identity.genesisRev = true := same ▸ held
  unfold positionValidity
  rw [traced, held, held']
  simp only [Bool.true_eq_false, if_false]

/-- The identity decides the validity: bindings that share it are judged alike, whatever their
hints, except that a position is so only while its commit is there. -/
theorem validity_of_identity (repo : History gix) (state : EvalState ObjectId)
    (readable : ∀ target root, resolveCommit repo.toRepository state.revision = .ok target →
      treeOf repo.toRepository target = .ok root → Readable repo root ∧ LookupDescends repo root)
    (one other : Binding ObjectId) (identical : one.SameIdentity other)
    (kept : ∀ anchor, one = .position anchor → repo.hasObject anchor.identity.genesisRev = true) :
    ∃ enough, ∀ fuel, enough ≤ fuel → revalidate repo fuel one state = revalidate repo fuel other state := by
  cases one with
  | commit identity hints =>
    cases other with
    | commit identity' hints' =>
      have commits : identity.commit = identity'.commit := identical
      exact ⟨0, fun fuel _ => by simp only [revalidate, commits]⟩
    | _ => cases identical
  | tree identity hints =>
    cases other with
    | tree identity' hints' =>
      have trees : identity.tree = identity'.tree := identical
      obtain ⟨enough, alike⟩ := treeValidity_congr repo identity.tree state.revision readable
      refine ⟨enough, ?_⟩
      intro fuel covered
      simp only [revalidate]
      rw [alike fuel covered hints.path hints'.path, trees]
    | _ => cases identical
  | delta identity hints =>
    cases other with
    | delta identity' hints' => exact ⟨0, fun fuel _ => by simp only [revalidate, identical.1, identical.2]⟩
    | _ => cases identical
  | hybrid identity hints =>
    cases other with
    | hybrid identity' hints' => exact ⟨0, fun fuel _ => by simp only [revalidate, identical.1, identical.2]⟩
    | _ => cases identical
  | position anchor =>
    cases other with
    | position anchor' =>
      have alike := positionValidity_congr repo.toRepository anchor anchor' state.revision
        (identity_eq_of_same anchor anchor' identical) (kept anchor rfl)
      exact ⟨0, fun fuel _ => congrArg Walk.of alike⟩
    | _ => cases identical

/-! A branch that moves ahead. -/

/-- The revision comes to name a descendant of what it named, and no object is lost. -/
structure FastForward (parents : ObjectId → List ObjectId) (revision : String) (before after : History gix) : Prop where
  merges : MergeBaseBest after parents
  kept : ∀ id, before.hasObject id = true → after.hasObject id = true
  moved : ∃ old new, resolveCommit before.toRepository revision = .ok old ∧
    resolveCommit after.toRepository revision = .ok new ∧ Ancestry.Reaches (ParentLink parents) new old

theorem commitValidity_valid_iff (repo : History gix) (parents : ObjectId → List ObjectId)
    (merges : MergeBaseBest repo parents) (commit target : ObjectId) (revision : String)
    (resolved : resolveCommit repo.toRepository revision = .ok target) :
    commitValidity repo commit revision = .valid ↔
      repo.hasObject commit = true ∧ Reached gix parents target commit := by
  rw [commitValidity_resolved repo parents merges commit target revision resolved, meaning]
  by_cases held : repo.hasObject commit = true <;> by_cases reached : Reached gix parents target commit <;>
    simp [held, reached]

theorem commitValidity_fastForward (parents : ObjectId → List ObjectId) (revision : String) (before after : History gix)
    (merges : MergeBaseBest before parents) (ahead : FastForward parents revision before after) (commit : ObjectId)
    (valid : commitValidity before commit revision = .valid) : commitValidity after commit revision = .valid := by
  obtain ⟨old, new, resolved, resolved', further⟩ := ahead.moved
  rw [commitValidity_valid_iff before parents merges commit old revision resolved] at valid
  rw [commitValidity_valid_iff after parents ahead.merges commit new revision resolved']
  exact ⟨ahead.kept commit valid.1, valid.2.1, further.trans valid.2.2⟩

/-- However often a branch is moved ahead, a commit binding that is valid on it stays so. -/
theorem commit_validity_advances (parents : ObjectId → List ObjectId) (revision : String) (origin repo : History gix)
    (merges : MergeBaseBest origin parents) (trace : List (History gix × Unit))
    (run : Run (· = origin) (fun before _ after => FastForward parents revision before after) trace repo)
    (fuel fuel' : Nat) (identity : CommitIdentity ObjectId) (hints : NoHints) (delta delta' : Option (ObjectId × ObjectId))
    (valid : revalidate origin fuel (.commit identity hints) ⟨revision, delta⟩ = pure .valid) :
    revalidate repo fuel' (.commit identity hints) ⟨revision, delta'⟩ = pure .valid := by
  have first : commitValidity origin identity.commit revision = .valid := Except.ok.inj (Option.some.inj valid)
  have held : MergeBaseBest repo parents ∧ commitValidity repo identity.commit revision = .valid := by
    apply run.invariant
    · rintro start rfl
      exact ⟨merges, first⟩
    · intro before _ after holds ahead
      exact ⟨ahead.merges, commitValidity_fastForward parents revision before after holds.1 ahead _ holds.2⟩
  exact congrArg pure held.2

section Sample

theorem braidHistory_resolved : Resolved braidHistory "HEAD" .left .top :=
  ⟨rfl, rfl, braidHistory_readable, braidHistory_descends⟩

/-- The same commits, no revision naming one. -/
def headlessHistory : History braidGix := { braidHistory with revParseSingle := fun _ => none }

/-- The merge holds the elder commit and the leaf, which is not at its root; without a revision
there is nothing to judge them by. -/
theorem revalidate_means_braid :
    (∃ fuel, revalidate braidHistory fuel (.hybrid ⟨.elder, .leaf⟩ ⟨⟩) ⟨"HEAD", none⟩ = pure .valid) ∧
      ∃ fuel, revalidate headlessHistory fuel (.hybrid ⟨.elder, .leaf⟩ ⟨⟩) ⟨"HEAD", none⟩ = pure .unknown := by
  constructor
  · have readable (target : Braid) (named : resolveCommit braidHistory.toRepository "HEAD" = .ok target) :
        ∃ root, Resolved braidHistory "HEAD" target root := by
      obtain rfl : Braid.left = target := Except.ok.inj named
      exact ⟨.top, braidHistory_resolved⟩
    obtain ⟨enough, means⟩ := revalidate_means braidHistory braidParents braidHistory_merges ⟨"HEAD", none⟩ readable
      (.hybrid ⟨.elder, .leaf⟩ ⟨⟩) (fun _ => nofun)
    have elder : InHistory braidHistory braidParents "HEAD" .elder := ⟨.left, rfl, rfl, .single List.mem_cons_self⟩
    have leaf : InTree braidHistory "HEAD" .leaf := ⟨.left, .top, rfl, rfl, .single ⟨⟨.tree, .leaf⟩, by decide, rfl, rfl⟩⟩
    have evident : Evident braidHistory ⟨"HEAD", none⟩ (.hybrid ⟨.elder, .leaf⟩ ⟨⟩) := ⟨⟨.left, rfl⟩, rfl⟩
    have stands : Stands braidHistory braidParents ⟨"HEAD", none⟩ (.hybrid ⟨.elder, .leaf⟩ ⟨⟩) := ⟨elder, leaf⟩
    exact ⟨enough, by rw [means enough (Nat.le_refl _), meaning, if_pos evident, if_pos stands]⟩
  · have merges : MergeBaseBest headlessHistory braidParents := ⟨braidHistory_merges.best, braidHistory_merges.fails⟩
    obtain ⟨enough, means⟩ := revalidate_means headlessHistory braidParents merges ⟨"HEAD", none⟩ nofun
      (.hybrid ⟨.elder, .leaf⟩ ⟨⟩) (fun _ => nofun)
    have unknown : ¬ Evident headlessHistory ⟨"HEAD", none⟩ (.hybrid ⟨.elder, .leaf⟩ ⟨⟩) :=
      fun evident => nomatch evident.1
    exact ⟨enough, by rw [means enough (Nat.le_refl _), meaning_unknown _ _ unknown]⟩

/-- Two bindings of the leaf, made of two commits and under two paths. -/
theorem validity_of_identity_braid : ∃ fuel,
    revalidate braidHistory fuel (.tree ⟨.leaf⟩ ⟨"leaf", .elder⟩) ⟨"HEAD", none⟩ =
      revalidate braidHistory fuel (.tree ⟨.leaf⟩ ⟨"shelf", .younger⟩) ⟨"HEAD", none⟩ := by
  have readable (target root : Braid) (_ : resolveCommit braidHistory.toRepository "HEAD" = .ok target)
      (rooted : treeOf braidHistory.toRepository target = .ok root) :
      Readable braidHistory root ∧ LookupDescends braidHistory root := by
    have top : root = .top := by cases target <;> first | exact (Except.ok.inj rooted).symm | cases rooted
    rw [top]
    exact ⟨braidHistory_readable, braidHistory_descends⟩
  obtain ⟨enough, alike⟩ := validity_of_identity braidHistory ⟨"HEAD", none⟩ readable (.tree ⟨.leaf⟩ ⟨"leaf", .elder⟩)
    (.tree ⟨.leaf⟩ ⟨"shelf", .younger⟩) rfl nofun
  exact ⟨enough, alike enough (Nat.le_refl _)⟩

/-- The same history before the merge, when revisions named the elder commit. -/
def unmergedHistory : History braidGix := { braidHistory with revParseSingle := fun _ => some .elder }

/-- The elder commit, bound before the merge, is valid after it. -/
theorem commit_validity_advances_braid :
    revalidate braidHistory 0 (.commit ⟨.elder⟩ ⟨⟩) ⟨"HEAD", none⟩ = pure .valid := by
  have merges : MergeBaseBest unmergedHistory braidParents := ⟨braidHistory_merges.best, braidHistory_merges.fails⟩
  have ahead : FastForward braidParents "HEAD" unmergedHistory braidHistory :=
    ⟨braidHistory_merges, fun _ _ => rfl, .elder, .left, rfl, rfl, .single List.mem_cons_self⟩
  exact commit_validity_advances braidParents "HEAD" unmergedHistory braidHistory merges _
    (@Run.next _ _ _ _ _ _ _ () (.start rfl) ahead) 0 0 ⟨.elder⟩ ⟨⟩ none none rfl

end Sample

end GitAnchor.Anchoring
