import GitAnchor.Attest.Key
import Mathlib.Data.Nat.Find

/-! What resolving a key and verifying a claim amount to on a chain of custody: the
first rotation that does not pass decides, and a later store decides the same. -/

namespace GitAnchor.Attest
open GitAnchor.Foundation GitAnchor.Substrate
variable {ObjectId : Type} [DecidableEq ObjectId] {git : Git ObjectId}

/-! Checking rotations. -/

/-- The verdict on the rotation at position `i + 1`, under the key at position `i`. -/
def RotationVerdict (ssh : SshKey) (s : Store git) (verifier : Option Verifier)
    (links : List (Link ObjectId)) (i : Nat) (verdict : Verdict) : Prop :=
  ∃ previous rotation, links[i]? = some previous ∧ links[i + 1]? = some rotation ∧
    verifyCommit ssh s rotation.claim previous.key verifier = .ok verdict

theorem RotationVerdict.unique {ssh : SshKey} {s : Store git} {verifier : Option Verifier}
    {links : List (Link ObjectId)} {i : Nat} {first second : Verdict}
    (one : RotationVerdict ssh s verifier links i first)
    (other : RotationVerdict ssh s verifier links i second) : first = second := by
  obtain ⟨previous, rotation, below, above, checked⟩ := one
  obtain ⟨previous', rotation', below', above', checked'⟩ := other
  rw [below] at below'
  rw [above] at above'
  cases below'
  cases above'
  rw [checked] at checked'
  exact Except.ok.inj checked'

theorem rotationVerdict_succ (ssh : SshKey) (s : Store git) (verifier : Option Verifier)
    (link : Link ObjectId) (rest : List (Link ObjectId)) (i : Nat) (verdict : Verdict) :
    RotationVerdict ssh s verifier (link :: rest) (i + 1) verdict ↔
      RotationVerdict ssh s verifier rest i verdict := by
  simp only [RotationVerdict, List.getElem?_cons_succ]

theorem rotationVerdict_zero (ssh : SshKey) (s : Store git) (verifier : Option Verifier)
    (previous rotation : Link ObjectId) (rest : List (Link ObjectId)) (verdict : Verdict) :
    RotationVerdict ssh s verifier (previous :: rotation :: rest) 0 verdict ↔
      verifyCommit ssh s rotation.claim previous.key verifier = .ok verdict := by
  simp [RotationVerdict]

/-- Every rotation passes exactly when the check stops at none. -/
theorem checkRotations_none (ssh : SshKey) (s : Store git) (verifier : Option Verifier)
    (links : List (Link ObjectId)) :
    checkRotations ssh s verifier links = .ok none ↔
      ∀ i, i + 1 < links.length → RotationVerdict ssh s verifier links i .verified := by
  induction links with
  | nil => simp [checkRotations, pure, Except.pure]
  | cons previous tail ih =>
    cases tail with
    | nil => simp [checkRotations, pure, Except.pure]
    | cons rotation rest =>
      rw [checkRotations, Result.bind_eq_ok]
      constructor
      · rintro ⟨verdict, checked, continued⟩ i bound
        cases verdict with
        | verified =>
          cases i with
          | zero => exact (rotationVerdict_zero ssh s verifier previous rotation rest _).mpr checked
          | succ i =>
            rw [rotationVerdict_succ]
            apply ih.mp continued i
            simp only [List.length_cons] at bound ⊢
            omega
        | badSignature => simp [Result.pure_eq_ok] at continued
        | unknownKeyFormat => simp [Result.pure_eq_ok] at continued
      · intro passed
        refine ⟨.verified, ?_, ?_⟩
        · exact (rotationVerdict_zero ssh s verifier previous rotation rest _).mp
            (passed 0 (by simp))
        · apply ih.mpr
          intro i bound
          rw [← rotationVerdict_succ ssh s verifier previous]
          apply passed
          simp only [List.length_cons] at bound ⊢
          omega

/-- The check stops at the lowest rotation that does not pass, with its verdict. -/
theorem checkRotations_some (ssh : SshKey) (s : Store git) (verifier : Option Verifier)
    (links : List (Link ObjectId)) (i : Nat) (verdict : Verdict)
    (refused : RotationVerdict ssh s verifier links i verdict) (failed : verdict ≠ .verified)
    (below : ∀ j, j < i → RotationVerdict ssh s verifier links j .verified) :
    checkRotations ssh s verifier links = .ok (some verdict) := by
  induction links generalizing i with
  | nil => simp [RotationVerdict] at refused
  | cons previous tail ih =>
    cases tail with
    | nil =>
      obtain ⟨_, _, _, above, _⟩ := refused
      simp at above
    | cons rotation rest =>
      rw [checkRotations]
      cases i with
      | zero =>
        rw [(rotationVerdict_zero ssh s verifier previous rotation rest verdict).mp refused]
        cases verdict with
        | verified => exact absurd rfl failed
        | badSignature => rfl
        | unknownKeyFormat => rfl
      | succ i =>
        have first := below 0 (by omega)
        rw [(rotationVerdict_zero ssh s verifier previous rotation rest _).mp first]
        apply ih i ((rotationVerdict_succ ssh s verifier previous _ i verdict).mp refused)
        intro j earlier
        rw [← rotationVerdict_succ ssh s verifier previous]
        exact below (j + 1) (by omega)

/-- A claim that a log lists is a commit, so any check of it reaches a verdict. -/
theorem exists_verdict (ssh : SshKey) (s : Store git) (verifier : Option Verifier) (claim : ObjectId)
    (envelope : Envelope ObjectId) (read : envelopeAt s claim = .ok envelope) (key : AttestKey) :
    ∃ verdict, verifyCommit ssh s claim key verifier = .ok verdict := by
  obtain ⟨commit, _, found, _, _⟩ := envelopeAt_ok s claim envelope read
  exact ⟨_, verifyCommit_of_find ssh s claim commit key verifier found⟩

private theorem exists_related {α β : Type} {R : α → β → Prop} {entries : List α} {links : List β}
    (related : List.Forall₂ R entries links) : ∀ link ∈ links, ∃ entry ∈ entries, R entry link := by
  induction related with
  | nil => simp
  | cons first _ ih =>
    intro link member
    rcases List.mem_cons.mp member with same | later
    · subst same
      exact ⟨_, List.mem_cons_self, first⟩
    · obtain ⟨entry, listed, linked⟩ := ih link later
      exact ⟨entry, List.mem_cons_of_mem _ listed, linked⟩

theorem Custody.readable {s : Store git} {claim : ObjectId} {links : List (Link ObjectId)}
    (custody : Custody s claim links) (link : Link ObjectId) (member : link ∈ links) :
    ∃ envelope, envelopeAt s link.claim = .ok envelope := by
  obtain ⟨envelope, newer, entry, older, _, read, _, linked⟩ := custody
  obtain ⟨other, listed, published⟩ := exists_related linked link member
  have located : other ∈ newer ++ entry :: older :=
    List.mem_append_right newer (List.mem_reverse.mp listed)
  exact ⟨other.envelope, published.1 ▸ (log_mem s envelope.target _ read other located).1⟩

theorem Custody.exists_last {s : Store git} {claim : ObjectId} {links : List (Link ObjectId)}
    (custody : Custody s claim links) : ∃ last, links.getLast? = some last :=
  ⟨_, List.getLast?_eq_some_getLast custody.ne_nil⟩

/-- Every rotation of a chain of custody gets a verdict. -/
theorem Custody.rotationVerdict {s : Store git} {claim : ObjectId} {links : List (Link ObjectId)}
    (custody : Custody s claim links) (ssh : SshKey) (verifier : Option Verifier) (i : Nat)
    (bound : i + 1 < links.length) : ∃ verdict, RotationVerdict ssh s verifier links i verdict := by
  have lower : i < links.length := by omega
  obtain ⟨envelope, read⟩ := custody.readable links[i + 1] (List.getElem_mem bound)
  obtain ⟨verdict, checked⟩ := exists_verdict ssh s verifier _ envelope read links[i].key
  exact ⟨verdict, links[i], links[i + 1], List.getElem?_eq_getElem lower,
    List.getElem?_eq_getElem bound, checked⟩

/-- Either every rotation passes, or one of them is the lowest that does not. -/
theorem Custody.rotations_cases {s : Store git} {claim : ObjectId} {links : List (Link ObjectId)}
    (custody : Custody s claim links) (ssh : SshKey) (verifier : Option Verifier) :
    (∀ i, i + 1 < links.length → RotationVerdict ssh s verifier links i .verified) ∨
      ∃ i verdict, RotationVerdict ssh s verifier links i verdict ∧ verdict ≠ .verified ∧
        ∀ j, j < i → RotationVerdict ssh s verifier links j .verified := by
  by_cases passed : ∀ i, i + 1 < links.length → RotationVerdict ssh s verifier links i .verified
  · exact .inl passed
  · right
    simp only [not_forall] at passed
    classical
    have lowest := Nat.find_spec passed
    obtain ⟨bound, failed⟩ := lowest
    obtain ⟨verdict, refused⟩ := custody.rotationVerdict ssh verifier _ bound
    refine ⟨_, verdict, refused, fun same => failed (same ▸ refused), ?_⟩
    intro j earlier
    have before := Nat.find_min passed earlier
    simp only [not_exists, not_not] at before
    exact before (by omega)

/-! Resolving. -/

theorem resolveKeyWith_of_passed (ssh : SshKey) (s : Store git) (verifier : Option Verifier)
    (claim : ObjectId) (links : List (Link ObjectId)) (last : Link ObjectId)
    (custody : Custody s claim links) (tip : links.getLast? = some last)
    (passed : ∀ i, i + 1 < links.length → RotationVerdict ssh s verifier links i .verified) :
    resolveKeyWith ssh s claim verifier = .ok (.key last.key) := by
  unfold resolveKeyWith
  rw [(keyChain_ok s claim links).mpr custody, Result.ok_bind,
    (checkRotations_none ssh s verifier links).mpr passed, Result.ok_bind]
  simp only [tip]
  rfl

theorem resolveKeyWith_of_refused (ssh : SshKey) (s : Store git) (verifier : Option Verifier)
    (claim : ObjectId) (links : List (Link ObjectId)) (i : Nat) (verdict : Verdict)
    (custody : Custody s claim links)
    (refused : RotationVerdict ssh s verifier links i verdict) (failed : verdict ≠ .verified)
    (below : ∀ j, j < i → RotationVerdict ssh s verifier links j .verified) :
    resolveKeyWith ssh s claim verifier = .ok (.rejected verdict) := by
  unfold resolveKeyWith
  rw [(keyChain_ok s claim links).mpr custody, Result.ok_bind,
    checkRotations_some ssh s verifier links i verdict refused failed below, Result.ok_bind]
  rfl

/-- Resolution succeeds exactly when there is a chain of custody to walk. -/
theorem resolveKeyWith_ok_iff (ssh : SshKey) (s : Store git) (verifier : Option Verifier)
    (claim : ObjectId) :
    (∃ resolved, resolveKeyWith ssh s claim verifier = .ok resolved) ↔ ∃ links, Custody s claim links := by
  constructor
  · rintro ⟨resolved, ok⟩
    simp only [resolveKeyWith, Result.bind_eq_ok] at ok
    obtain ⟨links, collected, _⟩ := ok
    exact ⟨links, (keyChain_ok s claim links).mp collected⟩
  · rintro ⟨links, custody⟩
    rcases custody.rotations_cases ssh verifier with passed | ⟨i, verdict, refused, failed, below⟩
    · obtain ⟨last, tip⟩ := custody.exists_last
      exact ⟨_, resolveKeyWith_of_passed ssh s verifier claim links last custody tip passed⟩
    · exact ⟨_, resolveKeyWith_of_refused ssh s verifier claim links i verdict custody refused failed below⟩

/-- A key is resolved exactly when every rotation below it passes. -/
theorem resolveKeyWith_key_iff (ssh : SshKey) (s : Store git) (verifier : Option Verifier)
    (claim : ObjectId) (links : List (Link ObjectId)) (custody : Custody s claim links) (value : AttestKey) :
    resolveKeyWith ssh s claim verifier = .ok (.key value) ↔
      (∀ i, i + 1 < links.length → RotationVerdict ssh s verifier links i .verified) ∧
        links.getLast?.map Link.key = some value := by
  obtain ⟨last, tip⟩ := custody.exists_last
  rcases custody.rotations_cases ssh verifier with passed | ⟨i, verdict, refused, failed, below⟩
  · rw [resolveKeyWith_of_passed ssh s verifier claim links last custody tip passed, tip]
    simp only [Option.map_some, Except.ok.injEq, Resolved.key.injEq, Option.some.injEq]
    exact (and_iff_right passed).symm
  · rw [resolveKeyWith_of_refused ssh s verifier claim links i verdict custody refused failed below]
    constructor
    · intro never
      cases never
    · rintro ⟨passed, _⟩
      have bound : i + 1 < links.length := by
        obtain ⟨_, _, _, above, _⟩ := refused
        exact (List.getElem?_eq_some_iff.mp above).1
      exact absurd (refused.unique (passed i bound)) failed

theorem key_eq_some_iff (ssh : SshKey) (s : Store git) (claim : ObjectId) (value : AttestKey) :
    key ssh s claim = .ok (some value) ↔ resolveKeyWith ssh s claim none = .ok (.key value) := by
  unfold key
  cases resolveKeyWith ssh s claim none with
  | error source => simp [Result.error_bind]
  | ok resolved => cases resolved <;> simp [Result.ok_bind, pure, Except.pure]

theorem key_ok_iff (ssh : SshKey) (s : Store git) (claim : ObjectId) :
    (∃ value, key ssh s claim = .ok value) ↔ ∃ links, Custody s claim links := by
  rw [← resolveKeyWith_ok_iff ssh s none claim]
  unfold key
  cases resolveKeyWith ssh s claim none with
  | error source => simp [Result.error_bind]
  | ok resolved => cases resolved <;> simp [Result.ok_bind, pure, Except.pure]

/-! Growth changes no outcome. -/

theorem checkRotations_grows (ssh : SshKey) (s t : Store git) (grown : Grows s t)
    (verifier : Option Verifier) (links : List (Link ObjectId)) (outcome : Option Verdict)
    (checked : checkRotations ssh s verifier links = .ok outcome) :
    checkRotations ssh t verifier links = .ok outcome := by
  induction links with
  | nil => exact checked
  | cons previous tail ih =>
    cases tail with
    | nil => exact checked
    | cons rotation rest =>
      rw [checkRotations, Result.bind_eq_ok] at checked ⊢
      obtain ⟨verdict, first, continued⟩ := checked
      refine ⟨verdict, verifyCommit_extends ssh s t grown.extended _ _ _ _ first, ?_⟩
      cases verdict with
      | verified => exact ih continued
      | badSignature => exact continued
      | unknownKeyFormat => exact continued

theorem resolveKeyWith_grows (ssh : SshKey) (s t : Store git) (grown : Grows s t) (claim : ObjectId)
    (verifier : Option Verifier) (resolved : Resolved)
    (ok : resolveKeyWith ssh s claim verifier = .ok resolved) :
    resolveKeyWith ssh t claim verifier = .ok resolved := by
  simp only [resolveKeyWith, Result.bind_eq_ok] at ok ⊢
  obtain ⟨links, collected, outcome, checked, finished⟩ := ok
  refine ⟨links, ?_, outcome, checkRotations_grows ssh s t grown verifier links outcome checked, finished⟩
  exact (keyChain_ok t claim links).mpr (((keyChain_ok s claim links).mp collected).grows grown)

theorem key_grows (ssh : SshKey) (s t : Store git) (grown : Grows s t) (claim : ObjectId)
    (value : Option AttestKey) (ok : key ssh s claim = .ok value) : key ssh t claim = .ok value := by
  simp only [key, Result.bind_eq_ok] at ok ⊢
  obtain ⟨resolved, found, finished⟩ := ok
  exact ⟨resolved, resolveKeyWith_grows ssh s t grown claim none resolved found, finished⟩

theorem verifyDispatched_grows (ssh : SshKey) (s t : Store git) (grown : Grows s t)
    (claim : Claim ObjectId) (verifier : Option Verifier) (verdict : Verdict)
    (ok : verifyDispatched ssh s claim verifier = .ok verdict) :
    verifyDispatched ssh t claim verifier = .ok verdict := by
  simp only [verifyDispatched, Result.bind_eq_ok] at ok ⊢
  obtain ⟨resolved, found, finished⟩ := ok
  refine ⟨resolved, resolveKeyWith_grows ssh s t grown _ verifier resolved found, ?_⟩
  cases resolved with
  | rejected other => exact finished
  | key value => exact verifyCommit_extends ssh s t grown.extended _ _ _ _ finished

end GitAnchor.Attest
