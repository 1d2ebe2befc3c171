import GitAnchor.Attest.Digest

/-! Revocations: which mark `resolve` puts on a claim, and which chain a revocation of
it lands on. -/

namespace GitAnchor.Attest
open GitAnchor.Foundation GitAnchor.Substrate
variable {ObjectId : Type} [DecidableEq ObjectId] {git : Git ObjectId}

/-- The newest of the listed revocations that names `id`. -/
def revokerOf (revocations : List (ObjectId × ObjectId)) (id : ObjectId) : Option ObjectId :=
  (revocations.find? (fun entry => entry.1 = id)).map Prod.snd

/-- The mark a claim gets from the revocations: its own if it has one, else the newest. -/
def marked (revocations : List (ObjectId × ObjectId)) (claim : Claim ObjectId) : Claim ObjectId :=
  { claim with revokedBy := claim.revokedBy <|> revokerOf revocations claim.id }

theorem marked_cons (revoked revocation : ObjectId) (rest : List (ObjectId × ObjectId))
    (claim : Claim ObjectId) :
    marked rest (mark revoked revocation claim) = marked ((revoked, revocation) :: rest) claim := by
  by_cases named : claim.id = revoked
  · subst named
    cases own : claim.revokedBy <;> simp [marked, mark, revokerOf, own]
  · simp [marked, mark, revokerOf, named, Ne.symm named]

/-- The two nested loops mark every claim with the first revocation listed for it. -/
theorem applyRevocations_eq (claims : List (Claim ObjectId)) (revocations : List (ObjectId × ObjectId)) :
    applyRevocations claims revocations = claims.map (marked revocations) := by
  unfold applyRevocations
  induction revocations generalizing claims with
  | nil =>
    have unmarked : marked ([] : List (ObjectId × ObjectId)) = id := by
      funext claim
      simp [marked, revokerOf]
    rw [unmarked, List.map_id, List.foldl_nil]
  | cons entry rest ih =>
    rw [List.foldl_cons, ih, List.map_map]
    apply List.map_congr_left
    intro claim _
    exact marked_cons entry.1 entry.2 rest claim

theorem resolve_of_log (s : Store git) (target : Target ObjectId) (claims : List (Claim ObjectId))
    (read : log s target = .ok claims) :
    resolve s target = .ok (claims.map (marked (revocationsOf claims))) := by
  unfold resolve
  rw [read, Result.ok_bind, applyRevocations_eq]
  rfl

theorem marked_id (revocations : List (ObjectId × ObjectId)) (claim : Claim ObjectId) :
    (marked revocations claim).id = claim.id := rfl

omit [DecidableEq ObjectId] in
theorem revocationsOf_cons_revocation (claims : List (Claim ObjectId)) (claim key id : ObjectId) :
    revocationsOf (⟨id, revocationEnvelope git claim key, none⟩ :: claims) =
      (claim, id) :: revocationsOf claims := by
  simp [revocationsOf, isRevocation, revocationEnvelope]

/-- What it means for `claim` to be revoked by `revocation` on its own chain: the
revocation is appended to that chain, resolving the chain lists it and marks `claim` with
it, and every other mark is as before. -/
def RevokedInPlace (s t : Store git) (target : Target ObjectId) (claim revocation : ObjectId) : Prop :=
  ∃ claims envelope before after,
    log s target = .ok claims ∧ log t target = .ok (⟨revocation, envelope, none⟩ :: claims) ∧
    resolve s target = .ok before ∧ resolve t target = .ok after ∧
    revocation ∈ after.map Claim.id ∧
    (∀ entry ∈ after, entry.id = claim → entry.revokedBy = some revocation) ∧
    (∀ entry ∈ before, entry.id ≠ claim → entry ∈ after)

theorem landed_revoke (s t : Store git) (writer : Writer) (claim key revocation : ObjectId)
    (ok : revoke s writer claim key = .ok (revocation, t)) :
    ∃ revoked, envelopeAt s claim = .ok revoked ∧
      Landed s ⟨writer, .revoke claim key, revocation⟩ revoked.target (revocationEnvelope git claim key) t := by
  obtain ⟨on, envelope, ready, prepared, appended⟩ :=
    step_cases s t ⟨writer, .revoke claim key, revocation⟩ ok
  have landing := landed s t ⟨writer, .revoke claim key, revocation⟩ on envelope ready prepared appended
  cases prepared with
  | revoke _ _ revoked read => exact ⟨revoked, read, landing⟩

/-- Appended to the chain of the revoked claim, a revocation marks it and nothing else. -/
theorem revokedInPlace_of_log (s t : Store git) (target : Target ObjectId)
    (claims : List (Claim ObjectId)) (claim key revocation : ObjectId)
    (read : log s target = .ok claims)
    (later : log t target = .ok (⟨revocation, revocationEnvelope git claim key, none⟩ :: claims)) :
    RevokedInPlace s t target claim revocation := by
  have marks := resolve_of_log t target _ later
  rw [revocationsOf_cons_revocation] at marks
  have unmarked (entry : Claim ObjectId) (member : entry ∈ claims) : entry.revokedBy = none :=
    (log_mem s target claims read entry member).2
  refine ⟨claims, _, _, _, read, later, resolve_of_log s target claims read, marks, ?_, ?_, ?_⟩
  · simp [marked]
  · intro entry member same
    obtain ⟨listed, located, rfl⟩ := List.mem_map.mp member
    have plain : listed.revokedBy = none := by
      rcases List.mem_cons.mp located with first | older
      · rw [first]
      · exact unmarked listed older
    rw [marked_id] at same
    simp [marked, plain, revokerOf, same]
  · intro entry member different
    obtain ⟨listed, located, rfl⟩ := List.mem_map.mp member
    rw [marked_id] at different
    refine List.mem_map.mpr ⟨listed, List.mem_cons_of_mem _ located, ?_⟩
    have other : claim ≠ listed.id := fun same => different same.symm
    simp [marked, revokerOf, other]

/-- A claim is revoked on the chain that lists it exactly when that chain is the one of its
own target: a revocation lives on another claim's chain, and its own revocation misses it. -/
theorem revoke_in_place_iff (s t : Store git) (target : Target ObjectId)
    (claims : List (Claim ObjectId)) (read : log s target = .ok claims) (claim : Claim ObjectId)
    (member : claim ∈ claims) (writer : Writer) (key revocation : ObjectId)
    (ok : revoke s writer claim.id key = .ok (revocation, t)) :
    RevokedInPlace s t target claim.id revocation ↔ claim.envelope.target = target := by
  obtain ⟨revoked, own, landing⟩ := landed_revoke s t writer claim.id key revocation ok
  have same : revoked = claim.envelope := by
    have listed := (log_mem s target claims read claim member).1
    rw [own] at listed
    exact Except.ok.inj listed
  rw [same] at landing
  constructor
  · rintro ⟨claims', envelope, _, _, read', later, _⟩
    rw [read] at read'
    obtain rfl := Except.ok.inj read'
    by_contra elsewhere
    rw [landing.elsewhere target (Ne.symm elsewhere) claims read] at later
    have lengths := congrArg List.length (Except.ok.inj later)
    simp at lengths
  · intro home
    rw [home] at landing
    exact revokedInPlace_of_log s t target claims claim.id key revocation read (landing.here claims read)

/-! What resolving gives. -/

/-- A claim about `claim`, labeled a revocation. -/
def Revokes (revocation claim : Claim ObjectId) : Prop :=
  revocation.envelope.target.kind = CLAIM_TARGET_KIND ∧ revocation.envelope.payloadKind = REVOCATION_KIND ∧
    revocation.envelope.target.id = claim.id

theorem log_of_resolve_error (s : Store git) (target : Target ObjectId) (failure : Error ObjectId)
    (failed : log s target = .error failure) : resolve s target = .error failure := by
  unfold resolve
  rw [failed]
  rfl

/-- The revocation listed first for a claim is the newest on the chain. -/
theorem revokerOf_eq_some (claims : List (Claim ObjectId)) (claim : Claim ObjectId) (revocation : ObjectId) :
    revokerOf (revocationsOf claims) claim.id = some revocation ↔
      ∃ newer newest older, claims = newer ++ newest :: older ∧ newest.id = revocation ∧ Revokes newest claim ∧
        ∀ other ∈ newer, ¬ Revokes other claim := by
  let names (other : Claim ObjectId) : Bool := isRevocation other.envelope && other.envelope.target.id = claim.id
  have names_iff (other : Claim ObjectId) : names other = true ↔ Revokes other claim := by
    simp [names, isRevocation, Revokes, and_assoc]
  have found : revokerOf (revocationsOf claims) claim.id = (claims.find? names).map Claim.id := by
    unfold revokerOf revocationsOf
    rw [List.find?_map, List.find?_filter, Option.map_map]
    simp [names, Function.comp_def, Bool.decide_and]
  rw [found, Option.map_eq_some_iff]
  constructor
  · rintro ⟨newest, there, rfl⟩
    obtain ⟨matched, newer, older, split, none_newer⟩ := List.find?_eq_some_iff_append.mp there
    refine ⟨newer, newest, older, split, rfl, (names_iff newest).mp matched, ?_⟩
    intro other member revokes
    have refused := none_newer other member
    rw [(names_iff other).mpr revokes] at refused
    cases refused
  · rintro ⟨newer, newest, older, split, rfl, revokes, none_newer⟩
    refine ⟨newest, List.find?_eq_some_iff_append.mpr ⟨(names_iff newest).mpr revokes, newer, older, split, ?_⟩, rfl⟩
    intro other member
    rw [Bool.not_eq_true', Bool.eq_false_iff]
    exact fun matched => none_newer other member ((names_iff other).mp matched)

/-- A claim of a log gets the mark of the newest revocation of it. -/
theorem marked_revokedBy (claims : List (Claim ObjectId)) (claim : Claim ObjectId) (unmarked : claim.revokedBy = none)
    (revocation : ObjectId) : (marked (revocationsOf claims) claim).revokedBy = some revocation ↔
      ∃ newer newest older, claims = newer ++ newest :: older ∧ newest.id = revocation ∧ Revokes newest claim ∧
        ∀ other ∈ newer, ¬ Revokes other claim := by
  rw [← revokerOf_eq_some]
  simp [marked, unmarked]

/-- A claim that some claim of the log revokes is marked. -/
theorem marked_of_revokes (claims : List (Claim ObjectId)) (claim revocation : Claim ObjectId)
    (member : revocation ∈ claims) (revokes : Revokes revocation claim) :
    (marked (revocationsOf claims) claim).revokedBy ≠ none := by
  intro unmarked
  have nobody : revokerOf (revocationsOf claims) claim.id = none := by
    simp only [marked, Option.orElse_eq_orElse, Option.orElse_eq_or, Option.or_eq_none_iff] at unmarked
    exact unmarked.2
  unfold revokerOf at nobody
  rw [Option.map_eq_none_iff, List.find?_eq_none] at nobody
  refine nobody (revocation.envelope.target.id, revocation.id) ?_ (decide_eq_true revokes.2.2)
  refine List.mem_map.mpr ⟨revocation, List.mem_filter.mpr ⟨member, ?_⟩, rfl⟩
  simp [isRevocation, revokes.1, revokes.2.1]

/-- Resolving a chain gives the claims of its log, each marked with the newest revocation on
the chain that names it, and with one wherever a claim revokes it, itself revoked or not. -/
theorem resolve_marks (s : Store git) (target : Target ObjectId) :
    (∀ failure, log s target = .error failure → resolve s target = .error failure) ∧
    ∀ claims, log s target = .ok claims → (claims.map Claim.id).Nodup →
      ∃ resolved, resolve s target = .ok resolved ∧
        resolved.map Claim.id = claims.map Claim.id ∧ resolved.map Claim.envelope = claims.map Claim.envelope ∧
        (∀ claim ∈ resolved, ∀ revocation, claim.revokedBy = some revocation ↔
          ∃ newer newest older, claims = newer ++ newest :: older ∧ newest.id = revocation ∧ Revokes newest claim ∧
            ∀ other ∈ newer, ¬ Revokes other claim) ∧
        (∀ revocation ∈ resolved, ∀ claim ∈ resolved, Revokes revocation claim → claim.revokedBy ≠ none) ∧
        ∀ revocation ∈ claims, revocation.envelope.target.id ∉ claims.map Claim.id →
          ∀ claim ∈ resolved, claim.revokedBy ≠ some revocation.id := by
  refine ⟨log_of_resolve_error s target, ?_⟩
  intro claims read distinct
  have marks (claim : Claim ObjectId) (member : claim ∈ claims.map (marked (revocationsOf claims)))
      (revocation : ObjectId) : claim.revokedBy = some revocation ↔
        ∃ newer newest older, claims = newer ++ newest :: older ∧ newest.id = revocation ∧ Revokes newest claim ∧
          ∀ other ∈ newer, ¬ Revokes other claim := by
    obtain ⟨listed, located, rfl⟩ := List.mem_map.mp member
    exact marked_revokedBy claims listed (log_mem s target claims read listed located).2 revocation
  refine ⟨claims.map (marked (revocationsOf claims)), resolve_of_log s target claims read, ?_, ?_, marks, ?_, ?_⟩
  · rw [List.map_map]
    rfl
  · rw [List.map_map]
    rfl
  · intro revocation member claim member' revokes
    obtain ⟨listed, located, rfl⟩ := List.mem_map.mp member
    obtain ⟨listed', _, rfl⟩ := List.mem_map.mp member'
    exact marked_of_revokes claims listed' listed located revokes
  · intro revocation member dangling claim member' named
    obtain ⟨newer, newest, older, split, same, revokes, _⟩ := (marks claim member' revocation.id).mp named
    have located : newest ∈ claims := by
      rw [split]
      exact List.mem_append_right newer List.mem_cons_self
    have one : newest = revocation := List.inj_on_of_nodup_map distinct located member same
    obtain ⟨listed, there, rfl⟩ := List.mem_map.mp member'
    rw [← one, revokes.2.2] at dangling
    exact dangling (List.mem_map.mpr ⟨listed, there, rfl⟩)

section Sample

def note : Envelope Digest :=
  { target := { kind := "doc", id := .nat 7 }, payload := .nat 8, payloadKind := "note", key := .nat 9 }

def alice : Writer := keyWriter "alice" [49]

/-- A note, its revocation, and the revocation of that revocation. -/
def noted : Digest × Store digestGit := outcome (sign emptyStore alice note)
def revokedOnce : Digest × Store digestGit := outcome (revoke noted.2 alice noted.1 (.nat 9))
def revokedTwice : Digest × Store digestGit := outcome (revoke revokedOnce.2 alice revokedOnce.1 (.nat 9))

theorem noted_ok : sign emptyStore alice note = .ok noted := eq_outcome _ (by decide +kernel)

theorem revokedOnce_ok : revoke noted.2 alice noted.1 (.nat 9) = .ok revokedOnce :=
  eq_outcome _ (by decide +kernel)

theorem revokedTwice_ok : revoke revokedOnce.2 alice revokedOnce.1 (.nat 9) = .ok revokedTwice :=
  eq_outcome _ (by decide +kernel)

theorem revoked_run : Run Unclaimed Step
    [(noted.2, ⟨alice, .revoke noted.1 (.nat 9), revokedOnce.1⟩), (emptyStore, ⟨alice, .sign note, noted.1⟩)]
    revokedOnce.2 :=
  .next (.next (.start unclaimed_emptyStore) noted_ok) revokedOnce_ok

theorem log_noted : log noted.2 note.target = .ok [⟨noted.1, note, none⟩] := by decide +kernel

theorem revoke_in_place_note : RevokedInPlace noted.2 revokedOnce.2 note.target noted.1 revokedOnce.1 :=
  (revoke_in_place_iff noted.2 revokedOnce.2 note.target _ log_noted ⟨noted.1, note, none⟩
    List.mem_cons_self alice (.nat 9) revokedOnce.1 revokedOnce_ok).mpr rfl

theorem log_revokedOnce : log revokedOnce.2 note.target = .ok
    [⟨revokedOnce.1, revocationEnvelope digestGit noted.1 (.nat 9), none⟩, ⟨noted.1, note, none⟩] := by
  decide +kernel

/-- Resolving the chain lists the revocation and the note, which carries its mark. -/
theorem resolve_marks_revokedOnce : ∃ resolved, resolve revokedOnce.2 note.target = .ok resolved ∧
    resolved.map Claim.id = [revokedOnce.1, noted.1] ∧
      ∀ claim ∈ resolved, Revokes ⟨revokedOnce.1, revocationEnvelope digestGit noted.1 (.nat 9), none⟩ claim →
        claim.revokedBy = some revokedOnce.1 := by
  obtain ⟨resolved, ok, ids, _, marks, _⟩ :=
    (resolve_marks revokedOnce.2 note.target).2 _ log_revokedOnce (by decide +kernel)
  refine ⟨resolved, ok, ids, ?_⟩
  intro claim member revokes
  exact (marks claim member revokedOnce.1).mpr ⟨[], _, _, rfl, rfl, revokes, by simp⟩

/-- The revocation of a revocation lands on the chain of the revoked claim's id, which
nobody reads for it. -/
theorem revoke_not_in_place : ¬ ∀ (trace : List (Store digestGit × Performed Digest))
    (s t : Store digestGit), Run Unclaimed Step trace s → ∀ target claims,
    log s target = .ok claims → ∀ claim ∈ claims, ∀ writer key revocation,
    revoke s writer claim.id key = .ok (revocation, t) →
    RevokedInPlace s t target claim.id revocation := by
  intro always
  obtain ⟨claims, envelope, _, _, read, later, _⟩ := always _ _ revokedTwice.2 revoked_run note.target _
    log_revokedOnce _ List.mem_cons_self alice (.nat 9) revokedTwice.1 revokedTwice_ok
  rw [log_revokedOnce] at read
  have unchanged : log revokedTwice.2 note.target = log revokedOnce.2 note.target := by decide +kernel
  rw [unchanged, log_revokedOnce, read] at later
  have lengths := congrArg List.length (Except.ok.inj later)
  simp at lengths

end Sample

end GitAnchor.Attest
