import GitAnchor.Attest.Revocation

/-! What a verdict is worth: it is an unbroken chain of custody from the key chain's root
to the claim, it cannot be regained once broken, and it never changes. -/

namespace GitAnchor.Attest
open GitAnchor.Foundation GitAnchor.Substrate
variable {ObjectId : Type} [DecidableEq ObjectId] {git : Git ObjectId}

/-! Positions on a chain, its root at 0. -/

theorem reverse_position_grows {α : Type} (newer claims : List α) (i : Nat) (entry : α)
    (located : claims.reverse[i]? = some entry) : (newer ++ claims).reverse[i]? = some entry := by
  have bound : i < claims.reverse.length := (List.getElem?_eq_some_iff.mp located).1
  rw [List.reverse_append, List.getElem?_append_left bound]
  exact located

/-- An entry is as far from the root as there are entries below it. -/
theorem reverse_position {α : Type} (newer older : List α) (entry : α) :
    (newer ++ entry :: older).reverse[older.length]? = some entry :=
  reverse_position_grows newer (entry :: older) older.length entry (by simp)

theorem position_unique (s : Store git) (target : Target ObjectId) (claims : List (Claim ObjectId))
    (read : log s target = .ok claims) (i j : Nat) (first second : Claim ObjectId)
    (one : claims.reverse[i]? = some first) (other : claims.reverse[j]? = some second)
    (same : first.id = second.id) : i = j := by
  have once : (claims.reverse.map Claim.id).Nodup := by
    rw [List.map_reverse, List.nodup_reverse]
    exact log_nodup s target claims read
  obtain ⟨bound, _⟩ := List.getElem?_eq_some_iff.mp one
  apply (List.getElem?_inj (by simpa using bound) once).mp
  rw [List.getElem?_map, List.getElem?_map, one, other]
  simp [same]

/-- The links of a chain of custody are the entries at their positions, its claim last. -/
theorem Custody.position {s : Store git} {claim : ObjectId} {links : List (Link ObjectId)}
    (custody : Custody s claim links) : ∃ envelope claims entry,
    envelopeAt s claim = .ok envelope ∧ log s envelope.target = .ok claims ∧
    claims.reverse[links.length - 1]? = some entry ∧ entry.id = claim ∧
    ∀ i, i < links.length → ∃ entry link, claims.reverse[i]? = some entry ∧
      links[i]? = some link ∧ IsLink s entry link := by
  obtain ⟨envelope, newer, entry, older, found, read, here, linked⟩ := custody
  have lengths := linked.length_eq
  rw [List.length_reverse, List.length_cons] at lengths
  refine ⟨envelope, _, entry, found, read, ?_, here, ?_⟩
  · rw [← lengths, Nat.add_sub_cancel]
    exact reverse_position newer older entry
  · intro i bound
    have lower : i < (entry :: older).reverse.length := by
      rw [List.length_reverse, List.length_cons, lengths]
      exact bound
    refine ⟨(entry :: older).reverse[i], links[i], ?_, List.getElem?_eq_getElem bound, ?_⟩
    · exact reverse_position_grows newer (entry :: older) i _ (List.getElem?_eq_getElem lower)
    · exact linked.get lower bound

/-! Verdicts. -/

theorem verifyDispatched_of_passed (ssh : SshKey) (s : Store git) (verifier : Option Verifier)
    (claim : Claim ObjectId) (links : List (Link ObjectId)) (last : Link ObjectId)
    (custody : Custody s claim.envelope.key links) (tip : links.getLast? = some last)
    (passed : ∀ i, i + 1 < links.length → RotationVerdict ssh s verifier links i .verified) :
    verifyDispatched ssh s claim verifier = verifyCommit ssh s claim.id last.key verifier := by
  unfold verifyDispatched
  rw [resolveKeyWith_of_passed ssh s verifier _ links last custody tip passed]
  rfl

theorem verifyDispatched_of_refused (ssh : SshKey) (s : Store git) (verifier : Option Verifier)
    (claim : Claim ObjectId) (links : List (Link ObjectId)) (i : Nat) (verdict : Verdict)
    (custody : Custody s claim.envelope.key links)
    (refused : RotationVerdict ssh s verifier links i verdict) (failed : verdict ≠ .verified)
    (below : ∀ j, j < i → RotationVerdict ssh s verifier links j .verified) :
    verifyDispatched ssh s claim verifier = .ok verdict := by
  unfold verifyDispatched
  rw [resolveKeyWith_of_refused ssh s verifier _ links i verdict custody refused failed below]
  rfl

/-- Verified means the whole chain of custody passed and so did the claim. -/
theorem verifyDispatched_verified_iff (ssh : SshKey) (s : Store git) (verifier : Option Verifier)
    (claim : Claim ObjectId) (links : List (Link ObjectId)) (last : Link ObjectId)
    (custody : Custody s claim.envelope.key links) (tip : links.getLast? = some last) :
    verifyDispatched ssh s claim verifier = .ok .verified ↔
      (∀ i, i + 1 < links.length → RotationVerdict ssh s verifier links i .verified) ∧
        verifyCommit ssh s claim.id last.key verifier = .ok .verified := by
  rcases custody.rotations_cases ssh verifier with passed | ⟨i, verdict, refused, failed, below⟩
  · rw [verifyDispatched_of_passed ssh s verifier claim links last custody tip passed]
    exact (and_iff_right passed).symm
  · rw [verifyDispatched_of_refused ssh s verifier claim links i verdict custody refused failed below]
    constructor
    · intro same
      exact absurd (Except.ok.inj same) failed
    · intro both
      have bound : i + 1 < links.length := by
        obtain ⟨_, _, _, above, _⟩ := refused
        exact (List.getElem?_eq_some_iff.mp above).1
      exact absurd (refused.unique (both.1 i bound)) failed

/-- What `log` or `resolve` lists is an entry of the chain, up to its mark. -/
theorem entry_of_listed (s : Store git) (target : Target ObjectId) (claims : List (Claim ObjectId))
    (listed : log s target = .ok claims ∨ resolve s target = .ok claims) (claim : Claim ObjectId)
    (member : claim ∈ claims) : ∃ entries, log s target = .ok entries ∧ ∃ entry ∈ entries,
      entry.id = claim.id ∧ entry.envelope = claim.envelope := by
  rcases listed with read | resolved
  · exact ⟨claims, read, claim, member, rfl, rfl⟩
  · cases read : log s target with
    | error source => simp [resolve, read] at resolved
    | ok entries =>
      rw [resolve_of_log s target entries read] at resolved
      obtain rfl := Except.ok.inj resolved
      obtain ⟨entry, located, rfl⟩ := List.mem_map.mp member
      exact ⟨entries, rfl, entry, located, rfl, rfl⟩

/-- Claims come readable out of `log` and `resolve` alike. -/
theorem listed_readable (s : Store git) (target : Target ObjectId) (claims : List (Claim ObjectId))
    (listed : log s target = .ok claims ∨ resolve s target = .ok claims) (claim : Claim ObjectId)
    (member : claim ∈ claims) : envelopeAt s claim.id = .ok claim.envelope := by
  obtain ⟨entries, read, entry, located, same, carried⟩ := entry_of_listed s target claims listed claim member
  rw [← same, ← carried]
  exact (log_mem s target entries read entry located).1

/-- What verifies has a chain of custody, all of which passed. -/
theorem custody_of_verified (ssh : SshKey) (s : Store git) (verifier : Option Verifier) (claim : Claim ObjectId)
    (verified : verifyDispatched ssh s claim verifier = .ok .verified) :
    ∃ links, Custody s claim.envelope.key links ∧
      ∀ i, i + 1 < links.length → RotationVerdict ssh s verifier links i .verified := by
  obtain ⟨links, custody⟩ : ∃ links, Custody s claim.envelope.key links := by
    apply (resolveKeyWith_ok_iff ssh s verifier _).mp
    cases resolved : resolveKeyWith ssh s claim.envelope.key verifier with
    | ok value => exact ⟨value, rfl⟩
    | error source => simp [verifyDispatched, resolved, Result.error_bind] at verified
  obtain ⟨last, tip⟩ := custody.exists_last
  exact ⟨links, custody, ((verifyDispatched_verified_iff ssh s verifier claim links last custody tip).mp verified).1⟩

/-- The chain of custody of a claim on its own target's chain is that chain up to the claim. -/
theorem Custody.position_of_listed {s : Store git} {signer : Claim ObjectId} {links : List (Link ObjectId)}
    (custody : Custody s signer.id links) (claims : List (Claim ObjectId))
    (listed : log s signer.envelope.target = .ok claims) (j : Nat) (located : claims.reverse[j]? = some signer) :
    links.length - 1 = j ∧ ∀ i, i < links.length → ∃ entry link, claims.reverse[i]? = some entry ∧
      links[i]? = some link ∧ IsLink s entry link := by
  obtain ⟨envelope, chain, entry, found, walked, top, here, linked⟩ := custody.position
  have member : signer ∈ claims := by
    rw [← List.mem_reverse]
    exact List.mem_of_getElem? located
  have readable := (log_mem s _ claims listed signer member).1
  rw [found] at readable
  rw [Except.ok.inj readable, listed] at walked
  obtain rfl := Except.ok.inj walked
  exact ⟨position_unique s _ _ listed _ _ entry signer top located here, linked⟩

/-- A verdict under a later store was the verdict before, for a claim that could be read. -/
theorem verified_before (ssh : SshKey) (s t : Store git) (grown : Grows s t) (verifier : Option Verifier)
    (target : Target ObjectId) (claims : List (Claim ObjectId)) (read : log s target = .ok claims)
    (claim : Claim ObjectId) (member : claim ∈ claims) (key : AttestKey)
    (verified : verifyCommit ssh t claim.id key verifier = .ok .verified) :
    verifyCommit ssh s claim.id key verifier = .ok .verified := by
  obtain ⟨verdict, reached⟩ := exists_verdict ssh s verifier claim.id claim.envelope
    (log_mem s target claims read claim member).1 key
  have final := verifyCommit_extends ssh s t grown.extended _ _ _ _ reached
  rw [verified] at final
  rw [← final] at reached
  exact reached

/-- A rotation that was not signed by the key it replaces breaks the chain for good. -/
theorem not_verified_above_break (ssh : SshKey) (s t : Store git) (grown : Grows s t)
    (verifier : Option Verifier) (target : Target ObjectId) (claims : List (Claim ObjectId)) (i : Nat)
    (previous rotation : Claim ObjectId) (key : AttestKey) (read : log s target = .ok claims)
    (below : claims.reverse[i]? = some previous) (above : claims.reverse[i + 1]? = some rotation)
    (published : keyDocument s previous.id previous.envelope = .ok key)
    (broken : verifyCommit ssh s rotation.id key verifier ≠ .ok .verified)
    (later : List (Claim ObjectId)) (j : Nat) (signer : Claim ObjectId) (listed : log t target = .ok later)
    (located : later.reverse[j]? = some signer) (own : signer.envelope.target = target)
    (beyond : i + 1 ≤ j) (claim : Claim ObjectId) (signed : claim.envelope.key = signer.id) :
    verifyDispatched ssh t claim verifier ≠ .ok .verified := by
  intro verified
  obtain ⟨newer, grew⟩ := grown.log target claims read
  rw [listed] at grew
  obtain rfl := Except.ok.inj grew
  obtain ⟨links, custody, passed⟩ := custody_of_verified ssh t verifier claim verified
  rw [signed] at custody
  rw [← own] at listed
  -- the chain that resolution walked is the one on `target`, up to position `j`
  obtain ⟨height, linked⟩ := custody.position_of_listed _ listed j located
  have bound : i + 1 < links.length := by omega
  obtain ⟨previous', link, at_below, link_below, is_below⟩ := linked i (by omega)
  obtain ⟨rotation', link', at_above, link_above, is_above⟩ := linked (i + 1) bound
  rw [reverse_position_grows newer claims i previous below] at at_below
  rw [reverse_position_grows newer claims (i + 1) rotation above] at at_above
  cases at_below
  cases at_above
  obtain ⟨first, second, is_first, is_second, checked⟩ := passed i bound
  rw [link_below] at is_first
  rw [link_above] at is_second
  cases is_first
  cases is_second
  have keys : link.key = key := by
    have document := keyDocument_extends s t grown.extended _ _ _ published
    rw [is_below.2] at document
    exact Except.ok.inj document
  rw [is_above.1, keys] at checked
  have member : rotation ∈ claims := by
    rw [← List.mem_reverse]
    exact List.mem_of_getElem? above
  exact broken (verified_before ssh s t grown verifier target claims read rotation member key checked)

/-- Verified means an unbroken chain of custody: every rotation from the root up to the
claim's key passes under the key before it and the claim passes under its own; the lowest
failure is the verdict otherwise; and what sits on a failed rotation never verifies, in
any later store. -/
theorem verified_iff_custody (ssh : SshKey) :
    (∀ (s : Store git) (target : Target ObjectId) (claims : List (Claim ObjectId)) (claim : Claim ObjectId)
      (links : List (Link ObjectId)) (verifier : Option Verifier),
      log s target = .ok claims ∨ resolve s target = .ok claims → claim ∈ claims →
      Custody s claim.envelope.key links →
      ∃ last verdict, links.getLast? = some last ∧
        verifyCommit ssh s claim.id last.key verifier = .ok verdict ∧
        (∀ i, i + 1 < links.length → ∃ verdict, RotationVerdict ssh s verifier links i verdict) ∧
        (verifyDispatched ssh s claim verifier = .ok .verified ↔
          (∀ i, i + 1 < links.length → RotationVerdict ssh s verifier links i .verified) ∧
            verdict = .verified) ∧
        (∀ i refusal, RotationVerdict ssh s verifier links i refusal → refusal ≠ .verified →
          (∀ j, j < i → RotationVerdict ssh s verifier links j .verified) →
          verifyDispatched ssh s claim verifier = .ok refusal) ∧
        ((∀ i, i + 1 < links.length → RotationVerdict ssh s verifier links i .verified) →
          verifyDispatched ssh s claim verifier = .ok verdict)) ∧
    (∀ (s t : Store git) (trace : List (Store git × Performed ObjectId)) (verifier : Option Verifier)
      (target : Target ObjectId) (claims later : List (Claim ObjectId)) (i j : Nat)
      (previous rotation signer : Claim ObjectId) (key : AttestKey),
      log s target = .ok claims → claims.reverse[i]? = some previous →
      claims.reverse[i + 1]? = some rotation →
      keyDocument s previous.id previous.envelope = .ok key →
      verifyCommit ssh s rotation.id key verifier ≠ .ok .verified →
      Run (· = s) Step trace t → log t target = .ok later → later.reverse[j]? = some signer →
      signer.envelope.target = target → i + 1 ≤ j → ∀ claim : Claim ObjectId,
      claim.envelope.key = signer.id → verifyDispatched ssh t claim verifier ≠ .ok .verified) := by
  constructor
  · intro s target claims claim links verifier listed member custody
    obtain ⟨last, tip⟩ := custody.exists_last
    obtain ⟨verdict, reached⟩ := exists_verdict ssh s verifier claim.id claim.envelope
      (listed_readable s target claims listed claim member) last.key
    refine ⟨last, verdict, tip, reached, custody.rotationVerdict ssh verifier, ?_, ?_, ?_⟩
    · rw [verifyDispatched_verified_iff ssh s verifier claim links last custody tip, reached]
      simp only [Except.ok.injEq]
    · intro i refusal refused failed below
      exact verifyDispatched_of_refused ssh s verifier claim links i refusal custody refused failed below
    · intro passed
      rw [verifyDispatched_of_passed ssh s verifier claim links last custody tip passed, reached]
  · intro s t trace verifier target claims later i j previous rotation signer key read below above
      published broken run listed located own beyond claim signed
    exact not_verified_above_break ssh s t (run_grows s t trace run) verifier target claims i previous
      rotation key read below above published broken later j signer listed located own beyond claim signed

/-- Verdicts and keys, once reached, stay as they are whatever is appended. -/
theorem verdicts_stable (ssh : SshKey) (s t : Store git) (trace : List (Store git × Performed ObjectId))
    (run : Run (· = s) Step trace t) :
    (∀ claim verdict, verify ssh s claim = .ok verdict → verify ssh t claim = .ok verdict) ∧
    (∀ claim verifier verdict, verifyWith ssh s claim verifier = .ok verdict →
      verifyWith ssh t claim verifier = .ok verdict) ∧
    (∀ id value, key ssh s id = .ok value → key ssh t id = .ok value) := by
  have grown := run_grows s t trace run
  refine ⟨?_, ?_, ?_⟩
  · intro claim verdict reached
    exact verifyDispatched_grows ssh s t grown claim none verdict reached
  · intro claim verifier verdict reached
    exact verifyDispatched_grows ssh s t grown claim (some verifier) verdict reached
  · intro id value resolved
    exact key_grows ssh s t grown id value resolved

section Sample

def aliceKey : AttestKey := { format := SSH_ED25519, publicKey := [49], machine := false }
def bobKey : AttestKey := { format := SSH_ED25519, publicKey := [50], machine := false }
def bob : Writer := keyWriter "bob" [50]

def noteUnder (key : Digest) : Envelope Digest := { note with key := key }

/-- Alice's key, rotated by Alice to Bob's, and a note Bob signs under the rotation. -/
def rooted : Digest × Store digestGit := outcome (addKey emptyStore alice aliceKey)
def rotated : Digest × Store digestGit := outcome (rotateKey rooted.2 alice rooted.1 bobKey)
def bobNote : Digest × Store digestGit := outcome (sign rotated.2 bob (noteUnder rotated.1))

/-- The same rotation made by Bob, whose key it installs. -/
def usurped : Digest × Store digestGit := outcome (rotateKey rooted.2 bob rooted.1 bobKey)
def usurperNote : Digest × Store digestGit := outcome (sign usurped.2 bob (noteUnder usurped.1))

/-- Alice's key chain after Bob has rotated it. -/
def usurpedChain : List (Claim Digest) :=
  [⟨usurped.1, rotationEnvelope digestGit (keyTarget digestGit aliceKey) rooted.1 bobKey, none⟩,
    ⟨rooted.1, addEnvelope digestGit aliceKey, none⟩]

/-- What the calls and checks of the sample return. -/
structure NotesRun : Prop where
  chain : keyChain bobNote.2 rotated.1 = .ok [⟨rooted.1, aliceKey⟩, ⟨rotated.1, bobKey⟩]
  listed : log bobNote.2 note.target = .ok [⟨bobNote.1, noteUnder rotated.1, none⟩]
  noted : sign rotated.2 bob (noteUnder rotated.1) = .ok bobNote
  installed : key namedSsh rotated.2 rotated.1 = .ok (some bobKey)
  rotationSigned : verifyCommit namedSsh bobNote.2 rotated.1 aliceKey none = .ok .verified
  noteSigned : verifyCommit namedSsh bobNote.2 bobNote.1 bobKey none = .ok .verified
  usurperNoted : sign usurped.2 bob (noteUnder usurped.1) = .ok usurperNote
  before : log usurped.2 (keyTarget digestGit aliceKey) = .ok usurpedChain
  after : log usurperNote.2 (keyTarget digestGit aliceKey) = .ok usurpedChain
  published : keyDocument usurped.2 rooted.1 (addEnvelope digestGit aliceKey) = .ok aliceKey
  broken : verifyCommit namedSsh usurped.2 usurped.1 aliceKey none ≠ .ok .verified

theorem notesRun : NotesRun where
  chain := by decide +kernel
  listed := by decide +kernel
  noted := eq_outcome _ (by decide +kernel)
  installed := by decide +kernel
  rotationSigned := by decide +kernel
  noteSigned := by decide +kernel
  usurperNoted := eq_outcome _ (by decide +kernel)
  before := by decide +kernel
  after := by decide +kernel
  published := by decide +kernel
  broken := by decide +kernel

theorem rotated_custody : Custody bobNote.2 rotated.1 [⟨rooted.1, aliceKey⟩, ⟨rotated.1, bobKey⟩] :=
  (keyChain_ok _ _ _).mp notesRun.chain

theorem bobNote_run : Run (· = rotated.2) Step
    [(rotated.2, ⟨bob, .sign (noteUnder rotated.1), bobNote.1⟩)] bobNote.2 :=
  .next (.start rfl) notesRun.noted

theorem usurperNote_run : Run (· = usurped.2) Step
    [(usurped.2, ⟨bob, .sign (noteUnder usurped.1), usurperNote.1⟩)] usurperNote.2 :=
  .next (.start rfl) notesRun.usurperNoted

/-- Bob's note verifies after Alice's rotation, and never after his own. -/
theorem verified_iff_custody_notes :
    verify namedSsh bobNote.2 ⟨bobNote.1, noteUnder rotated.1, none⟩ = .ok .verified ∧
    verify namedSsh usurperNote.2 ⟨usurperNote.1, noteUnder usurped.1, none⟩ ≠ .ok .verified := by
  constructor
  · obtain ⟨last, verdict, tip, reached, _, decided, _⟩ := (verified_iff_custody namedSsh).1 bobNote.2
      note.target _ ⟨bobNote.1, noteUnder rotated.1, none⟩ _ none (.inl notesRun.listed) List.mem_cons_self
      rotated_custody
    have same : last = ⟨rotated.1, bobKey⟩ := (Option.some.inj tip).symm
    subst same
    apply decided.mpr
    constructor
    · intro i bound
      obtain rfl : i = 0 := by simp at bound; omega
      exact ⟨⟨rooted.1, aliceKey⟩, ⟨rotated.1, bobKey⟩, rfl, rfl, notesRun.rotationSigned⟩
    · rw [notesRun.noteSigned] at reached
      exact (Except.ok.inj reached).symm
  · exact (verified_iff_custody namedSsh).2 usurped.2 usurperNote.2 _ none (keyTarget digestGit aliceKey)
      usurpedChain usurpedChain 0 1 ⟨rooted.1, addEnvelope digestGit aliceKey, none⟩
      ⟨usurped.1, rotationEnvelope digestGit (keyTarget digestGit aliceKey) rooted.1 bobKey, none⟩
      ⟨usurped.1, rotationEnvelope digestGit (keyTarget digestGit aliceKey) rooted.1 bobKey, none⟩
      aliceKey notesRun.before rfl rfl notesRun.published notesRun.broken usurperNote_run
      notesRun.after rfl rfl (by decide) _ rfl

/-- The key that Alice's rotation installed is still Bob's after he has signed with it. -/
theorem verdicts_stable_bob : key namedSsh bobNote.2 rotated.1 = .ok (some bobKey) :=
  (verdicts_stable namedSsh rotated.2 bobNote.2 _ bobNote_run).2.2 rotated.1 (some bobKey) notesRun.installed

end Sample

end GitAnchor.Attest
