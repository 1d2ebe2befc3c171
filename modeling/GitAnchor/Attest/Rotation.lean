import GitAnchor.Attest.Publication

/-! Which key judges a rotation: the one at the tip the rotation was appended to, whichever
link it names. -/

namespace GitAnchor.Attest
open GitAnchor.Foundation GitAnchor.Substrate
variable {ObjectId : Type} [DecidableEq ObjectId] {git : Git ObjectId}

/-- Only a revocation sits on a chain that is not its own target's. -/
def Placed (s : Store git) : Prop :=
  ∀ target claims, log s target = .ok claims → ∀ claim ∈ claims,
    claim.envelope.target = target ∨ isRevocation claim.envelope = true

theorem placed_step (s : Store git) (done : Performed ObjectId) (t : Store git)
    (before : Legible s ∧ Placed s) (taken : Step s done t) : Legible t ∧ Placed t := by
  refine ⟨legible_step s done t before.1 taken, ?_⟩
  obtain ⟨on, envelope, ready, prepared, appended⟩ := step_cases s t done taken
  have landing := landed s t done on envelope ready prepared appended
  intro target claims read claim member
  obtain ⟨older, below⟩ := before.1 target
  by_cases same : target = on
  · subst same
    rw [landing.here older below] at read
    obtain rfl := Except.ok.inj read
    rcases List.mem_cons.mp member with first | later
    · subst first
      rcases prepared.home with own | ⟨revoked, by_key, _, carried⟩
      · exact .inl own
      · exact .inr (by simp [isRevocation, carried, revocationEnvelope])
    · exact before.2 target older below claim later
  · rw [landing.elsewhere target same older below] at read
    obtain rfl := Except.ok.inj read
    exact before.2 target older below claim member

theorem placed_run (s : Store git) (trace : List (Store git × Performed ObjectId))
    (run : Run Unclaimed Step trace s) : Placed s := by
  have both : Legible s ∧ Placed s := by
    apply run.invariant
    · intro start unclaimed
      refine ⟨legible_of_unclaimed start unclaimed, ?_⟩
      intro target claims read claim member
      obtain ⟨ids, walked, others⟩ := (log_ok start target claims).mp read
      rw [start.history_eq_of_ref_none _ (unclaimed _)] at walked
      cases walked
      simp only [readClaims, Result.pure_eq_ok] at others
      rw [← others] at member
      cases member
    · exact placed_step
  exact both.2

/-- Every key chain of the store holds key claims only. -/
def KeyChainsOnly (s : Store git) : Prop :=
  ∀ target claims, target.kind = KEY_TARGET_KIND → log s target = .ok claims →
    ∀ claim ∈ claims, ∃ key, keyDocument s claim.id claim.envelope = .ok key

theorem rotationVerdict_append (ssh : SshKey) (s : Store git) (verifier : Option Verifier)
    (links more : List (Link ObjectId)) (i : Nat) (bound : i + 1 < links.length) (verdict : Verdict) :
    RotationVerdict ssh s verifier (links ++ more) i verdict ↔
      RotationVerdict ssh s verifier links i verdict := by
  unfold RotationVerdict
  rw [List.getElem?_append_left (by omega), List.getElem?_append_left bound]

/-- A new link passes when all before it did and the link below it accepts it. -/
theorem passed_append (ssh : SshKey) (s : Store git) (verifier : Option Verifier)
    (links : List (Link ObjectId)) (last link : Link ObjectId) (tip : links.getLast? = some last) :
    (∀ i, i + 1 < (links ++ [link]).length →
        RotationVerdict ssh s verifier (links ++ [link]) i .verified) ↔
      (∀ i, i + 1 < links.length → RotationVerdict ssh s verifier links i .verified) ∧
        verifyCommit ssh s link.claim last.key verifier = .ok .verified := by
  have positive : 0 < links.length := by
    cases links with
    | nil => cases tip
    | cons _ _ => simp
  have below : (links ++ [link])[links.length - 1]? = some last := by
    rw [List.getElem?_append_left (by omega), ← List.getLast?_eq_getElem?]
    exact tip
  have above : (links ++ [link])[links.length - 1 + 1]? = some link := by
    rw [Nat.sub_add_cancel positive]
    simp
  constructor
  · intro passed
    constructor
    · intro i bound
      apply (rotationVerdict_append ssh s verifier links [link] i bound .verified).mp
      apply passed
      rw [List.length_append]
      omega
    · obtain ⟨previous, rotation, at_below, at_above, checked⟩ :=
        passed (links.length - 1) (by simp only [List.length_append, List.length_singleton]; omega)
      rw [below] at at_below
      rw [above] at at_above
      cases at_below
      cases at_above
      exact checked
  · rintro ⟨passed, checked⟩ i bound
    simp only [List.length_append, List.length_singleton] at bound
    by_cases inner : i + 1 < links.length
    · exact (rotationVerdict_append ssh s verifier links [link] i inner .verified).mpr (passed i inner)
    · obtain rfl : i = links.length - 1 := by omega
      exact ⟨last, link, below, above, checked⟩

/-- Verdicts that were reached at all are the same in a later store. -/
theorem passed_grows_iff (ssh : SshKey) (s t : Store git) (grown : Grows s t)
    (verifier : Option Verifier) (claim : ObjectId) (links : List (Link ObjectId))
    (custody : Custody s claim links) :
    (∀ i, i + 1 < links.length → RotationVerdict ssh t verifier links i .verified) ↔
      ∀ i, i + 1 < links.length → RotationVerdict ssh s verifier links i .verified := by
  rw [← checkRotations_none, ← checkRotations_none]
  constructor
  · intro later
    obtain ⟨resolved, ok⟩ := (resolveKeyWith_ok_iff ssh s verifier claim).mpr ⟨links, custody⟩
    simp only [resolveKeyWith, (keyChain_ok s claim links).mpr custody, Result.ok_bind,
      Result.bind_eq_ok] at ok
    obtain ⟨outcome, checked, _⟩ := ok
    rw [checkRotations_grows ssh s t grown verifier links outcome checked] at later
    rw [checked, Except.ok.inj later]
  · exact checkRotations_grows ssh s t grown verifier links none

/-- A key claim that resolves publishes a key on a key chain, which has a tip. -/
theorem chain_of_resolved (ssh : SshKey) (s : Store git) (previous : ObjectId) (current : Option AttestKey)
    (resolves : key ssh s previous = .ok current) :
    ∃ envelope tip older, envelopeAt s previous = .ok envelope ∧ log s envelope.target = .ok (tip :: older) ∧
      envelope.target.kind = KEY_TARGET_KIND ∧ ∃ value, keyDocument s previous envelope = .ok value := by
  obtain ⟨links, envelope, newer, entry, below, found, read, here, linked⟩ :=
    (key_ok_iff ssh s previous).mp ⟨_, resolves⟩
  obtain ⟨tip, older, whole⟩ : ∃ tip older, newer ++ entry :: below = tip :: older := by
    cases newer with
    | nil => exact ⟨_, _, rfl⟩
    | cons first others => exact ⟨_, _, rfl⟩
  have member : entry ∈ newer ++ entry :: below := by simp
  have own := (log_mem s envelope.target _ read entry member).1
  rw [here, found] at own
  obtain ⟨value, document⟩ := keys_of_links s _ links linked entry (by simp)
  rw [← Except.ok.inj own, here] at document
  rw [whole] at read
  exact ⟨envelope, tip, older, found, read, ((keyDocument_ok s previous envelope value).mp document).2.1, value, document⟩

/-- The tip of a chain of key claims has the whole chain for its custody. -/
theorem custody_of_tip (s : Store git) (placed : Placed s) (only : KeyChainsOnly s) (target : Target ObjectId)
    (kind : target.kind = KEY_TARGET_KIND) (tip : Claim ObjectId) (older : List (Claim ObjectId))
    (read : log s target = .ok (tip :: older)) :
    ∃ links, Custody s tip.id links ∧ List.Forall₂ (IsLink s) (tip :: older).reverse links := by
  have keys := only target _ kind read
  have own : tip.envelope.target = target := by
    rcases placed target _ read tip List.mem_cons_self with home | foreign
    · exact home
    · obtain ⟨value, document⟩ := keys tip List.mem_cons_self
      have labels := ((keyDocument_ok s _ _ value).mp document).1
      simp [isRevocation, labels, KEY_KIND, REVOCATION_KIND] at foreign
  obtain ⟨links, chained⟩ := exists_links s (tip :: older).reverse
    (fun claim listed => keys claim (List.mem_reverse.mp listed))
  exact ⟨links, (custody_listed_iff s target [] tip older read own links).mpr chained, chained⟩

/-- A rotation puts one more link on top of the chain it is appended to. -/
theorem custody_of_rotation (s t : Store git) (writer : Writer) (previous id : ObjectId) (next : AttestKey)
    (ok : rotateKey s writer previous next = .ok (id, t)) (envelope : Envelope ObjectId)
    (found : envelopeAt s previous = .ok envelope) (published : ∃ value, keyDocument s previous envelope = .ok value)
    (claims : List (Claim ObjectId)) (read : log s envelope.target = .ok claims) (links : List (Link ObjectId))
    (chained : List.Forall₂ (IsLink s) claims.reverse links) :
    Grows s t ∧ Custody t id (links ++ [⟨id, next⟩]) := by
  have on : publishesOn s (.rotateKey previous next) = some envelope.target := by
    simp only [publishesOn, (keyEnvelope_ok s previous envelope).mpr ⟨found, published⟩]
    rfl
  obtain ⟨rotation, value, same, target, document, landing⟩ :=
    landed_key s t ⟨writer, .rotateKey previous next, id⟩ envelope.target ok on
  obtain rfl := Option.some.inj same
  have lasting : List.Forall₂ (IsLink t) claims.reverse links := by
    apply chained.imp
    intro claim link is_link
    exact ⟨is_link.1, keyDocument_extends s t landing.grows.extended _ _ _ is_link.2⟩
  refine ⟨landing.grows, ?_⟩
  apply (custody_listed_iff t envelope.target [] ⟨id, rotation, none⟩ _ (landing.here _ read) target _).mpr
  rw [List.reverse_cons]
  exact List.rel_append lasting (.cons ⟨rfl, document⟩ .nil)

/-- The rotation is judged by the link it lands on: its key resolves exactly when the claim
at the tip of the chain resolves to a key that accepts the rotation, whichever link it names. -/
theorem rotation_judged_by_tip (ssh : SshKey) (s t : Store git)
    (trace : List (Store git × Performed ObjectId)) (run : Run Unclaimed Step trace s)
    (only : KeyChainsOnly s) (writer : Writer) (previous id : ObjectId) (current next : AttestKey)
    (resolves : key ssh s previous = .ok (some current))
    (ok : rotateKey s writer previous next = .ok (id, t)) :
    ∃ envelope tip older, envelopeAt s previous = .ok envelope ∧
      log s envelope.target = .ok (tip :: older) ∧
      (key ssh t id = .ok (some next) ↔
        ∃ judge, key ssh s tip.id = .ok (some judge) ∧
          verifyCommit ssh t id judge none = .ok .verified) := by
  obtain ⟨envelope, tip, older, found, read, kind, published⟩ := chain_of_resolved ssh s previous _ resolves
  obtain ⟨below, custody, chained⟩ :=
    custody_of_tip s (placed_run s trace run) only envelope.target kind tip older read
  obtain ⟨grown, rotated⟩ :=
    custody_of_rotation s t writer previous id next ok envelope found published _ read below chained
  obtain ⟨last, last_tip⟩ := custody.exists_last
  refine ⟨envelope, tip, older, found, read, ?_⟩
  rw [key_eq_some_iff, resolveKeyWith_key_iff ssh t none id _ rotated,
    passed_append ssh t none below last ⟨id, next⟩ last_tip, passed_grows_iff ssh s t grown none tip.id below custody]
  simp only [List.getLast?_concat, Option.map_some, and_true]
  constructor
  · rintro ⟨passed, accepted⟩
    refine ⟨last.key, ?_, accepted⟩
    rw [key_eq_some_iff, resolveKeyWith_key_iff ssh s none tip.id below custody, last_tip]
    exact ⟨passed, rfl⟩
  · rintro ⟨judge, resolved, accepted⟩
    rw [key_eq_some_iff, resolveKeyWith_key_iff ssh s none tip.id below custody, last_tip] at resolved
    obtain rfl := Option.some.inj resolved.2
    exact ⟨resolved.1, accepted⟩

section Sample

def carolKey : AttestKey := { format := SSH_ED25519, publicKey := [51], machine := false }

/-- Carol's key installed from the tip by Bob, and from the root by Alice. -/
def promoted : Digest × Store digestGit := outcome (rotateKey rotated.2 bob rotated.1 carolKey)
def restarted : Digest × Store digestGit := outcome (rotateKey rotated.2 alice rooted.1 carolKey)

/-- What the calls of the sample return, and the keys they resolve to. -/
structure RotationsRun : Prop where
  chain : log rotated.2 (keyTarget digestGit aliceKey) =
    .ok [⟨rotated.1, rotationEnvelope digestGit (keyTarget digestGit aliceKey) rooted.1 bobKey, none⟩,
      ⟨rooted.1, addEnvelope digestGit aliceKey, none⟩]
  tip : keyDocument rotated.2 rotated.1
    (rotationEnvelope digestGit (keyTarget digestGit aliceKey) rooted.1 bobKey) = .ok bobKey
  root : keyDocument rotated.2 rooted.1 (addEnvelope digestGit aliceKey) = .ok aliceKey
  envelope : envelopeAt rotated.2 rotated.1 =
    .ok (rotationEnvelope digestGit (keyTarget digestGit aliceKey) rooted.1 bobKey)
  tipKey : key namedSsh rotated.2 rotated.1 = .ok (some bobKey)
  rootKey : key namedSsh rotated.2 rooted.1 = .ok (some aliceKey)
  promotion : rotateKey rotated.2 bob rotated.1 carolKey = .ok promoted
  promotionSigned : verifyCommit namedSsh promoted.2 promoted.1 bobKey none = .ok .verified
  restart : rotateKey rotated.2 alice rooted.1 carolKey = .ok restarted
  restartSigned : verifyCommit namedSsh restarted.2 restarted.1 aliceKey none = .ok .verified
  refused : key namedSsh restarted.2 restarted.1 = .ok none

theorem rotationsRun : RotationsRun where
  chain := by decide +kernel
  tip := by decide +kernel
  root := by decide +kernel
  envelope := by decide +kernel
  tipKey := by decide +kernel
  rootKey := by decide +kernel
  promotion := eq_outcome _ (by decide +kernel)
  promotionSigned := by decide +kernel
  restart := eq_outcome _ (by decide +kernel)
  restartSigned := by decide +kernel
  refused := by decide +kernel

theorem log_rotated_elsewhere (target : Target Digest) (different : target ≠ keyTarget digestGit aliceKey) :
    log rotated.2 target = .ok [] := by
  obtain ⟨_, _, _, _, _, first⟩ := landed_key emptyStore rooted.2 ⟨alice, .addKey aliceKey, rooted.1⟩
    (keyTarget digestGit aliceKey) keysRun.added rfl
  obtain ⟨_, _, _, _, _, second⟩ := landed_key rooted.2 rotated.2
    ⟨alice, .rotateKey rooted.1 bobKey, rotated.1⟩ (keyTarget digestGit aliceKey) keysRun.rotation
    keysRun.onto
  have start : log emptyStore target = .ok [] := rfl
  exact second.elsewhere target different _ (first.elsewhere target different _ start)

theorem keyChainsOnly_rotated : KeyChainsOnly rotated.2 := by
  intro target claims _ read
  by_cases same : target = keyTarget digestGit aliceKey
  · rw [same, rotationsRun.chain] at read
    obtain rfl := Except.ok.inj read
    intro claim member
    rcases List.mem_cons.mp member with rfl | later
    · exact ⟨bobKey, rotationsRun.tip⟩
    · obtain rfl := List.mem_singleton.mp later
      exact ⟨aliceKey, rotationsRun.root⟩
  · rw [log_rotated_elsewhere target same] at read
    obtain rfl := Except.ok.inj read
    simp

theorem rotation_judged_by_tip_bob : key namedSsh promoted.2 promoted.1 = .ok (some carolKey) := by
  obtain ⟨envelope, tip, older, found, read, decided⟩ := rotation_judged_by_tip namedSsh rotated.2
    promoted.2 _ rotated_run keyChainsOnly_rotated bob rotated.1 promoted.1 bobKey carolKey
    rotationsRun.tipKey rotationsRun.promotion
  rw [rotationsRun.envelope] at found
  obtain rfl := Except.ok.inj found
  change log rotated.2 (keyTarget digestGit aliceKey) = _ at read
  rw [rotationsRun.chain] at read
  obtain ⟨rfl, _⟩ := List.cons.inj (Except.ok.inj read)
  exact decided.mpr ⟨bobKey, rotationsRun.tipKey, rotationsRun.promotionSigned⟩

/-- Alice's second rotation of her own key is judged by Bob's, which it does not name. -/
theorem rotation_not_judged_by_named : ¬ ∀ (trace : List (Store digestGit × Performed Digest))
    (s t : Store digestGit), Run Unclaimed Step trace s → KeyChainsOnly s →
    ∀ writer previous id current next, key namedSsh s previous = .ok (some current) →
    rotateKey s writer previous next = .ok (id, t) →
    verifyCommit namedSsh t id current none = .ok .verified → key namedSsh t id = .ok (some next) := by
  intro always
  have resolved := always _ rotated.2 restarted.2 rotated_run keyChainsOnly_rotated alice rooted.1
    restarted.1 aliceKey carolKey rotationsRun.rootKey rotationsRun.restart rotationsRun.restartSigned
  rw [rotationsRun.refused] at resolved
  cases resolved

end Sample

end GitAnchor.Attest
