import GitAnchor.Attest.Verdicts

/-! When a published key resolves: exactly when every claim below it on the chain it was
appended to decodes as a key document. -/

namespace GitAnchor.Attest
open GitAnchor.Foundation GitAnchor.Substrate
variable {ObjectId : Type} [DecidableEq ObjectId] {git : Git ObjectId}

theorem exists_links (s : Store git) (entries : List (Claim ObjectId))
    (keys : ∀ entry ∈ entries, ∃ key, keyDocument s entry.id entry.envelope = .ok key) :
    ∃ links, List.Forall₂ (IsLink s) entries links := by
  induction entries with
  | nil => exact ⟨[], .nil⟩
  | cons entry rest ih =>
    obtain ⟨key, document⟩ := keys entry List.mem_cons_self
    obtain ⟨links, linked⟩ := ih (fun other member => keys other (List.mem_cons_of_mem _ member))
    exact ⟨⟨entry.id, key⟩ :: links, .cons ⟨rfl, document⟩ linked⟩

theorem keys_of_links (s : Store git) (entries : List (Claim ObjectId)) (links : List (Link ObjectId))
    (linked : List.Forall₂ (IsLink s) entries links) :
    ∀ entry ∈ entries, ∃ key, keyDocument s entry.id entry.envelope = .ok key := by
  induction linked with
  | nil => simp
  | cons first _ ih =>
    intro entry member
    rcases List.mem_cons.mp member with same | later
    · rw [same]
      exact ⟨_, first.2⟩
    · exact ih entry later

/-- The chain of custody of a claim on its own target's chain is the chain from that claim down. -/
theorem custody_listed_iff (s : Store git) (target : Target ObjectId) (newer : List (Claim ObjectId))
    (claim : Claim ObjectId) (older : List (Claim ObjectId)) (read : log s target = .ok (newer ++ claim :: older))
    (own : claim.envelope.target = target) (links : List (Link ObjectId)) :
    Custody s claim.id links ↔ List.Forall₂ (IsLink s) (claim :: older).reverse links := by
  have found := (log_mem s target _ read claim (List.mem_append_right newer List.mem_cons_self)).1
  constructor
  · rintro ⟨envelope, newer', entry, below, found', read', here, linked⟩
    rw [found] at found'
    obtain rfl := Except.ok.inj found'
    rw [own, read] at read'
    have whole := Except.ok.inj read'
    have there := reverse_position newer' below entry
    rw [← whole] at there
    have height : older.length = below.length :=
      position_unique s target _ read _ _ claim entry (reverse_position newer older claim) there here.symm
    have tails : claim :: older = entry :: below := (List.append_inj' whole (by simp [height])).2
    rw [tails]
    exact linked
  · intro linked
    exact ⟨claim.envelope, newer, claim, older, found, by rw [own, read], rfl, linked⟩

/-! Key calls. -/

/-- The chain a call that publishes a key appends to. -/
def publishesOn (s : Store git) : Call ObjectId → Option (Target ObjectId)
  | .addKey key => some (keyTarget git key)
  | .rotateKey previous _ => (keyEnvelope s previous).toOption.map Envelope.target
  | _ => none

def publishedKey : Call ObjectId → Option AttestKey
  | .addKey key => some key
  | .rotateKey _ key => some key
  | _ => none

/-- What a call that publishes a key puts on which chain. -/
theorem landed_key (s t : Store git) (done : Performed ObjectId) (on : Target ObjectId)
    (taken : Step s done t) (published : publishesOn s done.call = some on) :
    ∃ envelope key, publishedKey done.call = some key ∧ envelope.target = on ∧
      keyDocument t done.id envelope = .ok key ∧ Landed s done on envelope t := by
  obtain ⟨on', envelope, ready, prepared, appended⟩ := step_cases s t done taken
  have landing := landed s t done on' envelope ready prepared appended
  have stored (key : AttestKey) (written : ready = s.writeObject (.key key)) :
      t.find (git.objectId (.key key)) = some (.key key) := by
    apply appended.extends_store.find
    rw [written]
    apply ContentStore.find_write_self git.objectId_injective
    intro id link
    cases link
  obtain ⟨writer, call, id⟩ := done
  cases prepared with
  | sign => cases published
  | revoke => cases published
  | addKey key =>
    obtain rfl := Option.some.inj published
    refine ⟨_, key, rfl, rfl, ?_, landing⟩
    exact (keyDocument_ok t id _ key).mpr ⟨rfl, rfl, stored key rfl⟩
  | rotateKey previous key envelope read =>
    simp only [publishesOn, read, Except.toOption, Option.map_some, Option.some.injEq] at published
    subst published
    obtain ⟨_, _, document⟩ := (keyEnvelope_ok s previous envelope).mp read
    have kind := ((keyDocument_ok s previous envelope _).mp document).2.1
    refine ⟨rotationEnvelope git envelope.target previous key, key, rfl, rfl, ?_, landing⟩
    exact (keyDocument_ok t id _ key).mpr ⟨rfl, kind, stored key rfl⟩

/-- Resolving an id, and verifying what is signed under it, reaches an outcome. -/
def Resolves (ssh : SshKey) (s : Store git) (id : ObjectId) : Prop :=
  (∃ value, key ssh s id = .ok value) ∧
    ∀ target claims, log s target = .ok claims ∨ resolve s target = .ok claims →
      ∀ claim ∈ claims, claim.envelope.key = id → ∃ verdict, verify ssh s claim = .ok verdict

theorem resolves_iff_custody (ssh : SshKey) (s : Store git) (id : ObjectId) :
    Resolves ssh s id ↔ ∃ links, Custody s id links := by
  constructor
  · rintro ⟨resolved, _⟩
    exact (key_ok_iff ssh s id).mp resolved
  · rintro ⟨links, custody⟩
    refine ⟨(key_ok_iff ssh s id).mpr ⟨links, custody⟩, ?_⟩
    intro target claims listed claim member signed
    rw [← signed] at custody
    rcases custody.rotations_cases ssh none with passed | ⟨i, verdict, refused, failed, below⟩
    · obtain ⟨last, tip⟩ := custody.exists_last
      obtain ⟨verdict, reached⟩ := exists_verdict ssh s none claim.id claim.envelope
        (listed_readable s target claims listed claim member) last.key
      exact ⟨verdict, (verifyDispatched_of_passed ssh s none claim links last custody tip passed).trans reached⟩
    · exact ⟨verdict, verifyDispatched_of_refused ssh s none claim links i verdict custody refused failed below⟩

/-- The store in which a call appends: one that publishes a key has written its document. -/
def withOwnKey (s : Store git) (call : Call ObjectId) : Store git :=
  match publishedKey call with
  | some key => (writeKey s key).2
  | none => s

theorem prepared_ready (s ready : Store git) (call : Call ObjectId) (on : Target ObjectId) (envelope : Envelope ObjectId)
    (prepared : Prepared s call on envelope ready) : ready = withOwnKey s call := by
  cases prepared <;> rfl

/-- A step adds no key document but its own. -/
theorem keyDocument_step (s t : Store git) (done : Performed ObjectId) (taken : Step s done t) (claim : ObjectId)
    (envelope : Envelope ObjectId) (key : AttestKey) :
    keyDocument t claim envelope = .ok key ↔ keyDocument (withOwnKey s done.call) claim envelope = .ok key := by
  obtain ⟨on, appending, ready, prepared, appended⟩ := step_cases s t done taken
  rw [← prepared_ready s ready done.call on appending prepared]
  constructor
  · intro document
    obtain ⟨kind, target, found⟩ := (keyDocument_ok t claim envelope key).mp document
    obtain ⟨_, _, _, published⟩ := appended.published
    refine (keyDocument_ok ready claim envelope key).mpr ⟨kind, target, ?_⟩
    unfold Store.find at found
    rw [published.objects] at found
    rcases ContentStore.find_of_write _ _ _ _ found with earlier | own
    · exact earlier
    · cases own
  · exact keyDocument_extends ready t appended.extends_store claim envelope key

/-- Every claim on the chain that the call appends to decodes as a key document. -/
def KeysBelow (s : Store git) (call : Call ObjectId) (on : Target ObjectId) : Prop :=
  ∀ claims, log s on = .ok claims → ∀ claim ∈ claims,
    ∃ key, keyDocument (withOwnKey s call) claim.id claim.envelope = .ok key

/-- A published key resolves in every later state when each claim on its chain, as it was
published, decodes as a key document; one that does not makes every resolution an error. -/
theorem published_resolves_iff (ssh : SshKey) (before after : Store git)
    (trace : List (Store git × Performed ObjectId)) (run : Run Unclaimed Step trace before)
    (done : Performed ObjectId) (taken : Step before done after) (on : Target ObjectId)
    (published : publishesOn before done.call = some on) :
    (∀ more later, Run (· = after) Step more later → Resolves ssh later done.id) ↔ KeysBelow before done.call on := by
  obtain ⟨claims, below⟩ := legible_run before trace run on
  obtain ⟨envelope, key, _, own, document, landing⟩ := landed_key before after done on taken published
  have top := landing.here claims below
  have covers (later : Store git) (grown : Grows after later) (links : List (Link ObjectId)) :
      Custody later done.id links ↔
        List.Forall₂ (IsLink later) (⟨done.id, envelope, none⟩ :: claims : List (Claim ObjectId)).reverse links := by
    obtain ⟨newer, read⟩ := grown.log on _ top
    exact custody_listed_iff later on newer ⟨done.id, envelope, none⟩ claims read own links
  constructor
  · intro resolves claims' below' claim listed
    rw [below] at below'
    obtain rfl := Except.ok.inj below'
    obtain ⟨links, custody⟩ := (resolves_iff_custody ssh after done.id).mp (resolves [] after (.start rfl))
    have member : claim ∈ (⟨done.id, envelope, none⟩ :: claims : List (Claim ObjectId)).reverse :=
      List.mem_reverse.mpr (List.mem_cons_of_mem _ listed)
    obtain ⟨found, decoded⟩ := keys_of_links after _ links ((covers after (.refl after) links).mp custody) claim member
    exact ⟨found, (keyDocument_step before after done taken _ _ found).mp decoded⟩
  · intro keys more later further
    have grown : Grows after later := further.relates Grows.refl (fun _ _ _ => Grows.trans) step_grows
    have decoded : ∀ entry ∈ (⟨done.id, envelope, none⟩ :: claims : List (Claim ObjectId)).reverse,
        ∃ key, keyDocument after entry.id entry.envelope = .ok key := by
      intro entry listed
      rcases List.mem_cons.mp (List.mem_reverse.mp listed) with first | older
      · rw [first]
        exact ⟨key, document⟩
      · obtain ⟨found, decodes⟩ := keys claims below entry older
        exact ⟨found, (keyDocument_step before after done taken _ _ found).mpr decodes⟩
    obtain ⟨links, linked⟩ := exists_links later _ (by
      intro entry listed
      obtain ⟨found, decodes⟩ := decoded entry listed
      exact ⟨found, keyDocument_extends after later grown.extended _ _ _ decodes⟩)
    exact (resolves_iff_custody ssh later done.id).mpr ⟨links, (covers later grown links).mpr linked⟩

section Sample

/-- Every key claim in the store points at a key document that can be read. -/
def KeysReadable (s : Store git) : Prop :=
  ∀ id envelope, envelopeAt s id = .ok envelope → envelope.payloadKind = KEY_KIND →
    envelope.target.kind = KEY_TARGET_KIND → ∃ key, s.find envelope.payload = some (.key key)

def readableObject (s : Store digestGit) : Object Digest → Bool
  | .key _ => true
  | .commit commit =>
      match commit.document with
      | .other _ => true
      | .envelope stored =>
          stored.payloadKind ≠ KEY_KIND || stored.target.kind ≠ KEY_TARGET_KIND ||
            match s.find stored.payload with
            | some (.key _) => true
            | _ => false

theorem keysReadable_of_objects (s : Store digestGit)
    (all : s.objects.objects.all (readableObject s) = true) : KeysReadable s := by
  intro id envelope read kind target
  obtain ⟨commit, stored, found, document, rfl⟩ := envelopeAt_ok s id envelope read
  have checked := List.all_eq_true.mp all _ (ContentStore.mem_objects_of_find _ _ _ found)
  change stored.payloadKind = KEY_KIND at kind
  change stored.target.kind = KEY_TARGET_KIND at target
  simp only [readableObject, document, kind, target, ne_eq, not_true_eq_false, decide_false, Bool.false_or] at checked
  change ∃ key, s.find stored.payload = some (.key key)
  cases payload : s.find stored.payload with
  | none => simp [payload] at checked
  | some object =>
    cases object with
    | commit other => simp [payload] at checked
    | key value => exact ⟨value, rfl⟩

/-- Alice's key claim revoked, then rotated away from. -/
def withdrawn : Digest × Store digestGit := outcome (revoke rooted.2 alice rooted.1 rooted.1)
def replaced : Digest × Store digestGit := outcome (rotateKey withdrawn.2 alice rooted.1 bobKey)

/-- What the calls of the sample return and leave behind. -/
structure KeysRun : Prop where
  added : addKey emptyStore alice aliceKey = .ok rooted
  rotation : rotateKey rooted.2 alice rooted.1 bobKey = .ok rotated
  revocation : revoke rooted.2 alice rooted.1 rooted.1 = .ok withdrawn
  replacement : rotateKey withdrawn.2 alice rooted.1 bobKey = .ok replaced
  root : log rooted.2 (keyTarget digestGit aliceKey) = .ok [⟨rooted.1, addEnvelope digestGit aliceKey, none⟩]
  onto : publishesOn rooted.2 (.rotateKey rooted.1 bobKey) = some (keyTarget digestGit aliceKey)
  replacedOnto : publishesOn withdrawn.2 (.rotateKey rooted.1 bobKey) = some (keyTarget digestGit aliceKey)
  decoded : keyDocument (withOwnKey rooted.2 (.rotateKey rooted.1 bobKey)) rooted.1 (addEnvelope digestGit aliceKey) = .ok aliceKey
  replacedReadable : replaced.2.objects.objects.all (readableObject replaced.2) = true
  refused : key namedSsh replaced.2 replaced.1 = .error (.notAKeyClaim withdrawn.1 REVOCATION_KIND)

theorem keysRun : KeysRun where
  added := eq_outcome _ (by decide +kernel)
  rotation := eq_outcome _ (by decide +kernel)
  revocation := eq_outcome _ (by decide +kernel)
  replacement := eq_outcome _ (by decide +kernel)
  root := by decide +kernel
  onto := by decide +kernel
  replacedOnto := by decide +kernel
  decoded := by decide +kernel
  replacedReadable := by decide +kernel
  refused := by decide +kernel

theorem rooted_run : Run Unclaimed Step [(emptyStore, ⟨alice, .addKey aliceKey, rooted.1⟩)] rooted.2 :=
  .next (.start unclaimed_emptyStore) keysRun.added

theorem rotated_run : Run Unclaimed Step
    [(rooted.2, ⟨alice, .rotateKey rooted.1 bobKey, rotated.1⟩),
      (emptyStore, ⟨alice, .addKey aliceKey, rooted.1⟩)] rotated.2 :=
  .next rooted_run keysRun.rotation

theorem replaced_run : Run Unclaimed Step
    [(withdrawn.2, ⟨alice, .rotateKey rooted.1 bobKey, replaced.1⟩),
      (rooted.2, ⟨alice, .revoke rooted.1 rooted.1, withdrawn.1⟩),
      (emptyStore, ⟨alice, .addKey aliceKey, rooted.1⟩)] replaced.2 :=
  .next (.next rooted_run keysRun.revocation) keysRun.replacement

theorem published_resolves_rotated : KeysBelow rooted.2 (.rotateKey rooted.1 bobKey) (keyTarget digestGit aliceKey) ∧
    ∀ more later, Run (· = rotated.2) Step more later → Resolves namedSsh later rotated.1 := by
  have below : KeysBelow rooted.2 (.rotateKey rooted.1 bobKey) (keyTarget digestGit aliceKey) := by
    intro claims read claim member
    rw [keysRun.root] at read
    obtain rfl := Except.ok.inj read
    obtain rfl := List.mem_singleton.mp member
    exact ⟨aliceKey, keysRun.decoded⟩
  exact ⟨below, (published_resolves_iff namedSsh rooted.2 rotated.2 _ rooted_run
    ⟨alice, .rotateKey rooted.1 bobKey, rotated.1⟩ keysRun.rotation (keyTarget digestGit aliceKey) keysRun.onto).mpr below⟩

/-- The revocation lies below the rotation, and every resolution of the new key stops at it. -/
theorem published_not_resolves : ¬ ∀ (trace : List (Store digestGit × Performed Digest))
    (s : Store digestGit), Run Unclaimed Step trace s → KeysReadable s →
    ∀ before done, (before, done) ∈ trace → ∀ on, publishesOn before done.call = some on →
    Resolves namedSsh s done.id := by
  intro always
  have resolved := (always _ replaced.2 replaced_run (keysReadable_of_objects _ keysRun.replacedReadable)
    withdrawn.2 _ List.mem_cons_self (keyTarget digestGit aliceKey) keysRun.replacedOnto).1
  obtain ⟨value, ok⟩ := resolved
  rw [keysRun.refused] at ok
  cases ok

end Sample

end GitAnchor.Attest
