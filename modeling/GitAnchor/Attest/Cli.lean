import GitAnchor.Attest.Rotation

/-! The command line's signing path: which key claim a run names, and the claim it then
signs under it. -/

namespace GitAnchor.Attest
open GitAnchor.Foundation GitAnchor.Substrate

/-- How a repository resolves what is written for an object: a full hash, or any revision. -/
structure Repository (ObjectId : Type) where
  fromHex : String → Option ObjectId
  revParseSingle : String → Option ObjectId

/-- The key pair of a run: the public line it publishes, and `ssh-keygen -Y sign` with the
private half. -/
structure SigningKey where
  publicLine : String
  sign : Bytes → Bytes

def SigningKey.writer (key : SigningKey) (committer : String) : Writer :=
  { committer := committer, signer := some key.sign }

/-- Who runs a command: the identity on the commits, and the key pair they are signed with. -/
structure User where
  committer : String
  signing : SigningKey

def User.writer (user : User) : Writer := user.signing.writer user.committer

inductive CliError (ObjectId : Type) where
  | notAnObjectId (text : String)
  | attest (source : Error ObjectId)
  | context (message : String) (source : Error ObjectId)
  | payload (message : String)
  deriving DecidableEq, Repr

/-- Where `sign` takes its payload from: a tree named on the command line, or the document
`git-store` builds from `--json` or the prompts, which is on the chain of no target. -/
inductive PayloadArg (ObjectId : Type) where
  | tree (hex : String)
  | built (outcome : Except String ObjectId)
  | missing

structure TargetArg where
  kind : String
  id : String

structure SignArgs (ObjectId : Type) where
  target : TargetArg
  payload : PayloadArg ObjectId
  kind : String
  key : Option String
  machine : Bool

variable {ObjectId : Type} [DecidableEq ObjectId] {git : Git ObjectId}

def object (repo : Repository ObjectId) (hex : String) : Except (CliError ObjectId) ObjectId :=
  match repo.fromHex hex with
  | some id => return id
  | none =>
      match repo.revParseSingle hex with
      | some id => return id
      | none => throw (.notAnObjectId hex)

def target (repo : Repository ObjectId) (arg : TargetArg) : Except (CliError ObjectId) (Target ObjectId) := do
  return { kind := arg.kind, id := ← object repo arg.id }

/-- What `key_claim` comes to before it writes: a claim, or the key that it has to publish. -/
inductive KeyFound (ObjectId : Type) where
  | claim (id : ObjectId)
  | unpublished (own : AttestKey)

/-- The key claim to name in an envelope: the one given, or the oldest that carries this run's
signing key, where the store has one. -/
def findKeyClaim (repo : Repository ObjectId) (ssh : SshKey) (s : Store git) (signing : SigningKey)
    (given : Option String) (machine : Bool) : Except (CliError ObjectId) (KeyFound ObjectId) :=
  match given with
  | some hex => do
      let claim ← object repo hex
      let _ ← (key ssh s claim).mapError (.context ("--key " ++ hex ++ ": not a key claim"))
      return .claim claim
  | none => do
      let attestKey ← (AttestKey.fromOpenssh ssh signing.publicLine machine).mapError .attest
      let payload := git.objectId (.key attestKey)
      let claims ← (log s { kind := KEY_TARGET_KIND, id := payload }).mapError .attest
      -- newest first, so the oldest match is the last
      match (claims.filter (fun claim => claim.envelope.payload = payload)).getLast? with
      | some claim => return .claim claim.id
      | none => return .unpublished attestKey

/-- `key_claim`, with the store it leaves: an `add_key` that fails has written the document. -/
def runKeyClaim (repo : Repository ObjectId) (ssh : SshKey) (s : Store git) (user : User) (given : Option String)
    (machine : Bool) : Except (CliError ObjectId) ObjectId × Store git :=
  match findKeyClaim repo ssh s user.signing given machine with
  | .error failure => (.error failure, s)
  | .ok (.claim id) => (.ok id, s)
  | .ok (.unpublished own) =>
      match addKey s user.writer own with
      | .ok (id, t) => (.ok id, t)
      | .error source => (.error (.attest source), (writeKey s own).2)

def payloadOf (repo : Repository ObjectId) : PayloadArg ObjectId → Except (CliError ObjectId) ObjectId
  | .tree hex => object repo hex
  | .built outcome => outcome.mapError .payload
  | .missing => throw (.payload
      "no payload: name a <payload-tree>, or build one for --kind with --json or --interactive")

/-- The call that `cmd_sign` makes once it has its key claim. -/
def signCall (repo : Repository ObjectId) (args : SignArgs ObjectId) (keyId : ObjectId) :
    Except (CliError ObjectId) (Call ObjectId) := do
  let payload ← payloadOf repo args.payload
  let on ← target repo args.target
  return .sign { target := on, payload := payload, payloadKind := args.kind, key := keyId }

/-- A call made for a command, once its arguments are read. -/
def performCall (s : Store git) (user : User) (read : Except (CliError ObjectId) (Call ObjectId)) :
    Except (CliError ObjectId) (ObjectId × Store git) := do
  let call ← read
  (perform s user.writer call).mapError .attest

/-- A command that appends: the key claim comes first, and stays where the rest fails. -/
def appending (repo : Repository ObjectId) (ssh : SshKey) (s : Store git) (user : User) (given : Option String)
    (machine : Bool) (read : ObjectId → Except (CliError ObjectId) (Call ObjectId)) :
    Except (CliError ObjectId) ObjectId × Store git :=
  match runKeyClaim repo ssh s user given machine with
  | (.error failure, t) => (.error failure, t)
  | (.ok keyId, t) =>
      match performCall t user (read keyId) with
      | .ok (id, u) => (.ok id, u)
      | .error failure => (.error failure, t)

/-- What a run returned, where it did not fail, and the store it left. -/
def succeeded (ran : Except (CliError ObjectId) ObjectId × Store git) :
    Except (CliError ObjectId) (ObjectId × Store git) :=
  ran.1.map (fun id => (id, ran.2))

def keyClaim (repo : Repository ObjectId) (ssh : SshKey) (s : Store git) (committer : String)
    (signing : SigningKey) (given : Option String) (machine : Bool) :
    Except (CliError ObjectId) (ObjectId × Store git) :=
  succeeded (runKeyClaim repo ssh s ⟨committer, signing⟩ given machine)

def cmdSign (repo : Repository ObjectId) (ssh : SshKey) (s : Store git) (committer : String)
    (signing : SigningKey) (args : SignArgs ObjectId) : Except (CliError ObjectId) (ObjectId × Store git) :=
  succeeded (appending repo ssh s ⟨committer, signing⟩ args.key args.machine (signCall repo args))

/-! What the two steps of a run come to. -/

omit [DecidableEq ObjectId] in
theorem succeeded_eq_ok (ran : Except (CliError ObjectId) ObjectId × Store git) (id : ObjectId) (t : Store git) :
    succeeded ran = .ok (id, t) ↔ ran = (.ok id, t) := by
  obtain ⟨outcome, left⟩ := ran
  cases outcome with
  | error failure => simp [succeeded, Except.map]
  | ok value => simp [succeeded, Except.map]

theorem findKeyClaim_given (repo : Repository ObjectId) (ssh : SshKey) (s : Store git) (signing : SigningKey)
    (hex : String) (machine : Bool) (found : KeyFound ObjectId) :
    findKeyClaim repo ssh s signing (some hex) machine = .ok found ↔
      ∃ id answer, object repo hex = .ok id ∧ key ssh s id = .ok answer ∧ found = .claim id := by
  simp only [findKeyClaim, Result.bind_eq_ok, Result.mapError_eq_ok, Result.pure_eq_ok]
  constructor
  · rintro ⟨id, read, answer, resolved, rfl⟩
    exact ⟨id, answer, read, resolved, rfl⟩
  · rintro ⟨id, answer, read, resolved, rfl⟩
    exact ⟨id, read, answer, resolved, rfl⟩

/-- Without `--key`, the chain of the run's key decides. -/
theorem findKeyClaim_default (repo : Repository ObjectId) (ssh : SshKey) (s : Store git) (signing : SigningKey)
    (machine : Bool) (found : KeyFound ObjectId) :
    findKeyClaim repo ssh s signing none machine = .ok found ↔
      ∃ own claims, (AttestKey.fromOpenssh ssh signing.publicLine machine : Result ObjectId AttestKey) = .ok own ∧
        log s (keyTarget git own) = .ok claims ∧
        match (claims.filter (fun claim => claim.envelope.payload = git.objectId (.key own))).getLast? with
        | some entry => found = .claim entry.id
        | none => found = .unpublished own := by
  simp only [findKeyClaim, Result.bind_eq_ok, Result.mapError_eq_ok]
  constructor
  · rintro ⟨own, parsed, claims, listed, chosen⟩
    refine ⟨own, claims, parsed, listed, ?_⟩
    split at chosen <;> exact (Except.ok.inj chosen).symm
  · rintro ⟨own, claims, parsed, listed, chosen⟩
    refine ⟨own, parsed, claims, listed, ?_⟩
    split at chosen <;> rw [chosen] <;> rfl

/-- A run publishes its key where it was given none and no claim of the key's chain carries it. -/
theorem findKeyClaim_unpublished (repo : Repository ObjectId) (ssh : SshKey) (s : Store git) (signing : SigningKey)
    (given : Option String) (machine : Bool) (own : AttestKey)
    (found : findKeyClaim repo ssh s signing given machine = .ok (.unpublished own)) : given = none ∧
      (AttestKey.fromOpenssh ssh signing.publicLine machine : Result ObjectId AttestKey) = .ok own ∧
      ∃ claims, log s (keyTarget git own) = .ok claims ∧
        (claims.filter (fun claim => claim.envelope.payload = git.objectId (.key own))).getLast? = none := by
  cases given with
  | some hex =>
    obtain ⟨_, _, _, _, same⟩ := (findKeyClaim_given repo ssh s signing hex machine _).mp found
    cases same
  | none =>
    obtain ⟨own', claims, parsed, listed, chosen⟩ := (findKeyClaim_default repo ssh s signing machine _).mp found
    split at chosen
    · cases chosen
    · next absent =>
      obtain rfl := KeyFound.unpublished.inj chosen
      exact ⟨rfl, parsed, claims, listed, absent⟩

theorem runKeyClaim_eq_ok (repo : Repository ObjectId) (ssh : SshKey) (s t : Store git) (user : User)
    (given : Option String) (machine : Bool) (id : ObjectId) :
    runKeyClaim repo ssh s user given machine = (.ok id, t) ↔
      (findKeyClaim repo ssh s user.signing given machine = .ok (.claim id) ∧ t = s) ∨
      ∃ own, findKeyClaim repo ssh s user.signing given machine = .ok (.unpublished own) ∧
        addKey s user.writer own = .ok (id, t) := by
  unfold runKeyClaim
  cases findKeyClaim repo ssh s user.signing given machine with
  | error failure => simp
  | ok found =>
    cases found with
    | claim found => simp [eq_comm]
    | unpublished own =>
      cases adds : addKey s user.writer own with
      | error source => simp [adds]
      | ok published => simp [adds, Prod.ext_iff]

theorem performCall_eq_ok (s t : Store git) (user : User) (read : Except (CliError ObjectId) (Call ObjectId))
    (id : ObjectId) : performCall s user read = .ok (id, t) ↔
      ∃ call, read = .ok call ∧ Step s ⟨user.writer, call, id⟩ t := by
  simp only [performCall, Result.bind_eq_ok, Result.mapError_eq_ok]
  rfl

theorem appending_eq_ok (repo : Repository ObjectId) (ssh : SshKey) (s u : Store git) (user : User)
    (given : Option String) (machine : Bool) (read : ObjectId → Except (CliError ObjectId) (Call ObjectId)) (id : ObjectId) :
    appending repo ssh s user given machine read = (.ok id, u) ↔
      ∃ keyId t call, runKeyClaim repo ssh s user given machine = (.ok keyId, t) ∧ read keyId = .ok call ∧
        Step t ⟨user.writer, call, id⟩ u := by
  unfold appending
  rcases runKeyClaim repo ssh s user given machine with ⟨named, t⟩
  cases named with
  | error failure => simp
  | ok keyId =>
    have performed := performCall_eq_ok t u user (read keyId) id
    dsimp only
    cases ran : performCall t user (read keyId) with
    | error failure => simp_all
    | ok appended => simp_all [Prod.ext_iff]

/-! What the run relies on from outside. -/

/-- Blocks that `ssh-keygen -Y sign` makes pass the shipped check under the key's own format
and public bytes. -/
def SignsFor (ssh : SshKey) (sign : Bytes → Bytes) (own : AttestKey) : Prop :=
  ∀ signed published, published.format = own.format → published.publicKey = own.publicKey →
    sshEd25519 ssh signed (sign signed) published = .verified

/-- The store writes a signed commit as the unsigned one with a `gpgsig` header put between
its header groups, and an unsigned commit has no such header. -/
def Embeds (git : Git ObjectId) : Prop :=
  ∀ (commit : Commit ObjectId) (signature : Bytes),
    (∀ group ∈ SignedBytes.headerGroups (git.rawCommit { commit with signature := none }),
      SignedBytes.isGpgsig group = false) ∧
    ∃ before after,
      SignedBytes.Boundary (git.rawCommit { commit with signature := none }) before after ∧
      git.rawCommit { commit with signature := some signature } =
        before.flatten.flatten ++ SignedBytes.gpgsigHeader signature ++ after.flatten.flatten ++
          SignedBytes.body (git.rawCommit { commit with signature := none })

omit [DecidableEq ObjectId] in
/-- The signed bytes of a signed commit are the bytes its signer was given. -/
theorem signedBytes_rawCommit (embeds : Embeds git) (commit : Commit ObjectId) (signature : Bytes) :
    SignedBytes.signedBytes (git.rawCommit { commit with signature := some signature }) =
      git.rawCommit { commit with signature := none } := by
  obtain ⟨unsigned, before, after, boundary, raw⟩ := embeds commit signature
  rw [raw, SignedBytes.signedBytes_eq]
  exact SignedBytes.withoutGpgsig_insert _ signature before after unsigned boundary

omit [DecidableEq ObjectId] in
/-- A claim commit that a key signed passes the check under every document of that key. -/
theorem commitVerdict_signed (embeds : Embeds git) (ssh : SshKey) (committer : String)
    (signing : SigningKey) (own published : AttestKey) (honest : SignsFor ssh signing.sign own)
    (format : published.format = own.format) (publicKey : published.publicKey = own.publicKey)
    (envelope : Envelope ObjectId) (current : Option ObjectId) (sequence : Nat) :
    commitVerdict git ssh (claimCommit git (signing.writer committer) envelope current sequence)
      published none = .verified := by
  have shipped : published.format = SSH_ED25519 := by
    have passed := honest [] published format publicKey
    exact (sshEd25519_verified ssh _ _ _ passed).1
  have covered := signedBytes_rawCommit embeds
    { claimCommit git (signing.writer committer) envelope current sequence with signature := none }
  simp only [commitVerdict, verifierFor, shipped, if_true, claimCommit, SigningKey.writer, Option.map_some,
    HOrElse.hOrElse, OrElse.orElse, Option.orElse] at covered ⊢
  rw [covered]
  exact honest _ published format publicKey

/-! The key a run names. -/

/-- Nothing but key claims, from the newest of these entries down to the root, each
accepted under the key before it. -/
def Unbroken (ssh : SshKey) (s : Store git) (entries : List (Claim ObjectId)) : Prop :=
  ∃ links, List.Forall₂ (IsLink s) entries.reverse links ∧
    ∀ i, i + 1 < links.length → RotationVerdict ssh s none links i .verified

theorem key_of_unbroken (ssh : SshKey) (s : Store git) (target : Target ObjectId)
    (newer older : List (Claim ObjectId)) (entry : Claim ObjectId) (own : AttestKey)
    (read : log s target = .ok (newer ++ entry :: older)) (home : entry.envelope.target = target)
    (document : keyDocument s entry.id entry.envelope = .ok own)
    (unbroken : Unbroken ssh s (entry :: older)) : key ssh s entry.id = .ok (some own) := by
  obtain ⟨links, linked, passed⟩ := unbroken
  have found := (log_mem s target _ read entry (by simp)).1
  have custody : Custody s entry.id links :=
    ⟨entry.envelope, newer, entry, older, found, by rw [home, read], rfl, linked⟩
  have newest : List.Forall₂ (IsLink s) (entry :: older) links.reverse := by
    have turned := List.rel_reverse linked
    rwa [List.reverse_reverse] at turned
  obtain ⟨last, rest, is_link, _, shape⟩ := List.forall₂_cons_left_iff.mp newest
  have tip : links.getLast? = some last := by
    rw [← List.head?_reverse, shape]
    rfl
  rw [key_eq_some_iff, resolveKeyWith_key_iff ssh s none entry.id links custody, tip]
  have same := is_link.2
  rw [document] at same
  exact ⟨passed, by rw [Option.map_some, Except.ok.inj same]⟩

/-- Reading the document back under its own content id gives that document. -/
theorem keyDocument_payload (s : Store git) (claim : ObjectId) (envelope : Envelope ObjectId)
    (own read : AttestKey) (payload : envelope.payload = git.objectId (.key own))
    (document : keyDocument s claim envelope = .ok read) : read = own := by
  have found := ((keyDocument_ok s claim envelope read).mp document).2.2
  have address := ContentStore.find_address s.objects _ _ found
  rw [payload] at address
  have objects := git.objectId_injective address
  simpa using objects

/-- Without `--key`, an unbroken chain under the claim a run names makes it the run's key. -/
theorem keyClaim_default (repo : Repository ObjectId) (ssh : SshKey) (s t : Store git)
    (trace : List (Store git × Performed ObjectId)) (run : Run Unclaimed Step trace s)
    (committer : String) (signing : SigningKey) (machine : Bool) (id : ObjectId)
    (ok : keyClaim repo ssh s committer signing none machine = .ok (id, t)) :
    ∃ own newer entry older,
      (AttestKey.fromOpenssh ssh signing.publicLine machine : Result ObjectId AttestKey) = .ok own ∧
      log t (keyTarget git own) = .ok (newer ++ entry :: older) ∧ entry.id = id ∧
      (Unbroken ssh t (entry :: older) → key ssh t id = .ok (some own)) := by
  rw [keyClaim, succeeded_eq_ok, runKeyClaim_eq_ok] at ok
  rcases ok with ⟨found, rfl⟩ | ⟨own, found, published⟩
  · obtain ⟨own, claims, parsed, read, chosen⟩ := (findKeyClaim_default repo ssh t signing machine _).mp found
    split at chosen
    · next entry existing =>
      obtain rfl := (KeyFound.claim.inj chosen).symm
      obtain ⟨member, matched⟩ := List.mem_filter.mp (List.mem_of_getLast? existing)
      obtain ⟨newer, older, rfl⟩ := List.append_of_mem member
      refine ⟨own, newer, entry, older, parsed, read, rfl, ?_⟩
      intro unbroken
      obtain ⟨value, document⟩ : ∃ value, keyDocument t entry.id entry.envelope = .ok value := by
        obtain ⟨links, linked, _⟩ := unbroken
        exact keys_of_links t _ links linked entry (by simp)
      have home : entry.envelope.target = keyTarget git own := by
        rcases placed_run t trace run _ _ read entry member with own_chain | foreign
        · exact own_chain
        · have labels := ((keyDocument_ok t _ _ value).mp document).1
          simp [isRevocation, labels, KEY_KIND, REVOCATION_KIND] at foreign
      have same := keyDocument_payload t _ _ own value (by simpa using matched) document
      subst same
      exact key_of_unbroken ssh t _ newer older entry value read home document unbroken
    · cases chosen
  · obtain ⟨_, parsed, claims, read, _⟩ := findKeyClaim_unpublished repo ssh s signing none machine own found
    obtain ⟨envelope, key, same, home, document, landing⟩ := landed_key s t
      ⟨signing.writer committer, .addKey own, id⟩ (keyTarget git own) published rfl
    obtain rfl := Option.some.inj same
    refine ⟨own, [], ⟨id, envelope, none⟩, claims, parsed, landing.here claims read, rfl, ?_⟩
    exact key_of_unbroken ssh t _ [] claims ⟨id, envelope, none⟩ own (landing.here claims read) home document

/-- Where the key named is the key that signs, the claim `sign` writes verifies. -/
theorem cmdSign_verified (repo : Repository ObjectId) (ssh : SshKey) (s t u : Store git)
    (committer : String) (signing : SigningKey) (args : SignArgs ObjectId) (id claim : ObjectId)
    (embeds : Embeds git) (own published : AttestKey) (honest : SignsFor ssh signing.sign own)
    (named : keyClaim repo ssh s committer signing args.key args.machine = .ok (id, t))
    (resolved : key ssh t id = .ok (some published)) (format : published.format = own.format)
    (publicKey : published.publicKey = own.publicKey)
    (ok : cmdSign repo ssh s committer signing args = .ok (claim, u)) :
    ∃ envelope, envelopeAt u claim = .ok envelope ∧ envelope.key = id ∧
      verify ssh u ⟨claim, envelope, none⟩ = .ok .verified := by
  rw [keyClaim, succeeded_eq_ok] at named
  rw [cmdSign, succeeded_eq_ok, appending_eq_ok] at ok
  obtain ⟨_, _, call, named', read, appended⟩ := ok
  rw [named] at named'
  obtain ⟨⟨⟩, rfl⟩ := Prod.mk.inj named'
  simp only [signCall, Result.bind_eq_ok, Result.pure_eq_ok] at read
  obtain ⟨payload, _, on, _, rfl⟩ := read
  change sign t (signing.writer committer) _ = .ok (claim, u) at appended
  have landing := append_ok _ _ _ _ _ _ appended
  refine ⟨_, landing.envelopeAt_self, rfl, ?_⟩
  have later := key_grows ssh t u landing.grows id _ resolved
  rw [key_eq_some_iff] at later
  obtain ⟨sequence, found⟩ := landing.find_self
  unfold verify verifyDispatched
  simp only [later, Result.ok_bind]
  rw [verifyCommit_of_find ssh u claim _ published none found,
    commitVerdict_signed embeds ssh committer signing own published honest format publicKey]

/-- What the signing path promises. With `--key`, the claim given is a key claim on a chain
that resolves, whatever key that yields: which link to name is the user's to know. Without
it, the claim named resolves to the run's key wherever the chain under it is unbroken. And
a claim signed under a claim that resolves to the run's key verifies. -/
theorem signing_path (repo : Repository ObjectId) (ssh : SshKey) (s t : Store git)
    (trace : List (Store git × Performed ObjectId)) (run : Run Unclaimed Step trace s)
    (committer : String) (signing : SigningKey) (given : Option String) (machine : Bool) (id : ObjectId)
    (ok : keyClaim repo ssh s committer signing given machine = .ok (id, t)) :
    (∀ hex, given = some hex → t = s ∧ ∃ value, key ssh t id = .ok value) ∧
    (given = none → ∃ own newer entry older,
      (AttestKey.fromOpenssh ssh signing.publicLine machine : Result ObjectId AttestKey) = .ok own ∧
      log t (keyTarget git own) = .ok (newer ++ entry :: older) ∧ entry.id = id ∧
      (Unbroken ssh t (entry :: older) → key ssh t id = .ok (some own))) ∧
    (Embeds git → ∀ own, SignsFor ssh signing.sign own → ∀ published,
      key ssh t id = .ok (some published) → published.format = own.format →
      published.publicKey = own.publicKey → ∀ args claim u, args.key = given → args.machine = machine →
      cmdSign repo ssh s committer signing args = .ok (claim, u) →
      ∃ envelope, envelopeAt u claim = .ok envelope ∧ envelope.key = id ∧
        verify ssh u ⟨claim, envelope, none⟩ = .ok .verified) := by
  refine ⟨?_, ?_, ?_⟩
  · rintro hex rfl
    rw [keyClaim, succeeded_eq_ok, runKeyClaim_eq_ok] at ok
    rcases ok with ⟨found, rfl⟩ | ⟨own, found, _⟩
    · obtain ⟨claim, value, _, resolved, same⟩ := (findKeyClaim_given repo ssh t signing hex machine _).mp found
      obtain rfl := KeyFound.claim.inj same
      exact ⟨rfl, value, resolved⟩
    · obtain ⟨_, _, _, _, same⟩ := (findKeyClaim_given repo ssh s signing hex machine _).mp found
      cases same
  · rintro rfl
    exact keyClaim_default repo ssh s t trace run committer signing machine id ok
  · intro embeds own honest published resolved format publicKey args claim u rfl rfl signed
    exact cmdSign_verified repo ssh s t u committer signing args id claim embeds own published honest ok
      resolved format publicKey signed

section Sample

theorem digestGit_layout (commit : Commit Digest) :
    SignedBytes.headerGroups (digestCommit { commit with signature := none }) = [[treeLine commit]] ∧
      SignedBytes.bodyLines (digestCommit { commit with signature := none }) =
        [SignedBytes.NEWLINE] :: Lines.lines SignedBytes.NEWLINE (textBytes commit.summary) := by
  have inside : SignedBytes.NEWLINE ∉ [116, 114, 101, 101, 32] ++
      textBytes (toString (repr (Digest.ofCommit { commit with signature := none }))) := by
    simp [textBytes, SignedBytes.NEWLINE]
  have opening : SignedBytes.startsWithSpace (treeLine commit) = false := by
    simp [treeLine, SignedBytes.startsWithSpace, SignedBytes.SPACE, List.isPrefixOf]
  apply SignedBytes.groups_of_layout
  · exact Blocks.blocks_block _ [treeLine commit] (by simp) (by simp)
  · simp [treeLine, SignedBytes.isHeader]
  · simp [SignedBytes.isHeader]
  · have first := Lines.lines_prefix SignedBytes.NEWLINE _ _ [SignedBytes.NEWLINE] _ inside
      (Lines.lines_terminator SignedBytes.NEWLINE (SignedBytes.NEWLINE :: textBytes commit.summary))
    rw [Lines.lines_terminator] at first
    simpa [digestCommit, treeLine] using first

theorem embeds_digestGit : Embeds digestGit := by
  intro commit signature
  obtain ⟨groups, body⟩ := digestGit_layout commit
  change (∀ group ∈ SignedBytes.headerGroups (digestCommit { commit with signature := none }), _) ∧ _
  constructor
  · rw [groups]
    simp [SignedBytes.opensGpgsig, treeLine, SignedBytes.GPGSIG, List.isPrefixOf]
  · refine ⟨[[treeLine commit]], [], ⟨groups, by simp, ?_⟩, ?_⟩
    · intro _ empty
      change SignedBytes.body (digestCommit { commit with signature := none }) = [] at empty
      simp [SignedBytes.body, body] at empty
    · change digestCommit { commit with signature := some signature } = _ ++ SignedBytes.body
        (digestCommit { commit with signature := none })
      rw [SignedBytes.body, body]
      simp [digestCommit, treeLine, Lines.lines_flatten]

/-- The repository in which `a11ce` abbreviates Alice's key claim. -/
def abbreviating : Repository Digest :=
  { fromHex := fun _ => none
    revParseSingle := fun text => if text = "a11ce" then some rooted.1 else none }

def signingKey (line : String) (publicKey : Bytes) : SigningKey :=
  { publicLine := line, sign := fun _ => (blockOf publicKey).toByteArray.toList }

theorem signsFor_alice : SignsFor namedSsh (signingKey "1" [49]).sign aliceKey := by
  intro signed published format publicKey
  have armor : utf8 ((blockOf [49]).toByteArray.toList) = some (blockOf [49]) := by decide +kernel
  have opening : opensArmor (blockOf [49]) = true := by decide +kernel
  change published.format = SSH_ED25519 at format
  change published.publicKey = [49] at publicKey
  simp [sshEd25519, format, publicKey, signingKey, armor, opening, namedSsh]

def alicePair : SigningKey := signingKey "1" [49]
def bobPair : SigningKey := signingKey "2" [50]

def noteArgs (key : Option String) : SignArgs Digest :=
  { target := { kind := "doc", id := "a11ce" }
    payload := .tree "a11ce"
    kind := "note"
    key := key
    machine := false }

/-- The key claim Alice's run finds, and the note it signs under it. -/
def aliceNamed : Digest × Store digestGit :=
  outcome (keyClaim abbreviating namedSsh rooted.2 "alice" alicePair none false)
def aliceSigned : Digest × Store digestGit :=
  outcome (cmdSign abbreviating namedSsh rooted.2 "alice" alicePair (noteArgs none))

theorem signing_path_alice : key namedSsh aliceNamed.2 aliceNamed.1 = .ok (some aliceKey) ∧
    ∃ envelope, envelopeAt aliceSigned.2 aliceSigned.1 = .ok envelope ∧
      envelope.key = aliceNamed.1 ∧ verify namedSsh aliceSigned.2 ⟨aliceSigned.1, envelope, none⟩ = .ok .verified := by
  have promised := signing_path abbreviating namedSsh rooted.2 aliceNamed.2 _ rooted_run "alice" alicePair
    none false aliceNamed.1 (eq_outcome _ (by decide +kernel))
  obtain ⟨own, newer, entry, older, parsed, read, here, resolves⟩ := promised.2.1 rfl
  have line : (AttestKey.fromOpenssh namedSsh alicePair.publicLine false : Result Digest AttestKey) =
      .ok aliceKey := by decide +kernel
  rw [line] at parsed
  obtain rfl := Except.ok.inj parsed
  have chain : log aliceNamed.2 (keyTarget digestGit aliceKey) =
      .ok [⟨rooted.1, addEnvelope digestGit aliceKey, none⟩] := by decide +kernel
  rw [chain] at read
  have whole := Except.ok.inj read
  have root : key namedSsh aliceNamed.2 aliceNamed.1 = .ok (some aliceKey) := by
    apply resolves
    have single := List.append_eq_singleton_iff.mp whole.symm
    rcases single with ⟨_, entries⟩ | ⟨_, none⟩
    · rw [entries]
      refine ⟨[⟨rooted.1, aliceKey⟩], .cons ⟨rfl, by decide +kernel⟩ .nil, ?_⟩
      intro i bound
      simp at bound
    · cases none
  refine ⟨root, ?_⟩
  exact promised.2.2 embeds_digestGit aliceKey signsFor_alice aliceKey root rfl rfl (noteArgs none)
    aliceSigned.1 aliceSigned.2 rfl rfl (eq_outcome _ (by decide +kernel))

/-- Bob's run with `--key` naming Alice's claim. -/
def bobNamed : Digest × Store digestGit :=
  outcome (keyClaim abbreviating namedSsh rooted.2 "bob" bobPair (some "a11ce") false)

/-- It is accepted, and does not publish the key that signs. -/
theorem signing_path_any_key : ¬ ∀ (trace : List (Store digestGit × Performed Digest))
    (s t : Store digestGit), Run Unclaimed Step trace s → ∀ committer signing given machine id,
    keyClaim abbreviating namedSsh s committer signing given machine = .ok (id, t) →
    ∃ published own, key namedSsh t id = .ok (some published) ∧
      (AttestKey.fromOpenssh namedSsh signing.publicLine machine : Result Digest AttestKey) = .ok own ∧
      published.format = own.format ∧ published.publicKey = own.publicKey := by
  intro always
  obtain ⟨published, own, resolved, parsed, _, publicKeys⟩ := always _ rooted.2 bobNamed.2 rooted_run
    "bob" bobPair (some "a11ce") false bobNamed.1 (eq_outcome _ (by decide +kernel))
  have alices : key namedSsh bobNamed.2 bobNamed.1 = .ok (some aliceKey) := by decide +kernel
  have bobs : (AttestKey.fromOpenssh namedSsh bobPair.publicLine false : Result Digest AttestKey) =
      .ok bobKey := by decide +kernel
  rw [alices] at resolved
  rw [bobs] at parsed
  obtain rfl := Option.some.inj (Except.ok.inj resolved)
  obtain rfl := Except.ok.inj parsed
  cases publicKeys

end Sample

end GitAnchor.Attest
