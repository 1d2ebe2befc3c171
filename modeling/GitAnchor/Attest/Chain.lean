import GitAnchor.Attest.Store

/-! Claims as chained commits on claim refs: appending, revoking, reading a chain back
and applying its revocations. -/

namespace GitAnchor.Attest
open GitAnchor.Foundation

structure Claim (ObjectId : Type) where
  id : ObjectId
  envelope : Envelope ObjectId
  revokedBy : Option ObjectId
  deriving DecidableEq, Repr

variable {ObjectId : Type}

def isRevocation (envelope : Envelope ObjectId) : Bool :=
  envelope.target.kind = CLAIM_TARGET_KIND && envelope.payloadKind = REVOCATION_KIND

def summaryOf (envelope : Envelope ObjectId) : String :=
  "claim " ++ envelope.payloadKind

/-- The entity name a target's claims are stored under: its target key. -/
def Git.entityName (git : Git ObjectId) (target : Target ObjectId) : ObjectId :=
  targetKey git.toNormalFormHash target

theorem Git.entityName_injective (git : Git ObjectId) : Function.Injective git.entityName :=
  targetKey_injective git.toNormalFormHash

/-- The commit one iteration of the loop publishes. The signer sees the commit as it
stands before it carries a signature. -/
def claimCommit (git : Git ObjectId) (writer : Writer) (envelope : Envelope ObjectId)
    (current : Option ObjectId) (sequence : Nat) : Commit ObjectId :=
  let unsigned : Commit ObjectId :=
    { document := .envelope (StoredEnvelope.new envelope sequence)
      parents := current.toList
      summary := summaryOf envelope
      committer := writer.committer
      signature := none }
  { unsigned with signature := writer.signer.map (fun sign => sign (git.rawCommit unsigned)) }

@[simp] theorem claimCommit_parents (git : Git ObjectId) (writer : Writer) (envelope : Envelope ObjectId)
    (current : Option ObjectId) (sequence : Nat) :
    (claimCommit git writer envelope current sequence).parents = current.toList := rfl

variable [DecidableEq ObjectId] {git : Git ObjectId}

/-- The sequence an iteration stores: the length of the history when there is a tip. -/
def readSequence (s : Store git) (name : ObjectId) (current : Option ObjectId) : Result ObjectId Nat :=
  match current with
  | some _ => do return (← s.history name).length
  | none => return 0

/-- One uninterrupted iteration of the loop: nobody moves the ref between the read of
the tip and the publication. The interleaved loop is `advance`. -/
def append (s : Store git) (writer : Writer) (on : Target ObjectId) (envelope : Envelope ObjectId) :
    Result ObjectId (ObjectId × Store git) := do
  let name := git.entityName on
  let current ← s.readRef name
  let sequence ← readSequence s name current
  match s.publishPrepared name current (claimCommit git writer envelope current sequence) rfl with
  | .ok publication => return publication
  | .error source => throw (.store source)

def sign (s : Store git) (writer : Writer) (envelope : Envelope ObjectId) :
    Result ObjectId (ObjectId × Store git) :=
  append s writer envelope.target envelope

/-- The envelope of the claim `claim`, read out of that commit's own tree. -/
def envelopeAt (s : Store git) (claim : ObjectId) : Result ObjectId (Envelope ObjectId) := do
  match ← s.readCommit claim with
  | some stored => return stored.intoEnvelope
  | none => throw (.missingClaim claim)

def revocationEnvelope (git : Git ObjectId) (claim key : ObjectId) : Envelope ObjectId :=
  { target := { kind := CLAIM_TARGET_KIND, id := claim }
    payload := git.emptyTree
    payloadKind := REVOCATION_KIND
    key := key }

/-- A revocation and the target it is appended on: the *revoked* claim's target. -/
def revocation (s : Store git) (claim key : ObjectId) :
    Result ObjectId (Target ObjectId × Envelope ObjectId) := do
  let revoked ← envelopeAt s claim
  return (revoked.target, revocationEnvelope git claim key)

def revoke (s : Store git) (writer : Writer) (claim key : ObjectId) :
    Result ObjectId (ObjectId × Store git) := do
  let (on, envelope) ← revocation s claim key
  append s writer on envelope

def readClaims (s : Store git) : List ObjectId → Result ObjectId (List (Claim ObjectId))
  | [] => return []
  | id :: older => do
      let envelope ← envelopeAt s id
      let claims ← readClaims s older
      return { id := id, envelope := envelope, revokedBy := none } :: claims

/-- The chain of claims on `target`, newest first, as written. -/
def log (s : Store git) (target : Target ObjectId) : Result ObjectId (List (Claim ObjectId)) := do
  let ids ← s.history (git.entityName target)
  readClaims s ids

/-- The first revocation seen for a claim is the newest, and stays. -/
def mark (revoked revocation : ObjectId) (claim : Claim ObjectId) : Claim ObjectId :=
  if claim.id = revoked then
    { claim with revokedBy := claim.revokedBy <|> some revocation }
  else claim

def applyRevocations (claims : List (Claim ObjectId)) (revocations : List (ObjectId × ObjectId)) :
    List (Claim ObjectId) :=
  revocations.foldl (fun marked entry => marked.map (mark entry.1 entry.2)) claims

/-- What the revocations of a chain name, paired with the revocation, newest first. -/
def revocationsOf (claims : List (Claim ObjectId)) : List (ObjectId × ObjectId) :=
  (claims.filter (fun claim => isRevocation claim.envelope)).map
    (fun claim => (claim.envelope.target.id, claim.id))

/-- The log with revocations applied structurally: marked, not deleted. -/
def resolve (s : Store git) (target : Target ObjectId) : Result ObjectId (List (Claim ObjectId)) := do
  let claims ← log s target
  return applyRevocations claims (revocationsOf claims)

/-! Reading claims back. -/

theorem envelopeAt_ok (s : Store git) (claim : ObjectId) (envelope : Envelope ObjectId)
    (read : envelopeAt s claim = .ok envelope) :
    ∃ commit stored, s.find claim = some (.commit commit) ∧
      commit.document = .envelope stored ∧ stored.intoEnvelope = envelope := by
  unfold envelopeAt Store.readCommit at read
  cases found : s.find claim with
  | none => simp [found, Result.ok_bind, Result.throw_ne_ok] at read
  | some object =>
    cases object with
    | key document => simp [found, Result.error_bind] at read
    | commit commit =>
      cases document : commit.document with
      | other tree => simp [found, document, Result.error_bind] at read
      | envelope stored =>
        simp only [found, document, Result.ok_bind, Result.pure_eq_ok] at read
        exact ⟨commit, stored, rfl, document, read⟩

theorem envelopeAt_of_find (s : Store git) (claim : ObjectId) (commit : Commit ObjectId)
    (stored : StoredEnvelope ObjectId) (found : s.find claim = some (.commit commit))
    (document : commit.document = .envelope stored) :
    envelopeAt s claim = .ok stored.intoEnvelope := by
  unfold envelopeAt Store.readCommit
  simp only [found, document]
  rfl

theorem envelopeAt_extends (s t : Store git) (extended : s.Extends t) (claim : ObjectId)
    (envelope : Envelope ObjectId) (read : envelopeAt s claim = .ok envelope) :
    envelopeAt t claim = .ok envelope := by
  obtain ⟨commit, stored, found, document, rfl⟩ := envelopeAt_ok s claim envelope read
  exact envelopeAt_of_find t claim commit stored (extended.find _ _ found) document

theorem readClaims_cons (s : Store git) (id : ObjectId) (older : List ObjectId)
    (claims : List (Claim ObjectId)) :
    readClaims s (id :: older) = .ok claims ↔ ∃ envelope rest, envelopeAt s id = .ok envelope ∧
      readClaims s older = .ok rest ∧ claims = ⟨id, envelope, none⟩ :: rest := by
  simp only [readClaims, Result.bind_eq_ok, Result.pure_eq_ok]
  constructor
  · rintro ⟨envelope, read, rest, others, rfl⟩
    exact ⟨envelope, rest, read, others, rfl⟩
  · rintro ⟨envelope, rest, read, others, rfl⟩
    exact ⟨envelope, read, rest, others, rfl⟩

theorem readClaims_ids (s : Store git) (ids : List ObjectId) (claims : List (Claim ObjectId))
    (read : readClaims s ids = .ok claims) : claims.map Claim.id = ids := by
  induction ids generalizing claims with
  | nil =>
    simp only [readClaims, Result.pure_eq_ok] at read
    subst read
    rfl
  | cons id older ih =>
    obtain ⟨envelope, rest, _, others, rfl⟩ := (readClaims_cons s id older claims).mp read
    simp only [List.map_cons, ih rest others]

theorem readClaims_mem (s : Store git) (ids : List ObjectId) (claims : List (Claim ObjectId))
    (read : readClaims s ids = .ok claims) (claim : Claim ObjectId) (member : claim ∈ claims) :
    envelopeAt s claim.id = .ok claim.envelope ∧ claim.revokedBy = none := by
  induction ids generalizing claims with
  | nil =>
    simp only [readClaims, Result.pure_eq_ok] at read
    subst read
    simp at member
  | cons id older ih =>
    obtain ⟨envelope, rest, first, others, rfl⟩ := (readClaims_cons s id older claims).mp read
    rcases List.mem_cons.mp member with same | later
    · subst same
      exact ⟨first, rfl⟩
    · exact ih rest others later

theorem readClaims_extends (s t : Store git) (extended : s.Extends t) (ids : List ObjectId)
    (claims : List (Claim ObjectId)) (read : readClaims s ids = .ok claims) :
    readClaims t ids = .ok claims := by
  induction ids generalizing claims with
  | nil => exact read
  | cons id older ih =>
    obtain ⟨envelope, rest, first, others, rfl⟩ := (readClaims_cons s id older claims).mp read
    exact (readClaims_cons t id older _).mpr
      ⟨envelope, rest, envelopeAt_extends s t extended id envelope first, ih rest others, rfl⟩

theorem log_ok (s : Store git) (target : Target ObjectId) (claims : List (Claim ObjectId)) :
    log s target = .ok claims ↔
      ∃ ids, s.history (git.entityName target) = .ok ids ∧ readClaims s ids = .ok claims := by
  simp only [log, Result.bind_eq_ok]

theorem log_mem (s : Store git) (target : Target ObjectId) (claims : List (Claim ObjectId))
    (read : log s target = .ok claims) (claim : Claim ObjectId) (member : claim ∈ claims) :
    envelopeAt s claim.id = .ok claim.envelope ∧ claim.revokedBy = none := by
  obtain ⟨ids, _, others⟩ := (log_ok s target claims).mp read
  exact readClaims_mem s ids claims others claim member

/-- No claim is listed twice. -/
theorem log_nodup (s : Store git) (target : Target ObjectId) (claims : List (Claim ObjectId))
    (read : log s target = .ok claims) : (claims.map Claim.id).Nodup := by
  obtain ⟨ids, walked, others⟩ := (log_ok s target claims).mp read
  rw [readClaims_ids s ids claims others]
  exact s.history_nodup _ ids walked

/-- What a log reads back, every later log still ends with. -/
structure Grows (s t : Store git) : Prop where
  extended : s.Extends t
  log : ∀ target claims, log s target = .ok claims → ∃ newer, log t target = .ok (newer ++ claims)

theorem Grows.refl (s : Store git) : Grows s s :=
  ⟨.refl s, fun _ _ read => ⟨[], read⟩⟩

theorem Grows.trans {s t u : Store git} (first : Grows s t) (second : Grows t u) : Grows s u := by
  refine ⟨first.extended.trans second.extended, ?_⟩
  intro target claims read
  obtain ⟨newer, middle⟩ := first.log target claims read
  obtain ⟨newest, last⟩ := second.log target _ middle
  exact ⟨newest ++ newer, by rw [last, List.append_assoc]⟩

theorem log_writeObject (s : Store git) (object : Object ObjectId) (target : Target ObjectId)
    (claims : List (Claim ObjectId)) (read : log s target = .ok claims) :
    log (s.writeObject object) target = .ok claims := by
  obtain ⟨ids, walked, others⟩ := (log_ok s target claims).mp read
  exact (log_ok _ target claims).mpr ⟨ids, s.history_writeObject object _ ids walked,
    readClaims_extends s _ (s.extends_writeObject object) ids claims others⟩

theorem grows_writeObject (s : Store git) (object : Object ObjectId) : Grows s (s.writeObject object) :=
  ⟨s.extends_writeObject object,
    fun target claims read => ⟨[], log_writeObject s object target claims read⟩⟩

/-! Appending. -/

/-- Everything a successful append does: it publishes one commit carrying the envelope
on top of the tip it read, with the length of the history it read as its sequence. -/
structure Appended (s : Store git) (writer : Writer) (on : Target ObjectId) (envelope : Envelope ObjectId)
    (id : ObjectId) (t : Store git) : Prop where
  published : ∃ sequence,
    readSequence s (git.entityName on) (s.refs (git.entityName on)) = .ok sequence ∧
    id = git.commitId (claimCommit git writer envelope (s.refs (git.entityName on)) sequence) ∧
    s.Published (git.entityName on)
      (claimCommit git writer envelope (s.refs (git.entityName on)) sequence) t

theorem readRef_ok (s : Store git) (name : ObjectId) (current : Option ObjectId)
    (read : s.readRef name = .ok current) : current = s.refs name := by
  unfold Store.readRef at read
  cases named : s.refs name with
  | none =>
    simp only [named, Except.ok.injEq] at read
    exact read.symm
  | some tip =>
    simp only [named, Result.bind_eq_ok] at read
    obtain ⟨decoded, _, returned⟩ := read
    cases decoded with
    | none => simp [Result.throw_ne_ok] at returned
    | some stored =>
      simp only [Result.pure_eq_ok] at returned
      exact returned.symm

theorem append_ok (s t : Store git) (writer : Writer) (on : Target ObjectId)
    (envelope : Envelope ObjectId) (id : ObjectId)
    (ok : append s writer on envelope = .ok (id, t)) : Appended s writer on envelope id t := by
  simp only [append, Result.bind_eq_ok] at ok
  obtain ⟨current, read, sequence, counted, finished⟩ := ok
  have same := readRef_ok s _ current read
  subst same
  cases outcome : s.publishPrepared (git.entityName on) (s.refs (git.entityName on))
      (claimCommit git writer envelope (s.refs (git.entityName on)) sequence) rfl with
  | error source => simp [outcome, Result.throw_ne_ok] at finished
  | ok publication =>
    simp only [outcome, Result.pure_eq_ok] at finished
    subst finished
    obtain ⟨_, named, published⟩ := s.publishPrepared_ok t _ id _ _ _ outcome
    exact ⟨sequence, counted, named, published⟩

namespace Appended
variable {s t : Store git} {writer : Writer} {on : Target ObjectId} {envelope : Envelope ObjectId}
  {id : ObjectId}

theorem extends_store (appended : Appended s writer on envelope id t) : s.Extends t := by
  obtain ⟨_, _, _, published⟩ := appended.published
  exact published.extends_store

theorem find_self (appended : Appended s writer on envelope id t) :
    ∃ sequence, t.find id =
      some (.commit (claimCommit git writer envelope (s.refs (git.entityName on)) sequence)) := by
  obtain ⟨sequence, _, rfl, published⟩ := appended.published
  exact ⟨sequence, published.find_self⟩

theorem envelopeAt_self (appended : Appended s writer on envelope id t) :
    envelopeAt t id = .ok envelope := by
  obtain ⟨sequence, found⟩ := appended.find_self
  exact envelopeAt_of_find t id _ _ found rfl

theorem history_self (appended : Appended s writer on envelope id t) (ids : List ObjectId)
    (read : s.history (git.entityName on) = .ok ids) :
    t.history (git.entityName on) = .ok (id :: ids) := by
  obtain ⟨_, _, rfl, published⟩ := appended.published
  exact published.history_self ids read

theorem history_other (appended : Appended s writer on envelope id t) (target : Target ObjectId)
    (different : target ≠ on) (ids : List ObjectId)
    (read : s.history (git.entityName target) = .ok ids) :
    t.history (git.entityName target) = .ok ids := by
  obtain ⟨_, _, _, published⟩ := appended.published
  exact published.history_other _ (fun same => different (git.entityName_injective same)) ids read

/-- The new claim is on top of the chain it was appended to. -/
theorem log_self (appended : Appended s writer on envelope id t) (claims : List (Claim ObjectId))
    (read : log s on = .ok claims) : log t on = .ok (⟨id, envelope, none⟩ :: claims) := by
  obtain ⟨ids, walked, others⟩ := (log_ok s on claims).mp read
  refine (log_ok t on _).mpr ⟨id :: ids, appended.history_self ids walked, ?_⟩
  exact (readClaims_cons t id ids _).mpr ⟨envelope, claims, appended.envelopeAt_self,
    readClaims_extends s t appended.extends_store ids claims others, rfl⟩

/-- No other chain changes. -/
theorem log_other (appended : Appended s writer on envelope id t) (target : Target ObjectId)
    (different : target ≠ on) (claims : List (Claim ObjectId)) (read : log s target = .ok claims) :
    log t target = .ok claims := by
  obtain ⟨ids, walked, others⟩ := (log_ok s target claims).mp read
  exact (log_ok t target claims).mpr ⟨ids, appended.history_other target different ids walked,
    readClaims_extends s t appended.extends_store ids claims others⟩

theorem grows (appended : Appended s writer on envelope id t) : Grows s t := by
  refine ⟨appended.extends_store, ?_⟩
  intro target claims read
  by_cases same : target = on
  · subst same
    exact ⟨[⟨id, envelope, none⟩], appended.log_self claims read⟩
  · exact ⟨[], appended.log_other target same claims read⟩

end Appended

end GitAnchor.Attest
