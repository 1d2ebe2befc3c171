import GitAnchor.Attest.Verify

/-! Key lifecycle: publishing and rotating keys, the chain of links from its root up to
a key claim, and the resolution that checks every rotation on the way. -/

namespace GitAnchor.Attest
open GitAnchor.Foundation GitAnchor.Substrate

/-- One link of a key chain: the claim that published a key, and the key. -/
structure Link (ObjectId : Type) where
  claim : ObjectId
  key : AttestKey
  deriving DecidableEq, Repr

inductive Resolved where
  | key (value : AttestKey)
  | rejected (verdict : Verdict)
  deriving DecidableEq, Repr

variable {ObjectId : Type} [DecidableEq ObjectId] {git : Git ObjectId}

def AttestKey.fromOpenssh (ssh : SshKey) (openssh : String) (machine : Bool) : Result ObjectId AttestKey :=
  match ssh.fromOpenssh openssh with
  | .error reason => .error (.keyMaterial reason)
  | .ok publicKey =>
      match ssh.toBytes publicKey with
      | .error reason => .error (.keyMaterial reason)
      | .ok bytes => .ok { format := ssh.algorithm publicKey, publicKey := bytes, machine := machine }

/-- The key document a key claim's envelope points at. -/
def keyDocument (s : Store git) (claim : ObjectId) (envelope : Envelope ObjectId) :
    Result ObjectId AttestKey :=
  if envelope.payloadKind ≠ KEY_KIND ∨ envelope.target.kind ≠ KEY_TARGET_KIND then
    .error (.notAKeyClaim claim envelope.payloadKind)
  else match s.find envelope.payload with
    | none => .error (.store (.missing envelope.payload))
    | some (.commit _) => .error (.store (.decode envelope.payload))
    | some (.key key) => .ok key

def keyEnvelope (s : Store git) (claim : ObjectId) : Result ObjectId (Envelope ObjectId) := do
  let envelope ← envelopeAt s claim
  let _ ← keyDocument s claim envelope
  return envelope

/-- The content id of a key document; writing it again changes nothing. -/
def writeKey (s : Store git) (key : AttestKey) : ObjectId × Store git :=
  (git.objectId (.key key), s.writeObject (.key key))

def keyTarget (git : Git ObjectId) (key : AttestKey) : Target ObjectId :=
  { kind := KEY_TARGET_KIND, id := git.objectId (.key key) }

/-- A chain's root names no predecessor: its key is the null id. -/
def addEnvelope (git : Git ObjectId) (key : AttestKey) : Envelope ObjectId :=
  { target := keyTarget git key
    payload := git.objectId (.key key)
    payloadKind := KEY_KIND
    key := git.nullId }

def rotationEnvelope (git : Git ObjectId) (target : Target ObjectId) (previous : ObjectId)
    (key : AttestKey) : Envelope ObjectId :=
  { target := target
    payload := git.objectId (.key key)
    payloadKind := KEY_KIND
    key := previous }

def addKey (s : Store git) (writer : Writer) (key : AttestKey) : Result ObjectId (ObjectId × Store git) :=
  append (writeKey s key).2 writer (keyTarget git key) (addEnvelope git key)

def rotateKey (s : Store git) (writer : Writer) (previous : ObjectId) (key : AttestKey) :
    Result ObjectId (ObjectId × Store git) := do
  let envelope ← keyEnvelope s previous
  append (writeKey s key).2 writer envelope.target (rotationEnvelope git envelope.target previous key)

/-- The loop of `key_chain`: from the entry named `claim` on, every entry is a link. -/
def keyLinks (s : Store git) (claim : ObjectId) (seen : Bool) :
    List (Claim ObjectId) → Result ObjectId (Bool × List (Link ObjectId))
  | [] => return (seen, [])
  | entry :: older => do
      let seen := seen || entry.id = claim
      if seen then
        let key ← keyDocument s entry.id entry.envelope
        let (seen, links) ← keyLinks s claim seen older
        return (seen, { claim := entry.id, key := key } :: links)
      else keyLinks s claim seen older

/-- The chain of key links from its root up to and including `claim`, oldest first. -/
def keyChain (s : Store git) (claim : ObjectId) : Result ObjectId (List (Link ObjectId)) := do
  let envelope ← keyEnvelope s claim
  let chain ← log s envelope.target
  let (seen, links) ← keyLinks s claim false chain
  if seen then return links.reverse else throw (.claimOffChain claim)

/-- The first rotation, from the root up, that its predecessor's key does not verify. -/
def checkRotations (ssh : SshKey) (s : Store git) (verifier : Option Verifier) :
    List (Link ObjectId) → Result ObjectId (Option Verdict)
  | previous :: rotation :: rest => do
      match ← verifyCommit ssh s rotation.claim previous.key verifier with
      | .verified => checkRotations ssh s verifier (rotation :: rest)
      | verdict => return some verdict
  | _ => return none

def resolveKeyWith (ssh : SshKey) (s : Store git) (claim : ObjectId) (verifier : Option Verifier) :
    Result ObjectId Resolved := do
  let links ← keyChain s claim
  match ← checkRotations ssh s verifier links with
  | some verdict => return .rejected verdict
  | none =>
      match links.getLast? with
      | some last => return .key last.key
      -- never taken: a chain has at least the requested link (`Custody.ne_nil`)
      | none => throw (.claimOffChain claim)

def key (ssh : SshKey) (s : Store git) (claim : ObjectId) : Result ObjectId (Option AttestKey) := do
  match ← resolveKeyWith ssh s claim none with
  | .key key => return some key
  | .rejected _ => return none

def verifyDispatched (ssh : SshKey) (s : Store git) (claim : Claim ObjectId) (verifier : Option Verifier) :
    Result ObjectId Verdict := do
  match ← resolveKeyWith ssh s claim.envelope.key verifier with
  | .rejected verdict => return verdict
  | .key key => verifyCommit ssh s claim.id key verifier

def verify (ssh : SshKey) (s : Store git) (claim : Claim ObjectId) : Result ObjectId Verdict :=
  verifyDispatched ssh s claim none

def verifyWith (ssh : SshKey) (s : Store git) (claim : Claim ObjectId) (verifier : Verifier) :
    Result ObjectId Verdict := verifyDispatched ssh s claim (some verifier)

/-! Key claims. -/

theorem keyDocument_ok (s : Store git) (claim : ObjectId) (envelope : Envelope ObjectId) (key : AttestKey) :
    keyDocument s claim envelope = .ok key ↔
      envelope.payloadKind = KEY_KIND ∧ envelope.target.kind = KEY_TARGET_KIND ∧
        s.find envelope.payload = some (.key key) := by
  unfold keyDocument
  by_cases labels : envelope.payloadKind ≠ KEY_KIND ∨ envelope.target.kind ≠ KEY_TARGET_KIND
  · rw [if_pos labels]
    constructor
    · intro never
      cases never
    · rintro ⟨kind, target, _⟩
      rcases labels with other | other
      · exact absurd kind other
      · exact absurd target other
  · rw [if_neg labels]
    simp only [not_or, ne_eq, not_not] at labels
    cases found : s.find envelope.payload with
    | none => simp
    | some object =>
      cases object with
      | commit commit => simp
      | key document => simp [labels.1, labels.2]

theorem keyDocument_extends (s t : Store git) (extended : s.Extends t) (claim : ObjectId)
    (envelope : Envelope ObjectId) (key : AttestKey) (read : keyDocument s claim envelope = .ok key) :
    keyDocument t claim envelope = .ok key := by
  obtain ⟨kind, target, found⟩ := (keyDocument_ok s claim envelope key).mp read
  exact (keyDocument_ok t claim envelope key).mpr ⟨kind, target, extended.find _ _ found⟩

theorem keyEnvelope_ok (s : Store git) (claim : ObjectId) (envelope : Envelope ObjectId) :
    keyEnvelope s claim = .ok envelope ↔
      envelopeAt s claim = .ok envelope ∧ ∃ key, keyDocument s claim envelope = .ok key := by
  simp only [keyEnvelope, Result.bind_eq_ok, Result.pure_eq_ok]
  constructor
  · rintro ⟨read, found, key, document, rfl⟩
    exact ⟨found, key, document⟩
  · rintro ⟨found, key, document⟩
    exact ⟨envelope, found, key, document, rfl⟩

/-- An entry of a chain is a link when its envelope publishes a key. -/
def IsLink (s : Store git) (entry : Claim ObjectId) (link : Link ObjectId) : Prop :=
  link.claim = entry.id ∧ keyDocument s entry.id entry.envelope = .ok link.key

/-- `links` is the chain of `claim`, from the root up to `claim`, all of it key claims. -/
def Custody (s : Store git) (claim : ObjectId) (links : List (Link ObjectId)) : Prop :=
  ∃ envelope newer entry older, envelopeAt s claim = .ok envelope ∧
    log s envelope.target = .ok (newer ++ entry :: older) ∧ entry.id = claim ∧
    List.Forall₂ (IsLink s) (entry :: older).reverse links

theorem keyLinks_seen (s : Store git) (claim : ObjectId) (entries : List (Claim ObjectId)) (seen : Bool)
    (links : List (Link ObjectId)) :
    keyLinks s claim true entries = .ok (seen, links) ↔
      seen = true ∧ List.Forall₂ (IsLink s) entries links := by
  induction entries generalizing links with
  | nil =>
    simp only [keyLinks, Result.pure_eq_ok, Prod.mk.injEq, List.forall₂_nil_left_iff]
    exact and_congr eq_comm eq_comm
  | cons entry older ih =>
    simp only [keyLinks, Bool.true_or, if_true, Result.bind_eq_ok, Result.pure_eq_ok, Prod.mk.injEq,
      Prod.exists]
    constructor
    · rintro ⟨key, document, _, rest, others, rfl, rfl⟩
      obtain ⟨rfl, later⟩ := (ih rest).mp others
      exact ⟨rfl, .cons ⟨rfl, document⟩ later⟩
    · rintro ⟨rfl, linked⟩
      cases linked with
      | cons first later =>
        rename_i link rest
        obtain ⟨claim', key⟩ := link
        obtain ⟨rfl, document⟩ := first
        exact ⟨key, document, true, rest, (ih rest).mpr ⟨rfl, later⟩, rfl, rfl⟩

theorem keyLinks_unseen (s : Store git) (claim : ObjectId) (newer entries : List (Claim ObjectId))
    (absent : claim ∉ newer.map Claim.id) :
    keyLinks s claim false (newer ++ entries) = keyLinks s claim false entries := by
  induction newer with
  | nil => rfl
  | cons entry rest ih =>
    simp only [List.map_cons, List.mem_cons, not_or] at absent
    have different : entry.id ≠ claim := fun same => absent.1 same.symm
    simp only [List.cons_append, keyLinks, different, decide_false, Bool.or_false, Bool.false_eq_true,
      if_false]
    exact ih absent.2

theorem keyLinks_here (s : Store git) (entry : Claim ObjectId) (older : List (Claim ObjectId)) :
    keyLinks s entry.id false (entry :: older) = keyLinks s entry.id true (entry :: older) := by
  simp only [keyLinks, decide_true, Bool.or_true]

/-- The chain is found exactly when every entry from `claim` down publishes a key. -/
theorem keyChain_ok (s : Store git) (claim : ObjectId) (links : List (Link ObjectId)) :
    keyChain s claim = .ok links ↔ Custody s claim links := by
  simp only [keyChain, Result.bind_eq_ok, Prod.exists]
  constructor
  · rintro ⟨envelope, published, chain, read, seen, newest, collected, finished⟩
    obtain ⟨found, _⟩ := (keyEnvelope_ok s claim envelope).mp published
    by_cases listed : claim ∈ chain.map Claim.id
    · obtain ⟨entry, member, here⟩ := List.mem_map.mp listed
      obtain ⟨newer, older, rfl⟩ := List.append_of_mem member
      have once := log_nodup s envelope.target _ read
      rw [List.map_append, List.map_cons, here] at once
      have absent : claim ∉ newer.map Claim.id := by
        intro earlier
        exact (List.nodup_append.mp once).2.2 claim earlier claim List.mem_cons_self rfl
      subst here
      rw [keyLinks_unseen s _ newer _ absent, keyLinks_here, keyLinks_seen] at collected
      obtain ⟨rfl, linked⟩ := collected
      simp only [if_true, Result.pure_eq_ok] at finished
      subst finished
      exact ⟨envelope, newer, entry, older, found, read, rfl, List.rel_reverse linked⟩
    · have scanned := keyLinks_unseen s claim chain [] listed
      rw [List.append_nil] at scanned
      rw [scanned] at collected
      simp only [keyLinks, Result.pure_eq_ok, Prod.mk.injEq] at collected
      obtain ⟨rfl, rfl⟩ := collected
      simp [Result.throw_ne_ok] at finished
  · rintro ⟨envelope, newer, entry, older, found, read, rfl, linked⟩
    have newest : List.Forall₂ (IsLink s) (entry :: older) links.reverse := by
      have turned := List.rel_reverse linked
      rwa [List.reverse_reverse] at turned
    have once := log_nodup s envelope.target _ read
    rw [List.map_append, List.map_cons] at once
    have absent : entry.id ∉ newer.map Claim.id := by
      intro earlier
      exact (List.nodup_append.mp once).2.2 _ earlier _ List.mem_cons_self rfl
    have same : entry.envelope = envelope := by
      have own := (log_mem s envelope.target _ read entry (by simp)).1
      rw [found] at own
      exact (Except.ok.inj own).symm
    obtain ⟨link, published⟩ : ∃ link, IsLink s entry link := by
      obtain ⟨link, _, published, _, _⟩ := List.forall₂_cons_left_iff.mp newest
      exact ⟨link, published⟩
    refine ⟨envelope, ?_, newer ++ entry :: older, read, true, links.reverse, ?_, ?_⟩
    · exact (keyEnvelope_ok s _ envelope).mpr ⟨found, link.key, same ▸ published.2⟩
    · rw [keyLinks_unseen s _ newer _ absent, keyLinks_here, keyLinks_seen]
      exact ⟨rfl, newest⟩
    · simp [Result.pure_eq_ok]

theorem Custody.ne_nil {s : Store git} {claim : ObjectId} {links : List (Link ObjectId)}
    (custody : Custody s claim links) : links ≠ [] := by
  obtain ⟨_, _, entry, older, _, _, _, linked⟩ := custody
  rintro rfl
  have lengths := linked.length_eq
  simp at lengths

theorem Custody.unique {s : Store git} {claim : ObjectId} {first second : List (Link ObjectId)}
    (one : Custody s claim first) (other : Custody s claim second) : first = second := by
  rw [← keyChain_ok] at one other
  rw [one] at other
  exact Except.ok.inj other

/-- A chain of custody stands in every later store: the log below a claim is final. -/
theorem Custody.grows {s t : Store git} (grown : Grows s t) {claim : ObjectId}
    {links : List (Link ObjectId)} (custody : Custody s claim links) : Custody t claim links := by
  obtain ⟨envelope, newer, entry, older, found, read, here, linked⟩ := custody
  obtain ⟨newest, later⟩ := grown.log envelope.target _ read
  refine ⟨envelope, newest ++ newer, entry, older, ?_, ?_, here, ?_⟩
  · exact envelopeAt_extends s t grown.extended claim envelope found
  · rw [later, List.append_assoc]
  · apply linked.imp
    intro other link published
    exact ⟨published.1, keyDocument_extends s t grown.extended _ _ _ published.2⟩

end GitAnchor.Attest
