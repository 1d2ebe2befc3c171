import GitAnchor.Attest.Chain
import GitAnchor.Attest.SignedBytes

/-! Verdicts: the shipped `ssh-ed25519` verifier over `ssh-key`'s primitives, the
dispatch on a key's format, and the check of one commit against one key. -/

namespace GitAnchor.Attest
open GitAnchor.Foundation GitAnchor.Substrate

inductive Verdict where
  | verified
  | badSignature
  | unknownKeyFormat
  deriving DecidableEq, Repr

/-- A check of a signature against a key, over the bytes it signs. -/
abbrev Verifier := Bytes → Bytes → AttestKey → Verdict

/-- The parts of `ssh-key` that are used, as that crate documents them. -/
structure SshKey where
  PublicKey : Type
  SshSig : Type
  fromOpenssh : String → Except String PublicKey
  algorithm : PublicKey → String
  toBytes : PublicKey → Except String Bytes
  fromBytes : Bytes → Option PublicKey
  parse : String → Option SshSig
  namespaceOf : SshSig → String
  verify : PublicKey → String → Bytes → SshSig → Bool

def SSH_ED25519 : String := "ssh-ed25519"

/-- The SSHSIG namespace git signs commits under. -/
def GIT_NAMESPACE : String := "git"

/-- The armor an SSHSIG block opens with. -/
def SSHSIG_PREAMBLE : String := "-----BEGIN SSH SIGNATURE-----"

/-- Unicode white space, as `char::is_whitespace` lists it. -/
def isWhitespace (c : Char) : Bool :=
  (9 ≤ c.toNat && c.toNat ≤ 13) || (0x2000 ≤ c.toNat && c.toNat ≤ 0x200a) ||
    c.toNat ∈ [0x20, 0x85, 0xa0, 0x1680, 0x2028, 0x2029, 0x202f, 0x205f, 0x3000]

/-- `armor.trim_start().starts_with(SSHSIG_PREAMBLE)` -/
def opensArmor (armor : String) : Bool :=
  SSHSIG_PREAMBLE.toList.isPrefixOf (armor.toList.dropWhile isWhitespace)

def utf8 (bytes : Bytes) : Option String := String.fromUTF8? ⟨bytes.toArray⟩

/-- `SshEd25519::verify` -/
def sshEd25519 (ssh : SshKey) : Verifier := fun signed signature key =>
  if key.format ≠ SSH_ED25519 then .unknownKeyFormat
  else match utf8 signature with
    | none => .unknownKeyFormat
    | some armor =>
        if !opensArmor armor then .unknownKeyFormat
        else match ssh.fromBytes key.publicKey with
          | none => .unknownKeyFormat
          | some publicKey =>
              match ssh.parse armor with
              | none => .badSignature
              | some block =>
                  if ssh.namespaceOf block ≠ GIT_NAMESPACE then .badSignature
                  else if ssh.verify publicKey GIT_NAMESPACE signed block then .verified
                  else .badSignature

/-- The shipped verifier for a format: a table of one row. -/
def verifierFor (ssh : SshKey) (format : String) : Option Verifier :=
  if format = SSH_ED25519 then some (sshEd25519 ssh) else none

/-- A verified block was checked under an `ssh-ed25519` key, in git's namespace. -/
theorem sshEd25519_verified (ssh : SshKey) (signed signature : Bytes) (key : AttestKey)
    (verified : sshEd25519 ssh signed signature key = .verified) :
    key.format = SSH_ED25519 ∧ ∃ armor publicKey block, utf8 signature = some armor ∧
      opensArmor armor = true ∧ ssh.fromBytes key.publicKey = some publicKey ∧
      ssh.parse armor = some block ∧ ssh.namespaceOf block = GIT_NAMESPACE ∧
      ssh.verify publicKey GIT_NAMESPACE signed block = true := by
  unfold sshEd25519 at verified
  by_cases format : key.format = SSH_ED25519
  · rw [if_neg (by simpa using format)] at verified
    refine ⟨format, ?_⟩
    cases text : utf8 signature with
    | none => simp [text] at verified
    | some armor =>
      cases opening : opensArmor armor with
      | false => simp [text, opening] at verified
      | true =>
        cases decoded : ssh.fromBytes key.publicKey with
        | none => simp [text, opening, decoded] at verified
        | some publicKey =>
          cases parsed : ssh.parse armor with
          | none => simp [text, opening, decoded, parsed] at verified
          | some block =>
            by_cases named : ssh.namespaceOf block = GIT_NAMESPACE
            · refine ⟨armor, publicKey, block, rfl, opening, rfl, parsed, named, ?_⟩
              by_contra refused
              simp [text, opening, decoded, parsed, named, refused] at verified
            · simp [text, opening, decoded, parsed, named] at verified
  · rw [if_pos format] at verified
    cases verified

variable {ObjectId : Type} [DecidableEq ObjectId] {git : Git ObjectId}

/-- `store.signature(commit)`: the `gpgsig` header the commit carries, if any. -/
def Store.signature (s : Store git) (id : ObjectId) : Result ObjectId (Option Bytes) :=
  match s.find id with
  | none => .error (.store (.missing id))
  | some (.commit commit) => .ok commit.signature
  | some (.key _) => .error (.store (.decode id))

def rawCommit (s : Store git) (id : ObjectId) : Result ObjectId Bytes :=
  match s.find id with
  | none => .error (.missingClaim id)
  | some (.commit commit) => .ok (git.rawCommit commit)
  | some (.key _) => .error (.notAClaim id)

def verifyCommit (ssh : SshKey) (s : Store git) (commit : ObjectId) (key : AttestKey)
    (verifier : Option Verifier) : Result ObjectId Verdict :=
  match verifier <|> verifierFor ssh key.format with
  | none => return .unknownKeyFormat
  | some verifier => do
      match ← s.signature commit with
      | none => return .badSignature
      | some signature => do
          let signed := SignedBytes.signedBytes (← rawCommit s commit)
          return verifier signed signature key

/-- The check as a function of the commit alone. -/
def commitVerdict (git : Git ObjectId) (ssh : SshKey) (commit : Commit ObjectId) (key : AttestKey)
    (verifier : Option Verifier) : Verdict :=
  match verifier <|> verifierFor ssh key.format, commit.signature with
  | none, _ => .unknownKeyFormat
  | some _, none => .badSignature
  | some verifier, some signature =>
      verifier (SignedBytes.signedBytes (git.rawCommit commit)) signature key

theorem verifyCommit_of_find (ssh : SshKey) (s : Store git) (id : ObjectId) (commit : Commit ObjectId)
    (key : AttestKey) (verifier : Option Verifier) (found : s.find id = some (.commit commit)) :
    verifyCommit ssh s id key verifier = .ok (commitVerdict git ssh commit key verifier) := by
  unfold verifyCommit commitVerdict Store.signature rawCommit
  simp only [found]
  cases verifier <|> verifierFor ssh key.format with
  | none => rfl
  | some verifier => cases commit.signature <;> rfl

/-- A verdict, once reached, is the same in every later store. -/
theorem verifyCommit_extends (ssh : SshKey) (s t : Store git) (extended : s.Extends t) (id : ObjectId)
    (key : AttestKey) (verifier : Option Verifier) (verdict : Verdict)
    (checked : verifyCommit ssh s id key verifier = .ok verdict) :
    verifyCommit ssh t id key verifier = .ok verdict := by
  cases found : s.find id with
  | some object =>
    cases object with
    | commit commit =>
      rw [verifyCommit_of_find ssh s id commit key verifier found] at checked
      rw [verifyCommit_of_find ssh t id commit key verifier (extended.find _ _ found), checked]
    | key document =>
      unfold verifyCommit Store.signature at checked ⊢
      cases dispatched : verifier <|> verifierFor ssh key.format with
      | none => simpa only [dispatched] using checked
      | some _ => simp [dispatched, found, Result.error_bind] at checked
  | none =>
    unfold verifyCommit Store.signature at checked ⊢
    cases dispatched : verifier <|> verifierFor ssh key.format with
    | none => simpa only [dispatched] using checked
    | some _ => simp [dispatched, found, Result.error_bind] at checked

end GitAnchor.Attest
