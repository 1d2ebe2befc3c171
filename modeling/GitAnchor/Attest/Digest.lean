import GitAnchor.Attest.History
import GitAnchor.Attest.SignatureHeader

/-! An implementation of what the store takes from outside. A digest is the digested
value itself, written out as a tree, so it is free of collisions; a signature block names
the key that made it, so it verifies under that key alone. -/

namespace GitAnchor.Attest
open GitAnchor.Foundation GitAnchor.Substrate

inductive Digest where
  | nat (value : Nat)
  | str (value : String)
  | pair (first second : Digest)
  deriving DecidableEq, Repr

namespace Digest

def ofList {α : Type} (item : α → Digest) : List α → Digest
  | [] => .nat 0
  | value :: rest => .pair (item value) (ofList item rest)

def ofOption {α : Type} (item : α → Digest) : Option α → Digest
  | none => .nat 0
  | some value => .pair (item value) (.nat 0)

theorem ofList_injective {α : Type} (item : α → Digest) (injective : Function.Injective item) :
    Function.Injective (ofList item) := by
  intro first
  induction first with
  | nil =>
    intro second same
    cases second with
    | nil => rfl
    | cons value rest => cases same
  | cons value rest ih =>
    intro second same
    cases second with
    | nil => cases same
    | cons other more =>
      simp only [ofList, pair.injEq] at same
      rw [injective same.1, ih same.2]

theorem ofOption_injective {α : Type} (item : α → Digest) (injective : Function.Injective item) :
    Function.Injective (ofOption item) := by
  intro first second same
  cases first with
  | none =>
    cases second with
    | none => rfl
    | some other => cases same
  | some value =>
    cases second with
    | none => cases same
    | some other =>
      simp only [ofOption, pair.injEq, and_true] at same
      rw [injective same]

mutual
def ofNormalForm : NormalForm Digest → Digest
  | .struct fields => .pair (.nat 0) (ofFields fields)
  | .list items => .pair (.nat 1) (ofItems items)
  | .str value => .pair (.nat 2) (.str value)
  | .hash id => .pair (.nat 3) id
  | .u64 value => .pair (.nat 4) (.nat value)

def ofFields : List (String × NormalForm Digest) → Digest
  | [] => .nat 0
  | (name, value) :: rest => .pair (.pair (.str name) (ofNormalForm value)) (ofFields rest)

def ofItems : List (NormalForm Digest) → Digest
  | [] => .nat 0
  | value :: rest => .pair (ofNormalForm value) (ofItems rest)
end

mutual
theorem ofNormalForm_inj (first second : NormalForm Digest)
    (same : ofNormalForm first = ofNormalForm second) : first = second := by
  cases first <;> cases second <;> simp [ofNormalForm] at same
  · rw [ofFields_inj _ _ same]
  · rw [ofItems_inj _ _ same]
  · rw [same]
  · rw [same]
  · rw [same]

theorem ofFields_inj (first second : List (String × NormalForm Digest))
    (same : ofFields first = ofFields second) : first = second := by
  match first, second with
  | [], [] => rfl
  | [], _ :: _ => cases same
  | _ :: _, [] => cases same
  | (name, value) :: rest, (other, second) :: more =>
    simp only [ofFields, pair.injEq, str.injEq] at same
    rw [same.1.1, ofNormalForm_inj _ _ same.1.2, ofFields_inj _ _ same.2]

theorem ofItems_inj (first second : List (NormalForm Digest))
    (same : ofItems first = ofItems second) : first = second := by
  match first, second with
  | [], [] => rfl
  | [], _ :: _ => cases same
  | _ :: _, [] => cases same
  | value :: rest, other :: more =>
    simp only [ofItems, pair.injEq] at same
    rw [ofNormalForm_inj _ _ same.1, ofItems_inj _ _ same.2]
end

def ofBytes (bytes : Bytes) : Digest := ofList (fun b => .nat b.toNat) bytes

theorem ofBytes_injective : Function.Injective ofBytes := by
  apply ofList_injective
  intro first second same
  simp only [nat.injEq] at same
  exact UInt8.toNat_inj.mp same

def ofDocument : Document Digest → Digest
  | .envelope stored => .pair (.nat 0) (.pair (.str stored.target.kind) (.pair stored.target.id
      (.pair stored.payload (.pair (.str stored.payloadKind) (.pair stored.key (.nat stored.sequence))))))
  | .other tree => .pair (.nat 1) tree

theorem ofDocument_injective : Function.Injective ofDocument := by
  intro first second same
  cases first with
  | envelope stored =>
    cases second with
    | envelope other =>
      obtain ⟨⟨kind, id⟩, payload, payloadKind, key, sequence⟩ := stored
      obtain ⟨⟨kind', id'⟩, payload', payloadKind', key', sequence'⟩ := other
      simp only [ofDocument, pair.injEq, str.injEq, nat.injEq, true_and] at same
      obtain ⟨rfl, rfl, rfl, rfl, rfl, rfl⟩ := same
      rfl
    | other tree => simp [ofDocument] at same
  | other tree =>
    cases second with
    | envelope other => simp [ofDocument] at same
    | other tree' =>
      simp only [ofDocument, pair.injEq, true_and] at same
      rw [same]

def ofCommit (commit : Commit Digest) : Digest :=
  .pair (ofDocument commit.document) (.pair (ofList id commit.parents) (.pair (.str commit.summary)
    (.pair (.str commit.committer) (ofOption ofBytes commit.signature))))

def ofObject : Object Digest → Digest
  | .commit value => .pair (.nat 0) (ofCommit value)
  | .key value => .pair (.nat 1) (.pair (.str value.format) (.pair (ofBytes value.publicKey)
      (.nat value.machine.toNat)))

theorem ofObject_injective : Function.Injective ofObject := by
  intro first second same
  cases first with
  | commit value =>
    cases second with
    | commit other =>
      cases value
      cases other
      simp only [ofObject, ofCommit, pair.injEq, str.injEq, true_and] at same
      obtain ⟨documents, parents, rfl, rfl, signatures⟩ := same
      rw [ofDocument_injective documents, ofList_injective id Function.injective_id parents,
        ofOption_injective ofBytes ofBytes_injective signatures]
    | key other => simp [ofObject] at same
  | key value =>
    cases second with
    | commit other => simp [ofObject] at same
    | key other =>
      obtain ⟨format, publicKey, machine⟩ := value
      obtain ⟨format', publicKey', machine'⟩ := other
      simp only [ofObject, pair.injEq, str.injEq, nat.injEq, true_and] at same
      obtain ⟨rfl, keys, machines⟩ := same
      rw [ofBytes_injective keys]
      cases machine <;> cases machine' <;> first | rfl | cases machines

/-- A digest spelt out without a slash, so that no spelling begins another. -/
def spell : Digest → List Char
  | .nat value => List.replicate value 'i' ++ ['.']
  | .str value => 's' :: (value.toList.flatMap (fun c => List.replicate (c.toNat + 1) 'i' ++ ['.']) ++ ['.'])
  | .pair first second => 'p' :: (spell first ++ spell second)

theorem replicate_stop_inj (n m : Nat) (after after' : List Char)
    (same : List.replicate n 'i' ++ '.' :: after = List.replicate m 'i' ++ '.' :: after') : n = m ∧ after = after' := by
  induction n generalizing m with
  | zero => cases m with
    | zero => exact ⟨rfl, (List.cons.inj same).2⟩
    | succ m => exact absurd (List.cons.inj same).1 (by decide)
  | succ n ih => cases m with
    | zero => exact absurd (List.cons.inj same).1 (by decide)
    | succ m =>
      obtain ⟨equal, rest⟩ := ih m (List.cons.inj same).2
      exact ⟨congrArg Nat.succ equal, rest⟩

theorem text_stop_inj (text text' after after' : List Char)
    (same : text.flatMap (fun c => List.replicate (c.toNat + 1) 'i' ++ ['.']) ++ '.' :: after =
      text'.flatMap (fun c => List.replicate (c.toNat + 1) 'i' ++ ['.']) ++ '.' :: after') :
    text = text' ∧ after = after' := by
  induction text generalizing text' with
  | nil => cases text' with
    | nil => exact ⟨rfl, (List.cons.inj same).2⟩
    | cons => exact absurd (List.cons.inj same).1 (by decide)
  | cons first rest ih => cases text' with
    | nil => exact absurd (List.cons.inj same).1 (by decide)
    | cons first' rest' =>
      simp only [List.flatMap_cons, List.append_assoc, List.singleton_append] at same
      obtain ⟨codes, more⟩ := replicate_stop_inj _ _ _ _ same
      obtain ⟨rfl, tail⟩ := ih rest' more
      rw [Char.toNat_inj.mp (Nat.succ.inj codes)]
      exact ⟨rfl, tail⟩

theorem spell_append_inj (one other : Digest) (after after' : List Char)
    (same : spell one ++ after = spell other ++ after') : one = other ∧ after = after' := by
  induction one generalizing other after after' with
  | nat value =>
    cases other with
    | nat value' =>
      simp only [spell, List.append_assoc, List.singleton_append] at same
      obtain ⟨rfl, rest⟩ := replicate_stop_inj value value' after after' same
      exact ⟨rfl, rest⟩
    | str | pair => cases value <;> exact absurd (List.cons.inj same).1 (by decide)
  | str value =>
    cases other with
    | nat value' => cases value' <;> exact absurd (List.cons.inj same).1 (by decide)
    | str value' =>
      simp only [spell, List.cons_append, List.append_assoc, List.cons.injEq, true_and] at same
      obtain ⟨texts, rest⟩ := text_stop_inj value.toList value'.toList after after' same
      exact ⟨congrArg Digest.str (String.toList_inj.mp texts), rest⟩
    | pair => exact absurd (List.cons.inj same).1 (by decide)
  | pair first second ih ih' =>
    cases other with
    | nat value' => cases value' <;> exact absurd (List.cons.inj same).1 (by decide)
    | str => exact absurd (List.cons.inj same).1 (by decide)
    | pair first' second' =>
      simp only [spell, List.cons_append, List.append_assoc, List.cons.injEq, true_and] at same
      obtain ⟨rfl, more⟩ := ih first' _ _ same
      obtain ⟨rfl, rest⟩ := ih' second' _ _ more
      exact ⟨rfl, rest⟩

theorem spell_injective : Function.Injective spell := by
  intro one other same
  exact (spell_append_inj one other [] [] (by rw [same])).1

theorem slash_not_mem_spell (digest : Digest) : '/' ∉ spell digest := by
  induction digest with
  | nat value => simp [spell, List.mem_replicate]
  | str value => simp [spell, List.mem_flatMap, List.mem_replicate]
  | pair first second ih ih' => simp [spell, ih, ih']

end Digest

/-- The bytes of a text, without line ends. -/
def textBytes (text : String) : Bytes := text.toByteArray.toList.filter (· ≠ SignedBytes.NEWLINE)

/-- The header line `tree`, with everything but the signature and the message. -/
def treeLine (commit : Commit Digest) : Bytes :=
  [116, 114, 101, 101, 32] ++ textBytes (toString (repr (Digest.ofCommit { commit with signature := none }))) ++
    [SignedBytes.NEWLINE]

def digestCommit (commit : Commit Digest) : Bytes :=
  treeLine commit ++ commit.signature.elim [] SignedBytes.gpgsigHeader ++
    [SignedBytes.NEWLINE] ++ textBytes commit.summary

def digestGit : Git Digest :=
  { hash := Digest.ofNormalForm
    hash_injective := fun first second same => Digest.ofNormalForm_inj first second same
    objectId := Digest.ofObject
    objectId_injective := Digest.ofObject_injective
    rawCommit := digestCommit
    nullId := .nat 0
    emptyTree := .str "tree" }

def emptyStore : Store digestGit :=
  { objects := ⟨[], trivial⟩
    refs := fun _ => none
    written := fun _ _ named => by cases named }

/-- The block a key makes: the armor, then the key's public bytes. -/
def blockOf (publicKey : Bytes) : String :=
  SSHSIG_PREAMBLE ++ String.ofList (publicKey.map (fun b => Char.ofNat b.toNat))

def namedSsh : SshKey :=
  { PublicKey := Bytes
    SshSig := String
    fromOpenssh := fun line => .ok line.toByteArray.toList
    algorithm := fun _ => SSH_ED25519
    toBytes := .ok
    fromBytes := some
    parse := some
    namespaceOf := fun _ => GIT_NAMESPACE
    verify := fun publicKey _ _ block => block = blockOf publicKey }

/-- A writer whose store signs with a key. -/
def keyWriter (committer : String) (publicKey : Bytes) : Writer :=
  { committer := committer, signer := some (fun _ => (blockOf publicKey).toByteArray.toList) }

/-- What a call returned and left behind, where it succeeded. -/
def outcome {Failure : Type} (result : Except Failure (Digest × Store digestGit)) : Digest × Store digestGit :=
  match result with
  | .ok done => done
  | .error _ => (digestGit.nullId, emptyStore)

theorem eq_outcome {Failure : Type} (result : Except Failure (Digest × Store digestGit))
    (ok : result.isOk = true) : result = .ok (outcome result) := by
  cases result with
  | ok done => rfl
  | error source => cases ok

theorem unclaimed_emptyStore : Unclaimed emptyStore := fun _ => rfl

end GitAnchor.Attest
