import GitAnchor.Substrate.NormalForm

/-! Claim envelopes: what a claim is about, what it says and which key signed it, with
the target key that names the claim ref. -/

namespace GitAnchor.Attest
open GitAnchor.Substrate

structure Target (ObjectId : Type) where
  kind : String
  id : ObjectId
  deriving DecidableEq, Repr

structure Envelope (ObjectId : Type) where
  target : Target ObjectId
  payload : ObjectId
  payloadKind : String
  key : ObjectId
  deriving DecidableEq, Repr

/-- The document a claim commit's tree holds. -/
structure StoredEnvelope (ObjectId : Type) where
  target : Target ObjectId
  payload : ObjectId
  payloadKind : String
  key : ObjectId
  sequence : Nat
  deriving DecidableEq, Repr

variable {ObjectId : Type}

def StoredEnvelope.new (envelope : Envelope ObjectId) (sequence : Nat) : StoredEnvelope ObjectId :=
  { target := envelope.target
    payload := envelope.payload
    payloadKind := envelope.payloadKind
    key := envelope.key
    sequence := sequence }

def StoredEnvelope.intoEnvelope (stored : StoredEnvelope ObjectId) : Envelope ObjectId :=
  { target := stored.target
    payload := stored.payload
    payloadKind := stored.payloadKind
    key := stored.key }

/-- The `Target.kind` of a revocation's target: a claim. -/
def CLAIM_TARGET_KIND : String := "claim"

/-- The `Target.kind` of a key's own claim chain. -/
def KEY_TARGET_KIND : String := "key"

/-- The `Envelope.payloadKind` a revocation carries. -/
def REVOCATION_KIND : String := "revocation"

/-- The kind key documents are published under, and the `payloadKind` of a key claim. -/
def KEY_KIND : String := "keys"

/-- A map in key order, as the source's `BTreeMap` lists it. -/
def toNormalForm (target : Target ObjectId) : NormalForm ObjectId :=
  .struct [("id", .hash target.id), ("kind", .str target.kind)]

theorem toNormalForm_injective :
    Function.Injective (toNormalForm : Target ObjectId → NormalForm ObjectId) := by
  intro first second same
  cases first
  cases second
  simp only [toNormalForm, NormalForm.struct.injEq, List.cons.injEq, Prod.mk.injEq,
    NormalForm.hash.injEq, NormalForm.str.injEq, true_and, and_true] at same
  rw [same.1, same.2]

def targetKey (normalForm : NormalFormHash ObjectId) (target : Target ObjectId) : ObjectId :=
  normalForm.hash (toNormalForm target)

/-- Two targets share a claim ref only when they are the same descriptor. -/
theorem targetKey_injective (normalForm : NormalFormHash ObjectId) :
    Function.Injective (targetKey normalForm) :=
  normalForm.hash_injective.comp toNormalForm_injective

/-- A signing key as published: a format label and the public bytes it describes. -/
structure AttestKey where
  format : String
  publicKey : Bytes
  machine : Bool
  deriving DecidableEq, Repr

end GitAnchor.Attest
