import GitAnchor.Foundation.Transition
import GitAnchor.Attest.Resolve

/-! Calls one after another: what a successful call does to the store, the histories
such calls make from a store without claims, and what holds in all of them. -/

namespace GitAnchor.Attest
open GitAnchor.Foundation GitAnchor.Substrate

inductive Call (ObjectId : Type) where
  | sign (envelope : Envelope ObjectId)
  | revoke (claim key : ObjectId)
  | addKey (key : AttestKey)
  | rotateKey (previous : ObjectId) (key : AttestKey)
  deriving DecidableEq, Repr

variable {ObjectId : Type} [DecidableEq ObjectId] {git : Git ObjectId}

def perform (s : Store git) (writer : Writer) : Call ObjectId → Result ObjectId (ObjectId × Store git)
  | .sign envelope => sign s writer envelope
  | .revoke claim key => revoke s writer claim key
  | .addKey key => addKey s writer key
  | .rotateKey previous key => rotateKey s writer previous key

/-- A call that returned: who made it, what it was and the claim id it returned. -/
structure Performed (ObjectId : Type) where
  writer : Writer
  call : Call ObjectId
  id : ObjectId

def Step (s : Store git) (done : Performed ObjectId) (t : Store git) : Prop :=
  perform s done.writer done.call = .ok (done.id, t)

/-- No claim ref exists yet; the object database may hold anything. -/
def Unclaimed (s : Store git) : Prop := ∀ name, s.refs name = none

/-- The chain a call appends to, the envelope it appends there, and the store it does it
in: keys write their document first. -/
inductive Prepared (s : Store git) :
    Call ObjectId → Target ObjectId → Envelope ObjectId → Store git → Prop where
  | sign (envelope : Envelope ObjectId) : Prepared s (.sign envelope) envelope.target envelope s
  | revoke (claim key : ObjectId) (revoked : Envelope ObjectId)
      (read : envelopeAt s claim = .ok revoked) :
      Prepared s (.revoke claim key) revoked.target (revocationEnvelope git claim key) s
  | addKey (key : AttestKey) :
      Prepared s (.addKey key) (keyTarget git key) (addEnvelope git key) (s.writeObject (.key key))
  | rotateKey (previous : ObjectId) (key : AttestKey) (envelope : Envelope ObjectId)
      (read : keyEnvelope s previous = .ok envelope) :
      Prepared s (.rotateKey previous key) envelope.target
        (rotationEnvelope git envelope.target previous key) (s.writeObject (.key key))

/-- Everything a successful call does: it prepares, then appends once. -/
theorem step_cases (s t : Store git) (done : Performed ObjectId) (taken : Step s done t) :
    ∃ on envelope ready, Prepared s done.call on envelope ready ∧
      Appended ready done.writer on envelope done.id t := by
  obtain ⟨writer, call, id⟩ := done
  cases call with
  | sign envelope =>
    simp only [Step, perform, sign] at taken
    exact ⟨_, _, _, .sign envelope, append_ok _ _ _ _ _ _ taken⟩
  | revoke claim key =>
    simp only [Step, perform, revoke, revocation, Result.bind_eq_ok, Result.pure_eq_ok] at taken
    obtain ⟨_, ⟨revoked, read, rfl⟩, appended⟩ := taken
    exact ⟨_, _, _, .revoke claim key revoked read, append_ok _ _ _ _ _ _ appended⟩
  | addKey key =>
    simp only [Step, perform, addKey] at taken
    exact ⟨_, _, _, .addKey key, append_ok _ _ _ _ _ _ taken⟩
  | rotateKey previous key =>
    simp only [Step, perform, rotateKey, Result.bind_eq_ok] at taken
    obtain ⟨envelope, read, appended⟩ := taken
    exact ⟨_, _, _, .rotateKey previous key envelope read, append_ok _ _ _ _ _ _ appended⟩

namespace Prepared
variable {s ready : Store git} {call : Call ObjectId} {on : Target ObjectId} {envelope : Envelope ObjectId}

theorem grows (prepared : Prepared s call on envelope ready) : Grows s ready := by
  cases prepared with
  | sign => exact .refl s
  | revoke => exact .refl s
  | addKey key => exact grows_writeObject s _
  | rotateKey _ key => exact grows_writeObject s _

/-- Preparing changes no chain. -/
theorem log_eq (prepared : Prepared s call on envelope ready) (target : Target ObjectId)
    (claims : List (Claim ObjectId)) (read : log s target = .ok claims) : log ready target = .ok claims := by
  cases prepared with
  | sign => exact read
  | revoke => exact read
  | addKey key => exact log_writeObject s _ target claims read
  | rotateKey _ key => exact log_writeObject s _ target claims read

/-- Everything but a revocation goes to the chain of its own target. -/
theorem home (prepared : Prepared s call on envelope ready) :
    envelope.target = on ∨ ∃ claim by_key, call = .revoke claim by_key ∧ envelope = revocationEnvelope git claim by_key := by
  cases prepared with
  | sign => exact .inl rfl
  | revoke claim by_key => exact .inr ⟨claim, by_key, rfl, rfl⟩
  | addKey => exact .inl rfl
  | rotateKey => exact .inl rfl

end Prepared

/-- A successful call puts one claim on one chain. -/
structure Landed (s : Store git) (done : Performed ObjectId) (on : Target ObjectId)
    (envelope : Envelope ObjectId) (t : Store git) : Prop where
  here : ∀ claims, log s on = .ok claims → log t on = .ok (⟨done.id, envelope, none⟩ :: claims)
  elsewhere : ∀ target, target ≠ on → ∀ claims, log s target = .ok claims → log t target = .ok claims
  read : envelopeAt t done.id = .ok envelope
  grows : Grows s t

theorem landed (s t : Store git) (done : Performed ObjectId) (on : Target ObjectId)
    (envelope : Envelope ObjectId) (ready : Store git)
    (prepared : Prepared s done.call on envelope ready)
    (appended : Appended ready done.writer on envelope done.id t) : Landed s done on envelope t where
  here := fun claims read => appended.log_self claims (prepared.log_eq on claims read)
  elsewhere := fun target different claims read =>
    appended.log_other target different claims (prepared.log_eq target claims read)
  read := appended.envelopeAt_self
  grows := prepared.grows.trans appended.grows

theorem step_grows (s : Store git) (done : Performed ObjectId) (t : Store git) (taken : Step s done t) :
    Grows s t := by
  obtain ⟨on, envelope, ready, prepared, appended⟩ := step_cases s t done taken
  exact (landed s t done on envelope ready prepared appended).grows

/-- Whatever calls follow, nothing written is lost and every log only grows at its new end. -/
theorem run_grows (s t : Store git) (trace : List (Store git × Performed ObjectId))
    (run : Run (· = s) Step trace t) : Grows s t :=
  run.relates Grows.refl (fun _ _ _ first second => first.trans second)
    (fun s done t taken => step_grows s done t taken)

/-! Histories from a store without claims. -/

/-- Every chain reads back in full. -/
def Legible (s : Store git) : Prop := ∀ target, ∃ claims, log s target = .ok claims

theorem legible_of_unclaimed (s : Store git) (unclaimed : Unclaimed s) : Legible s := by
  intro target
  refine ⟨[], (log_ok s target []).mpr ⟨[], ?_, rfl⟩⟩
  exact s.history_eq_of_ref_none _ (unclaimed _)

theorem legible_step (s : Store git) (done : Performed ObjectId) (t : Store git) (legible : Legible s)
    (taken : Step s done t) : Legible t := by
  intro target
  obtain ⟨claims, read⟩ := legible target
  obtain ⟨newer, later⟩ := (step_grows s done t taken).log target claims read
  exact ⟨_, later⟩

theorem legible_run (s : Store git) (trace : List (Store git × Performed ObjectId))
    (run : Run Unclaimed Step trace s) : Legible s :=
  run.invariant legible_of_unclaimed legible_step

theorem readRef_of_log (s : Store git) (target : Target ObjectId) (claims : List (Claim ObjectId))
    (listed : log s target = .ok claims) :
    s.readRef (git.entityName target) = .ok (s.refs (git.entityName target)) := by
  obtain ⟨ids, walked, others⟩ := (log_ok s target claims).mp listed
  unfold Store.readRef
  cases named : s.refs (git.entityName target) with
  | none => rfl
  | some tip =>
    have head := s.history_head _ ids walked
    rw [named] at head
    obtain ⟨rest, rfl⟩ : ∃ rest, ids = tip :: rest := by
      cases ids with
      | nil => cases head
      | cons first rest => exact ⟨rest, by rw [Option.some.inj head]⟩
    obtain ⟨found, _, first, _, _⟩ := (readClaims_cons s tip rest claims).mp others
    obtain ⟨commit, stored, object, document, _⟩ := envelopeAt_ok s tip found first
    simp only [Store.readCommit, object, document]
    rfl

theorem readSequence_of_log (s : Store git) (target : Target ObjectId) (claims : List (Claim ObjectId))
    (listed : log s target = .ok claims) :
    readSequence s (git.entityName target) (s.refs (git.entityName target)) = .ok claims.length := by
  obtain ⟨ids, walked, others⟩ := (log_ok s target claims).mp listed
  have lengths : ids.length = claims.length := by
    rw [← readClaims_ids s ids claims others, List.length_map]
  cases named : s.refs (git.entityName target) with
  | none =>
    rw [s.history_eq_of_ref_none _ named] at walked
    cases walked
    rw [← lengths]
    rfl
  | some tip =>
    simp only [readSequence, walked, ← lengths]
    rfl

end GitAnchor.Attest
