import GitAnchor.Foundation.Agents
import GitAnchor.Attest.Digest

/-! The append loop under concurrency. Any number of calls run their steps (read the tip,
read the history, publish) in any order on one store; a publication that succeeds is an
atomic append at that moment, however stale the reads before it were. -/

namespace GitAnchor.Attest
open GitAnchor.Foundation GitAnchor.Substrate

/-- Where a call of `append` stands in its loop, with what it has read so far. -/
inductive Pc (ObjectId : Type) where
  | readTip
  | readHistory (tip : ObjectId)
  | publish (current : Option ObjectId) (sequence : Nat)
  | returned (result : Result ObjectId ObjectId)

structure Caller (ObjectId : Type) where
  writer : Writer
  on : Target ObjectId
  envelope : Envelope ObjectId
  pc : Pc ObjectId

structure System {ObjectId : Type} (git : Git ObjectId) where
  store : Store git
  callers : List (Caller ObjectId)

/-- What a call can meet: its own next step, a backend failure of the publication (the
commit may have been written before the ref was lost), or an error that ends it. -/
inductive Action (ObjectId : Type) where
  | run
  | lose (wrote : Bool)
  | fail (error : Error ObjectId)

inductive Event (ObjectId : Type) where
  | begin (writer : Writer) (call : Call ObjectId)
  | act (caller : Nat) (action : Action ObjectId)

variable {ObjectId : Type} [DecidableEq ObjectId] {git : Git ObjectId}

/-- What a call does before it enters the loop: the chain it appends to and the envelope. -/
def prepare (s : Store git) : Call ObjectId →
    Result ObjectId (Target ObjectId × Envelope ObjectId × Store git)
  | .sign envelope => return (envelope.target, envelope, s)
  | .revoke claim key => do
      let (on, envelope) ← revocation s claim key
      return (on, envelope, s)
  | .addKey key => return (keyTarget git key, addEnvelope git key, (writeKey s key).2)
  | .rotateKey previous key => do
      let envelope ← keyEnvelope s previous
      return (envelope.target, rotationEnvelope git envelope.target previous key, (writeKey s key).2)

def Caller.commit (git : Git ObjectId) (caller : Caller ObjectId) (current : Option ObjectId)
    (sequence : Nat) : Commit ObjectId := claimCommit git caller.writer caller.envelope current sequence

/-- One step of one call: the store it leaves and where the call then stands. -/
def advance (s : Store git) (caller : Caller ObjectId) (action : Action ObjectId) :
    Option (Store git × Pc ObjectId) :=
  let name := git.entityName caller.on
  match caller.pc, action with
  | .returned _, _ => none
  | _, .fail error => some (s, .returned (.error error))
  | .readTip, .run =>
      match s.readRef name with
      | .ok none => some (s, .publish none 0)
      | .ok (some tip) => some (s, .readHistory tip)
      | .error error => some (s, .returned (.error error))
  | .readHistory tip, .run =>
      match s.history name with
      | .ok ids => some (s, .publish (some tip) ids.length)
      | .error error => some (s, .returned (.error error))
  | .publish current sequence, .run =>
      match s.publishPrepared name current (caller.commit git current sequence) rfl with
      | .ok (id, t) => some (t, .returned (.ok id))
      | .error _ => some (s, .readTip)
  | .publish current sequence, .lose wrote =>
      some (if wrote then s.writeObject (.commit (caller.commit git current sequence)) else s, .readTip)
  | _, .lose _ => none

def fire (system : System git) : Event ObjectId → Option (System git)
  | .begin writer call =>
      match prepare system.store call with
      | .ok (on, envelope, ready) =>
          some { store := ready
                 callers := system.callers ++ [{ writer, on, envelope, pc := .readTip }] }
      | .error _ => none
  | .act i action => do
      let caller ← system.callers[i]?
      let (store, pc) ← advance system.store caller action
      return { store := store, callers := system.callers.set i { caller with pc := pc } }

/-- No claim ref exists and no call has begun. -/
def Initial (system : System git) : Prop := Unclaimed system.store ∧ system.callers = []

def Fires (system : System git) (event : Event ObjectId) (next : System git) : Prop :=
  fire system event = some next

/-! Steps of a call. -/

theorem prepare_ok (s ready : Store git) (call : Call ObjectId) (on : Target ObjectId)
    (envelope : Envelope ObjectId) (ok : prepare s call = .ok (on, envelope, ready)) :
    Prepared s call on envelope ready := by
  cases call with
  | sign given =>
    simp only [prepare, Result.pure_eq_ok, Prod.mk.injEq] at ok
    obtain ⟨rfl, rfl, rfl⟩ := ok
    exact .sign given
  | revoke claim key =>
    simp only [prepare, revocation, Result.bind_eq_ok, Result.pure_eq_ok, Prod.mk.injEq] at ok
    obtain ⟨_, ⟨revoked, read, rfl⟩, rfl, rfl, rfl⟩ := ok
    exact .revoke claim key revoked read
  | addKey key =>
    simp only [prepare, Result.pure_eq_ok, Prod.mk.injEq] at ok
    obtain ⟨rfl, rfl, rfl⟩ := ok
    exact .addKey key
  | rotateKey previous key =>
    simp only [prepare, Result.bind_eq_ok, Result.pure_eq_ok, Prod.mk.injEq] at ok
    obtain ⟨found, read, rfl, rfl, rfl⟩ := ok
    exact .rotateKey previous key found read

theorem refs_of_log (s : Store git) (target : Target ObjectId) (claims : List (Claim ObjectId))
    (listed : log s target = .ok claims) :
    s.refs (git.entityName target) = claims.head?.map Claim.id := by
  obtain ⟨ids, walked, others⟩ := (log_ok s target claims).mp listed
  rw [s.history_head _ ids walked, ← readClaims_ids s ids claims others, List.head?_map]

theorem history_of_log (s : Store git) (target : Target ObjectId) (claims : List (Claim ObjectId))
    (listed : log s target = .ok claims) :
    s.history (git.entityName target) = .ok (claims.map Claim.id) := by
  obtain ⟨ids, walked, others⟩ := (log_ok s target claims).mp listed
  rw [walked, readClaims_ids s ids claims others]

/-- What a call has read is true of its chain, if maybe no longer all of it: the tip it read
is on the chain, and the length it read lies between that tip's and the present one. -/
def Snapshot (s : Store git) (caller : Caller ObjectId) : Prop :=
  match caller.pc with
  | .readTip => True
  | .readHistory tip => ∃ newer entry older,
      log s caller.on = .ok (newer ++ entry :: older) ∧ entry.id = tip
  | .publish none sequence => sequence = 0
  | .publish (some tip) sequence => ∃ newer entry older,
      log s caller.on = .ok (newer ++ entry :: older) ∧ entry.id = tip ∧
      older.length + 1 ≤ sequence ∧ sequence ≤ newer.length + (older.length + 1)
  | .returned _ => True

theorem snapshot_grows (s t : Store git) (grown : Grows s t) (caller : Caller ObjectId)
    (snapshot : Snapshot s caller) : Snapshot t caller := by
  unfold Snapshot at snapshot ⊢
  split at snapshot
  · trivial
  · obtain ⟨newer, entry, older, listed, same⟩ := snapshot
    obtain ⟨newest, later⟩ := grown.log _ _ listed
    exact ⟨newest ++ newer, entry, older, by rw [later, List.append_assoc], same⟩
  · exact snapshot
  · obtain ⟨newer, entry, older, listed, same, lower, upper⟩ := snapshot
    obtain ⟨newest, later⟩ := grown.log _ _ listed
    refine ⟨newest ++ newer, entry, older, by rw [later, List.append_assoc], same, lower, ?_⟩
    rw [List.length_append]
    omega
  · trivial

/-- When the ref still is what the call expects, the length it read is the chain's. -/
theorem sequence_current (s : Store git) (caller : Caller ObjectId) (current : Option ObjectId)
    (sequence : Nat) (standing : caller.pc = .publish current sequence) (snapshot : Snapshot s caller)
    (claims : List (Claim ObjectId)) (listed : log s caller.on = .ok claims)
    (unmoved : s.refs (git.entityName caller.on) = current) : sequence = claims.length := by
  unfold Snapshot at snapshot
  rw [refs_of_log s caller.on claims listed] at unmoved
  cases current with
  | none =>
    simp only [standing] at snapshot
    cases claims with
    | nil => exact snapshot
    | cons first rest => cases unmoved
  | some tip =>
    simp only [standing] at snapshot
    obtain ⟨newer, entry, older, read, same, lower, upper⟩ := snapshot
    rw [listed] at read
    obtain rfl := Except.ok.inj read
    cases newer with
    | nil =>
      simp only [List.nil_append, List.length_cons, List.length_nil] at upper ⊢
      omega
    | cons first rest =>
      have once := log_nodup s caller.on _ listed
      have head : first.id = tip := by simpa using unmoved
      rw [List.cons_append, List.map_cons, List.nodup_cons] at once
      exact absurd (List.mem_map.mpr ⟨entry, by simp, same.trans head.symm⟩) once.1

/-- A step that appends nothing: the chains stay, what the call has read since is true, and
it has not returned an id. -/
structure Quiet (s t : Store git) (caller : Caller ObjectId) (pc : Pc ObjectId) : Prop where
  kept : t = s ∨ ∃ object, t = s.writeObject object
  snapshot : Snapshot s { caller with pc := pc }
  silent : ∀ id, pc ≠ .returned (.ok id)

theorem quiet_fail (s : Store git) (caller : Caller ObjectId) (error : Error ObjectId) :
    Quiet s s caller (.returned (.error error)) where
  kept := .inl rfl
  snapshot := trivial
  silent id same := by cases same

/-- The read of the tip: its ref names the newest claim, or there is none. -/
theorem advance_readTip (s t : Store git) (caller : Caller ObjectId) (pc : Pc ObjectId)
    (claims : List (Claim ObjectId)) (listed : log s caller.on = .ok claims) (standing : caller.pc = .readTip)
    (acted : advance s caller .run = some (t, pc)) : Quiet s t caller pc := by
  have read := readRef_of_log s caller.on claims listed
  have head := refs_of_log s caller.on claims listed
  cases claims with
  | nil =>
    simp only [List.head?_nil, Option.map_none] at head
    simp only [advance, standing, read, head, Option.some.injEq, Prod.mk.injEq] at acted
    obtain ⟨rfl, rfl⟩ := acted
    exact ⟨.inl rfl, rfl, (fun id same => by cases same)⟩
  | cons entry older =>
    simp only [List.head?_cons, Option.map_some] at head
    simp only [advance, standing, read, head, Option.some.injEq, Prod.mk.injEq] at acted
    obtain ⟨rfl, rfl⟩ := acted
    exact ⟨.inl rfl, ⟨[], entry, older, listed, rfl⟩, (fun id same => by cases same)⟩

/-- The read of the history: the tip read before is still on the chain, so the length lies
between its position and the present one. -/
theorem advance_readHistory (s t : Store git) (caller : Caller ObjectId) (pc : Pc ObjectId) (tip : ObjectId)
    (claims : List (Claim ObjectId)) (listed : log s caller.on = .ok claims)
    (standing : caller.pc = .readHistory tip) (snapshot : Snapshot s caller)
    (acted : advance s caller .run = some (t, pc)) : Quiet s t caller pc := by
  simp only [advance, standing, history_of_log s caller.on claims listed, Option.some.injEq,
    Prod.mk.injEq, List.length_map] at acted
  obtain ⟨rfl, rfl⟩ := acted
  unfold Snapshot at snapshot
  simp only [standing] at snapshot
  obtain ⟨newer, entry, older, read, same⟩ := snapshot
  have whole : claims = newer ++ entry :: older := by
    rw [listed] at read
    exact Except.ok.inj read
  have length : claims.length = newer.length + (older.length + 1) := by
    rw [whole, List.length_append, List.length_cons]
  exact ⟨.inl rfl, ⟨newer, entry, older, read, same, by omega, by omega⟩, (fun id same => by cases same)⟩

/-- The publication: it appends the claim with the length of the chain, or it is lost and the
call starts over. -/
theorem advance_publish (s t : Store git) (caller : Caller ObjectId) (pc : Pc ObjectId)
    (current : Option ObjectId) (sequence : Nat) (claims : List (Claim ObjectId))
    (listed : log s caller.on = .ok claims) (standing : caller.pc = .publish current sequence)
    (snapshot : Snapshot s caller) (acted : advance s caller .run = some (t, pc)) :
    Quiet s t caller pc ∨
      ∃ id, pc = .returned (.ok id) ∧ Appended s caller.writer caller.on caller.envelope id t := by
  cases outcome : s.publishPrepared (git.entityName caller.on) current
      (caller.commit git current sequence) rfl with
  | error source =>
    left
    simp only [advance, standing, outcome, Option.some.injEq, Prod.mk.injEq] at acted
    obtain ⟨rfl, rfl⟩ := acted
    exact ⟨.inl rfl, trivial, (fun id same => by cases same)⟩
  | ok publication =>
    right
    obtain ⟨id, after⟩ := publication
    simp only [advance, standing, outcome, Option.some.injEq, Prod.mk.injEq] at acted
    obtain ⟨rfl, rfl⟩ := acted
    obtain ⟨unmoved, named, published⟩ := s.publishPrepared_ok after _ id _ _ _ outcome
    have exact_length := sequence_current s caller current sequence standing snapshot claims listed unmoved
    refine ⟨id, rfl, ⟨sequence, ?_, ?_, ?_⟩⟩
    · rw [exact_length]
      exact readSequence_of_log s caller.on claims listed
    · rw [unmoved]
      exact named
    · rw [unmoved]
      exact published

/-- A publication lost in the backend leaves at most its commit behind. -/
theorem advance_lose (s t : Store git) (caller : Caller ObjectId) (pc : Pc ObjectId) (wrote : Bool)
    (acted : advance s caller (.lose wrote) = some (t, pc)) : Quiet s t caller pc := by
  cases standing : caller.pc with
  | readTip => simp [advance, standing] at acted
  | readHistory tip => simp [advance, standing] at acted
  | returned result => simp [advance, standing] at acted
  | publish current sequence =>
    simp only [advance, standing, Option.some.injEq, Prod.mk.injEq] at acted
    obtain ⟨rfl, rfl⟩ := acted
    refine ⟨?_, trivial, (fun id same => by cases same)⟩
    cases wrote with
    | false => exact .inl rfl
    | true => exact .inr ⟨_, rfl⟩

/-- Everything a step of a call can do: it keeps the store's chains, or it appends the
call's claim, at once, and returns its id. -/
theorem advance_cases (s t : Store git) (caller : Caller ObjectId) (action : Action ObjectId)
    (pc : Pc ObjectId) (claims : List (Claim ObjectId)) (listed : log s caller.on = .ok claims)
    (snapshot : Snapshot s caller) (acted : advance s caller action = some (t, pc)) :
    (∀ id, caller.pc ≠ .returned (.ok id)) ∧ (Quiet s t caller pc ∨
      ∃ id, pc = .returned (.ok id) ∧ Appended s caller.writer caller.on caller.envelope id t) := by
  refine ⟨?_, ?_⟩
  · intro id returned
    simp [advance, returned] at acted
  · cases action with
    | lose wrote => exact .inl (advance_lose s t caller pc wrote acted)
    | fail error =>
      left
      cases standing : caller.pc with
      | returned result => simp [advance, standing] at acted
      | readTip | readHistory | publish =>
        simp only [advance, standing, Option.some.injEq, Prod.mk.injEq] at acted
        obtain ⟨rfl, rfl⟩ := acted
        exact quiet_fail s caller error
    | run =>
      cases standing : caller.pc with
      | returned result => simp [advance, standing] at acted
      | readTip => exact .inl (advance_readTip s t caller pc claims listed standing acted)
      | readHistory tip =>
        exact .inl (advance_readHistory s t caller pc tip claims listed standing snapshot acted)
      | publish current sequence =>
        exact advance_publish s t caller pc current sequence claims listed standing snapshot acted

end GitAnchor.Attest
