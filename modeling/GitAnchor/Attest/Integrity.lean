import GitAnchor.Attest.Concurrent

/-! Chain integrity in every interleaving: one linear chain for each target, whose entries
are the returned calls, each once, in some order, with their sequence the distance from the
root. -/

namespace GitAnchor.Attest
open GitAnchor.Foundation GitAnchor.Substrate
variable {ObjectId : Type} [DecidableEq ObjectId] {git : Git ObjectId}

/-- Every claim of a chain is a commit whose only parent is the claim below it and whose
stored sequence is the number of claims below it. -/
def Linear (s : Store git) : List (Claim ObjectId) → Prop
  | [] => True
  | claim :: older =>
      (∃ commit, s.find claim.id = some (.commit commit) ∧
        commit.parents = (older.head?.map Claim.id).toList ∧
        commit.document = .envelope (StoredEnvelope.new claim.envelope older.length)) ∧ Linear s older

theorem linear_extends (s t : Store git) (extended : s.Extends t) (claims : List (Claim ObjectId))
    (linear : Linear s claims) : Linear t claims := by
  induction claims with
  | nil => trivial
  | cons claim older ih =>
    obtain ⟨⟨commit, found, parents, document⟩, below⟩ := linear
    exact ⟨⟨commit, extended.find _ _ found, parents, document⟩, ih below⟩

theorem linear_appended (s t : Store git) (writer : Writer) (on : Target ObjectId)
    (envelope : Envelope ObjectId) (id : ObjectId) (appended : Appended s writer on envelope id t)
    (claims : List (Claim ObjectId)) (listed : log s on = .ok claims) (linear : Linear s claims) :
    Linear t (⟨id, envelope, none⟩ :: claims) := by
  refine ⟨?_, linear_extends s t appended.extends_store claims linear⟩
  obtain ⟨sequence, counted, rfl, published⟩ := appended.published
  rw [readSequence_of_log s on claims listed] at counted
  obtain rfl := Except.ok.inj counted
  refine ⟨_, published.find_self, ?_, rfl⟩
  rw [claimCommit_parents, refs_of_log s on claims listed]

/-- What a call that returned put on `target`, if it appended there. -/
def reportOn (target : Target ObjectId) (caller : Caller ObjectId) :
    Option (ObjectId × Envelope ObjectId) :=
  match caller.pc with
  | .returned (.ok id) => if caller.on = target then some (id, caller.envelope) else none
  | _ => none

def Claim.record (claim : Claim ObjectId) : ObjectId × Envelope ObjectId := (claim.id, claim.envelope)

theorem reportOn_of_not_returned (target : Target ObjectId) (caller : Caller ObjectId)
    (waiting : ∀ id, caller.pc ≠ .returned (.ok id)) : reportOn target caller = none := by
  unfold reportOn
  split
  · rename_i id standing
    exact absurd standing (waiting id)
  · rfl

/-- The chains are linear and hold what the calls returned; what calls have read is true. -/
structure Consistent (system : System git) : Prop where
  chains : ∀ target, ∃ claims, log system.store target = .ok claims ∧ Linear system.store claims ∧
    (claims.map Claim.record).Perm (system.callers.filterMap (reportOn target))
  snapshots : ∀ caller ∈ system.callers, Snapshot system.store caller

theorem consistent_initial (system : System git) (initial : Initial system) : Consistent system := by
  obtain ⟨unclaimed, none_called⟩ := initial
  refine ⟨?_, ?_⟩
  · intro target
    refine ⟨[], ?_, trivial, ?_⟩
    · exact (log_ok system.store target []).mpr
        ⟨[], system.store.history_eq_of_ref_none _ (unclaimed _), rfl⟩
    · rw [none_called]
      exact .refl []
  · rw [none_called]
    simp

/-- A store that only gained objects keeps every chain as it was. -/
theorem chains_kept (s t : Store git) (kept : t = s ∨ ∃ object, t = s.writeObject object) :
    Grows s t ∧ ∀ target claims, log s target = .ok claims → log t target = .ok claims := by
  rcases kept with rfl | ⟨object, rfl⟩
  · exact ⟨.refl _, fun _ _ listed => listed⟩
  · exact ⟨grows_writeObject s object, fun target claims listed => log_writeObject s object target claims listed⟩

omit [DecidableEq ObjectId] in
theorem mem_set (callers : List (Caller ObjectId)) (i : Nat) (caller other : Caller ObjectId)
    (member : other ∈ callers.set i caller) : other ∈ callers ∨ other = caller :=
  List.mem_or_eq_of_mem_set member

/-- A step of one call keeps the system consistent. -/
theorem consistent_act (system : System git) (consistent : Consistent system) (i : Nat)
    (caller : Caller ObjectId) (located : system.callers[i]? = some caller) (action : Action ObjectId)
    (t : Store git) (pc : Pc ObjectId) (acted : advance system.store caller action = some (t, pc)) :
    Consistent { store := t, callers := system.callers.set i { caller with pc := pc } } := by
  have member : caller ∈ system.callers := List.mem_of_getElem? located
  have snapshot := consistent.snapshots caller member
  obtain ⟨own, listed, linear, records⟩ := consistent.chains caller.on
  obtain ⟨waiting, quiet | ⟨id, returned, appended⟩⟩ :=
    advance_cases system.store t caller action pc own listed snapshot acted
  · obtain ⟨kept, standing, silent⟩ := quiet
    obtain ⟨grown, same⟩ := chains_kept system.store t kept
    refine ⟨?_, ?_⟩
    · intro target
      obtain ⟨claims, read, straight, reported⟩ := consistent.chains target
      refine ⟨claims, same target claims read, linear_extends _ _ grown.extended claims straight, ?_⟩
      apply reported.trans
      symm
      exact Agents.filterMap_set_silent (reportOn target) system.callers i caller _ located
        (reportOn_of_not_returned target caller waiting) (reportOn_of_not_returned target _ silent)
    · intro other present
      rcases mem_set system.callers i _ other present with old | rfl
      · exact snapshot_grows _ _ grown other (consistent.snapshots other old)
      · exact snapshot_grows _ _ grown _ standing
  · subst returned
    refine ⟨?_, ?_⟩
    · intro target
      have replaced := Agents.filterMap_set_perm (reportOn target) system.callers i caller
        { caller with pc := .returned (.ok id) } located (reportOn_of_not_returned target caller waiting)
      by_cases here : caller.on = target
      · subst here
        refine ⟨⟨id, caller.envelope, none⟩ :: own, appended.log_self own listed, ?_, ?_⟩
        · exact linear_appended _ _ _ _ _ id appended own listed linear
        · rw [show reportOn caller.on { caller with pc := .returned (.ok id) } = some (id, caller.envelope) by
            simp [reportOn]] at replaced
          exact (records.cons (id, caller.envelope)).trans replaced.symm
      · obtain ⟨claims, read, straight, reported⟩ := consistent.chains target
        refine ⟨claims, appended.log_other target (Ne.symm here) claims read, ?_, ?_⟩
        · exact linear_extends _ _ appended.extends_store claims straight
        · rw [show reportOn target { caller with pc := .returned (.ok id) } = none by
            simp [reportOn, here]] at replaced
          exact reported.trans replaced.symm
    · intro other present
      rcases mem_set system.callers i _ other present with old | rfl
      · exact snapshot_grows _ _ appended.grows other (consistent.snapshots other old)
      · trivial

theorem consistent_begin (system : System git) (consistent : Consistent system) (writer : Writer)
    (call : Call ObjectId) (on : Target ObjectId) (envelope : Envelope ObjectId) (ready : Store git)
    (prepared : Prepared system.store call on envelope ready) :
    Consistent { store := ready, callers := system.callers ++ [⟨writer, on, envelope, .readTip⟩] } := by
  refine ⟨?_, ?_⟩
  · intro target
    obtain ⟨claims, read, straight, reported⟩ := consistent.chains target
    refine ⟨claims, prepared.log_eq target claims read,
      linear_extends _ _ prepared.grows.extended claims straight, ?_⟩
    have silent : [(⟨writer, on, envelope, .readTip⟩ : Caller ObjectId)].filterMap (reportOn target) = [] := rfl
    rw [List.filterMap_append, silent, List.append_nil]
    exact reported
  · intro other present
    rcases List.mem_append.mp present with old | new
    · exact snapshot_grows _ _ prepared.grows other (consistent.snapshots other old)
    · obtain rfl := List.mem_singleton.mp new
      trivial

/-- Everything an event can do to the system. -/
theorem fire_cases (system next : System git) (event : Event ObjectId) (fired : Fires system event next) :
    (∃ writer call on envelope ready, event = .begin writer call ∧
        Prepared system.store call on envelope ready ∧
        next = { store := ready, callers := system.callers ++ [⟨writer, on, envelope, .readTip⟩] }) ∨
      ∃ i action caller t pc, event = .act i action ∧ system.callers[i]? = some caller ∧
        advance system.store caller action = some (t, pc) ∧
        next = { store := t, callers := system.callers.set i { caller with pc := pc } } := by
  cases event with
  | begin writer call =>
    left
    unfold Fires fire at fired
    cases ready : prepare system.store call with
    | error source => simp [ready] at fired
    | ok prepared =>
      obtain ⟨on, envelope, store⟩ := prepared
      simp only [ready, Option.some.injEq] at fired
      exact ⟨writer, call, on, envelope, store, rfl, prepare_ok _ _ _ _ _ ready, fired.symm⟩
  | act i action =>
    right
    simp only [Fires, fire, Option.bind_eq_bind, Option.bind_eq_some_iff, Prod.exists, Option.pure_def,
      Option.some.injEq] at fired
    obtain ⟨caller, located, t, pc, acted, same⟩ := fired
    exact ⟨i, action, caller, t, pc, rfl, located, acted, same.symm⟩

theorem consistent_fires (system : System git) (event : Event ObjectId) (next : System git)
    (consistent : Consistent system) (fired : Fires system event next) : Consistent next := by
  rcases fire_cases system next event fired with
    ⟨writer, call, on, envelope, ready, _, prepared, rfl⟩ | ⟨i, action, caller, t, pc, _, located, acted, rfl⟩
  · exact consistent_begin system consistent writer call on envelope ready prepared
  · exact consistent_act system consistent i caller located action t pc acted

/-! What stands after every run. -/

/-- The integrity of the chains, target by target and call by call. -/
structure Intact (system : System git) : Prop where
  linear : ∀ target, ∃ claims, log system.store target = .ok claims ∧
    system.store.history (git.entityName target) = .ok (claims.map Claim.id) ∧ Linear system.store claims
  landed : ∀ caller ∈ system.callers, ∀ id, caller.pc = .returned (.ok id) → ∃ claims,
    log system.store caller.on = .ok claims ∧ (claims.map Claim.id).count id = 1 ∧
    ∃ claim ∈ claims, claim.id = id ∧ claim.envelope = caller.envelope
  produced : ∀ target claims, log system.store target = .ok claims → ∀ claim ∈ claims,
    ∃ caller ∈ system.callers, caller.pc = .returned (.ok claim.id) ∧ caller.on = target ∧
      caller.envelope = claim.envelope
  apart : ∀ (i j : Nat) (one other : Caller ObjectId) (id : ObjectId), system.callers[i]? = some one →
    system.callers[j]? = some other → one.on = other.on → one.pc = .returned (.ok id) →
    other.pc = .returned (.ok id) → i = j

theorem reportOn_self (caller : Caller ObjectId) (id : ObjectId)
    (returned : caller.pc = .returned (.ok id)) : reportOn caller.on caller = some (id, caller.envelope) := by
  simp [reportOn, returned]

theorem reportOn_eq_some (target : Target ObjectId) (caller : Caller ObjectId)
    (record : ObjectId × Envelope ObjectId) (reported : reportOn target caller = some record) :
    caller.pc = .returned (.ok record.1) ∧ caller.on = target ∧ caller.envelope = record.2 := by
  unfold reportOn at reported
  split at reported
  · rename_i id standing
    split at reported
    · next here =>
      obtain rfl := Option.some.inj reported
      exact ⟨standing, here, rfl⟩
    · cases reported
  · cases reported

/-- The reports on one target tell its calls apart: their ids are those of the chain, which
holds none twice. -/
theorem reports_nodup (system : System git) (consistent : Consistent system) (target : Target ObjectId) :
    ((system.callers.filterMap (reportOn target)).map Prod.fst).Nodup := by
  obtain ⟨claims, listed, _, reported⟩ := consistent.chains target
  have ids : (claims.map Claim.record).map Prod.fst = claims.map Claim.id := by
    rw [List.map_map]
    rfl
  rw [← (reported.map Prod.fst).nodup_iff, ids]
  exact log_nodup system.store target claims listed

theorem intact_of_consistent (system : System git) (consistent : Consistent system) : Intact system where
  linear target := by
    obtain ⟨claims, listed, straight, _⟩ := consistent.chains target
    exact ⟨claims, listed, history_of_log system.store target claims listed, straight⟩
  landed caller member id returned := by
    obtain ⟨claims, listed, _, reported⟩ := consistent.chains caller.on
    have there : (id, caller.envelope) ∈ claims.map Claim.record :=
      reported.mem_iff.mpr (List.mem_filterMap.mpr ⟨caller, member, reportOn_self caller id returned⟩)
    obtain ⟨claim, present, same⟩ := List.mem_map.mp there
    obtain ⟨named, carried⟩ := Prod.mk.inj same
    refine ⟨claims, listed, ?_, claim, present, named, carried⟩
    exact List.count_eq_one_of_mem (log_nodup system.store caller.on claims listed)
      (List.mem_map.mpr ⟨claim, present, named⟩)
  produced target claims listed claim present := by
    obtain ⟨own, read, _, reported⟩ := consistent.chains target
    rw [listed] at read
    obtain rfl := Except.ok.inj read
    obtain ⟨caller, member, report⟩ :=
      List.mem_filterMap.mp (reported.mem_iff.mp (List.mem_map.mpr ⟨claim, present, rfl⟩))
    exact ⟨caller, member, reportOn_eq_some target caller _ report⟩
  apart i j one other id first second together returned again := by
    have once := (reports_nodup system consistent one.on).of_map
    have envelopes : one.envelope = other.envelope := by
      have left := List.mem_filterMap.mpr ⟨one, List.mem_of_getElem? first, reportOn_self one id returned⟩
      have right := List.mem_filterMap.mpr ⟨other, List.mem_of_getElem? second, reportOn_self other id again⟩
      rw [← together] at right
      have same := List.inj_on_of_nodup_map (reports_nodup system consistent one.on) left right rfl
      exact congrArg Prod.snd same
    apply Agents.index_unique (reportOn one.on) system.callers once i j one other (id, one.envelope) first second
    · exact reportOn_self one id returned
    · rw [together, envelopes]
      exact reportOn_self other id again

/-- Whatever a call does, only the chain it appends to can change. -/
theorem elsewhere_unchanged (system next : System git) (consistent : Consistent system)
    (event : Event ObjectId) (fired : Fires system event next) (target : Target ObjectId)
    (elsewhere : ∀ i action caller, event = .act i action → system.callers[i]? = some caller →
      caller.on ≠ target) : log next.store target = log system.store target := by
  obtain ⟨claims, listed, _, _⟩ := consistent.chains target
  rw [listed]
  rcases fire_cases system next event fired with
    ⟨_, _, _, _, _, _, prepared, rfl⟩ | ⟨i, action, caller, t, pc, same, located, acted, rfl⟩
  · exact prepared.log_eq target claims listed
  · obtain ⟨own, read, _, _⟩ := consistent.chains caller.on
    have snapshot := consistent.snapshots caller (List.mem_of_getElem? located)
    obtain ⟨_, quiet | ⟨id, _, appended⟩⟩ :=
      advance_cases system.store t caller action pc own read snapshot acted
    · exact (chains_kept system.store t quiet.kept).2 target claims listed
    · exact appended.log_other target (Ne.symm (elsewhere i action caller same located)) claims listed

end GitAnchor.Attest
