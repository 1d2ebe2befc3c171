import GitAnchor.Attest.Integrity
import GitAnchor.Attest.Revocation

/-! Chains of different targets in every interleaving. Two chains stay apart as long as a
revocation goes to a chain that exists; a revocation of a revocation starts one in a place
that a plain claim can reach as well. -/

namespace GitAnchor.Attest
open GitAnchor.Foundation GitAnchor.Substrate
variable {ObjectId : Type} [DecidableEq ObjectId] {git : Git ObjectId}

/-- A revocation that begins revokes a claim on the chain of that claim's own target. -/
def revokesAtHome (system : System git) : Event ObjectId → Bool
  | .begin _ (.revoke claim _) =>
      match envelopeAt system.store claim with
      | .ok revoked =>
          match log system.store revoked.target with
          | .ok claims => claims.any (·.id = claim)
          | .error _ => false
      | .error _ => true
  | _ => true

theorem revokesAtHome_ok (system : System git) (writer : Writer) (claim key : ObjectId)
    (revoked : Envelope ObjectId) (read : envelopeAt system.store claim = .ok revoked)
    (home : revokesAtHome system (.begin writer (.revoke claim key)) = true) :
    ∃ claims, log system.store revoked.target = .ok claims ∧ claim ∈ claims.map Claim.id := by
  simp only [revokesAtHome, read] at home
  split at home
  · next claims listed =>
    obtain ⟨entry, member, same⟩ := List.any_eq_true.mp home
    exact ⟨claims, listed, List.mem_map.mpr ⟨entry, member, of_decide_eq_true same⟩⟩
  · cases home

/-- The root of every chain is a claim about that chain's target: a call appends elsewhere
only where there is a chain already. -/
structure Rooted (system : System git) : Prop where
  callers : ∀ caller ∈ system.callers, caller.envelope.target = caller.on ∨
    ∃ claims, log system.store caller.on = .ok claims ∧ claims ≠ []
  roots : ∀ target claims, log system.store target = .ok claims →
    ∀ root ∈ claims.getLast?, root.envelope.target = target

theorem Consistent.legible {system : System git} (consistent : Consistent system) : Legible system.store := by
  intro target
  obtain ⟨claims, listed, _, _⟩ := consistent.chains target
  exact ⟨claims, listed⟩

/-- A call that may append where it is going may do so in a later store. -/
theorem Rooted.callers_grows {system : System git} (rooted : Rooted system) (t : Store git)
    (grown : Grows system.store t) (caller : Caller ObjectId) (member : caller ∈ system.callers) :
    caller.envelope.target = caller.on ∨ ∃ claims, log t caller.on = .ok claims ∧ claims ≠ [] := by
  rcases rooted.callers caller member with own | ⟨claims, listed, some⟩
  · exact .inl own
  · obtain ⟨newer, later⟩ := grown.log _ _ listed
    exact .inr ⟨newer ++ claims, later, by simp [some]⟩

/-- Chains that stay as they are keep their roots. -/
theorem Rooted.roots_kept {system : System git} (rooted : Rooted system) (legible : Legible system.store)
    (t : Store git) (target : Target ObjectId)
    (kept : ∀ claims, log system.store target = .ok claims → log t target = .ok claims) (claims : List (Claim ObjectId))
    (read : log t target = .ok claims) : ∀ root ∈ claims.getLast?, root.envelope.target = target := by
  obtain ⟨before, listed⟩ := legible target
  rw [kept before listed] at read
  obtain rfl := Except.ok.inj read
  exact rooted.roots target before listed

theorem rooted_begin (system : System git) (consistent : Consistent system) (rooted : Rooted system) (writer : Writer)
    (call : Call ObjectId) (home : revokesAtHome system (.begin writer call) = true) (on : Target ObjectId)
    (envelope : Envelope ObjectId) (ready : Store git) (prepared : Prepared system.store call on envelope ready) :
    Rooted { store := ready, callers := system.callers ++ [⟨writer, on, envelope, .readTip⟩] } := by
  constructor
  · intro other present
    rcases List.mem_append.mp present with old | new
    · exact rooted.callers_grows ready prepared.grows other old
    · obtain rfl := List.mem_singleton.mp new
      cases prepared with
      | sign => exact .inl rfl
      | addKey => exact .inl rfl
      | rotateKey => exact .inl rfl
      | revoke claim key revoked read =>
        obtain ⟨claims, listed, listing⟩ := revokesAtHome_ok system writer claim key revoked read home
        exact .inr ⟨claims, listed, List.ne_nil_of_mem (List.mem_map.mp listing).choose_spec.1⟩
  · intro target
    exact rooted.roots_kept consistent.legible ready target (prepared.log_eq target)

/-- The claim appended is the root only of a chain that starts with it. -/
theorem Rooted.roots_appended {system : System git} (rooted : Rooted system) (legible : Legible system.store)
    (t : Store git) (caller : Caller ObjectId) (member : caller ∈ system.callers) (id : ObjectId)
    (appended : Appended system.store caller.writer caller.on caller.envelope id t) (target : Target ObjectId)
    (claims : List (Claim ObjectId)) (read : log t target = .ok claims) :
    ∀ root ∈ claims.getLast?, root.envelope.target = target := by
  by_cases here : target = caller.on
  · subst here
    obtain ⟨before, earlier⟩ := legible caller.on
    rw [appended.log_self before earlier] at read
    obtain rfl := Except.ok.inj read
    intro root last
    cases before with
    | cons first older => exact rooted.roots _ _ earlier root (by simpa using last)
    | nil =>
      obtain rfl : _ = root := by simpa using last
      rcases rooted.callers caller member with home | ⟨claims, nonempty, some⟩
      · exact home
      · rw [earlier] at nonempty
        obtain rfl := Except.ok.inj nonempty
        exact absurd rfl some
  · exact rooted.roots_kept legible t target (appended.log_other target here) claims read

theorem rooted_act (system : System git) (consistent : Consistent system) (rooted : Rooted system) (i : Nat)
    (caller : Caller ObjectId) (located : system.callers[i]? = some caller) (action : Action ObjectId)
    (t : Store git) (pc : Pc ObjectId) (acted : advance system.store caller action = some (t, pc)) :
    Rooted { store := t, callers := system.callers.set i { caller with pc := pc } } := by
  have member : caller ∈ system.callers := List.mem_of_getElem? located
  have standing (grown : Grows system.store t) (other : Caller ObjectId)
      (present : other ∈ system.callers.set i { caller with pc := pc }) : other.envelope.target = other.on ∨
        ∃ claims, log t other.on = .ok claims ∧ claims ≠ [] := by
    rcases mem_set system.callers i _ other present with old | rfl
    · exact rooted.callers_grows t grown other old
    · exact rooted.callers_grows t grown caller member
  obtain ⟨own, listed⟩ := consistent.legible caller.on
  obtain ⟨_, quiet | ⟨id, rfl, appended⟩⟩ :=
    advance_cases system.store t caller action pc own listed (consistent.snapshots caller member) acted
  · obtain ⟨grown, kept⟩ := chains_kept system.store t quiet.kept
    exact ⟨standing grown, fun target => rooted.roots_kept consistent.legible t target (kept target)⟩
  · exact ⟨standing appended.grows, rooted.roots_appended consistent.legible t caller member id appended⟩

theorem rooted_fires (system : System git) (event : Event ObjectId) (next : System git)
    (sound : Consistent system ∧ Rooted system) (home : revokesAtHome system event = true)
    (fired : Fires system event next) : Consistent next ∧ Rooted next := by
  obtain ⟨consistent, rooted⟩ := sound
  refine ⟨consistent_fires system event next consistent fired, ?_⟩
  rcases fire_cases system next event fired with
    ⟨writer, call, on, envelope, ready, rfl, prepared, rfl⟩ | ⟨i, action, caller, t, pc, _, located, acted, rfl⟩
  · exact rooted_begin system consistent rooted writer call home on envelope ready prepared
  · exact rooted_act system consistent rooted i caller located action t pc acted

theorem rooted_initial (system : System git) (initial : Initial system) :
    Consistent system ∧ Rooted system := by
  have consistent := consistent_initial system initial
  refine ⟨consistent, ?_, ?_⟩
  · rw [initial.2]
    simp
  · intro target claims read root last
    have empty := (log_ok system.store target []).mpr
      ⟨[], system.store.history_eq_of_ref_none _ (initial.1 _), rfl⟩
    rw [empty] at read
    obtain rfl := Except.ok.inj read
    cases last

/-- Two chains that share a claim share everything below it, so their roots are the same. -/
theorem chains_disjoint (system : System git) (rooted : Rooted system) (first second : Target ObjectId)
    (ones others : List (Claim ObjectId)) (one : log system.store first = .ok ones)
    (other : log system.store second = .ok others) (id : ObjectId) (here : id ∈ ones.map Claim.id)
    (there : id ∈ others.map Claim.id) : first = second := by
  have below (target : Target ObjectId) (claims : List (Claim ObjectId))
      (read : log system.store target = .ok claims) (member : id ∈ claims.map Claim.id) :
      ∃ older, system.store.objects.walk id = some (id :: older) ∧
        ∃ root, claims.getLast? = some root ∧ (id :: older).getLast? = some root.id := by
    obtain ⟨newer, older, split⟩ := List.append_of_mem member
    have walked := history_of_log system.store target claims read
    have nonempty : claims ≠ [] := by
      rintro rfl
      cases member
    refine ⟨older, ?_, claims.getLast nonempty, List.getLast?_eq_some_getLast nonempty, ?_⟩
    · cases named : system.store.refs (git.entityName target) with
      | none =>
        rw [system.store.history_eq_of_ref_none _ named] at walked
        rw [← Except.ok.inj walked] at member
        cases member
      | some tip =>
        rw [system.store.history_ok_iff _ tip named, split] at walked
        exact ContentStore.walk_suffix _ tip id newer older walked
    · have last := congrArg List.getLast? split
      rw [List.getLast?_append, List.getLast?_map, List.getLast?_eq_some_getLast nonempty,
        Option.map_some] at last
      cases end_of : (id :: older).getLast? with
      | none => simp at end_of
      | some bottom =>
        rw [end_of, Option.some_or] at last
        exact last.symm
  obtain ⟨older, walked, root, last, bottom⟩ := below first ones one here
  obtain ⟨older', walked', root', last', bottom'⟩ := below second others other there
  rw [walked] at walked'
  obtain rfl := (List.cons.inj (Option.some.inj walked')).2
  rw [bottom] at bottom'
  have same := Option.some.inj bottom'
  have read := (log_mem system.store first ones one root (List.mem_of_getLast? last)).1
  have read' := (log_mem system.store second others other root' (List.mem_of_getLast? last')).1
  rw [same, read'] at read
  rw [← rooted.roots first ones one root last, ← rooted.roots second others other root' last',
    Except.ok.inj read]

/-- Chain integrity: every target has one linear chain that holds what the calls returned,
the returned ids are pairwise distinct, and a step of a call changes no other chain. -/
structure Integrity (system : System git) : Prop extends Intact system where
  distinct : ∀ (i j : Nat) (one other : Caller ObjectId) (id : ObjectId), system.callers[i]? = some one →
    system.callers[j]? = some other → one.pc = .returned (.ok id) → other.pc = .returned (.ok id) → i = j
  elsewhere : ∀ (event : Event ObjectId) (next : System git), Fires system event next → ∀ target,
    (∀ i action caller, event = .act i action → system.callers[i]? = some caller → caller.on ≠ target) →
    log next.store target = log system.store target

theorem integrity_of_rooted (system : System git) (consistent : Consistent system) (rooted : Rooted system) :
    Integrity system where
  toIntact := intact_of_consistent system consistent
  distinct i j one other id first second returned again := by
    have intact := intact_of_consistent system consistent
    have on_chain (caller : Caller ObjectId) (member : caller ∈ system.callers)
        (done : caller.pc = .returned (.ok id)) :
        ∃ claims, log system.store caller.on = .ok claims ∧ id ∈ claims.map Claim.id := by
      obtain ⟨claims, listed, _, claim, present, named, _⟩ := intact.landed caller member id done
      exact ⟨claims, listed, List.mem_map.mpr ⟨claim, present, named⟩⟩
    obtain ⟨ones, listed, here⟩ := on_chain one (List.mem_of_getElem? first) returned
    obtain ⟨others, read, there⟩ := on_chain other (List.mem_of_getElem? second) again
    have together := chains_disjoint system rooted one.on other.on ones others listed read id here there
    exact intact.apart i j one other id first second together returned again
  elsewhere event next fired := elsewhere_unchanged system next consistent event fired

/-- Whatever the order of their steps, calls that revoke only claims on their own chains
keep every chain. -/
theorem interleaved_integrity (trace : List (System git × Event ObjectId)) (system : System git)
    (run : Run Initial Fires trace system)
    (home : ∀ taken ∈ trace, revokesAtHome taken.1 taken.2 = true) : Integrity system := by
  obtain ⟨consistent, rooted⟩ := run.guarded rooted_initial
    (fun s event t sound met fired => rooted_fires s event t sound met fired) home
  exact integrity_of_rooted system consistent rooted

section Sample

/-- The claim a call returned, if it did. -/
def returnedId (caller : Caller Digest) : Option Digest :=
  match caller.pc with
  | .returned (.ok id) => some id
  | _ => none

theorem returnedId_some (caller : Caller Digest) (id : Digest) (returned : returnedId caller = some id) :
    caller.pc = .returned (.ok id) := by
  unfold returnedId at returned
  split at returned
  · next standing => rw [standing, Option.some.inj returned]
  · cases returned

def idle : System digestGit := { store := emptyStore, callers := [] }

/-- The run that the labels make from no claims. -/
def trailed (events : List (Event Digest)) : List (System digestGit × Event Digest) × System digestGit :=
  (Run.trail fire [] idle events).getD ([], idle)

theorem run_trailed (events : List (Event Digest)) (done : (Run.trail fire [] idle events).isSome = true) :
    Run Initial Fires (trailed events).1 (trailed events).2 :=
  Run.of_trail_getD fire idle events ⟨unclaimed_emptyStore, rfl⟩ done

/-- Two writers race for one ref, the second publishes on its second attempt, and a third
call revokes the first note. -/
def raced : List (Event Digest) :=
  [.begin alice (.sign note), .begin (keyWriter "bob" [50]) (.sign note), .act 0 .run, .act 1 .run,
    .act 0 .run, .act 1 .run, .act 1 .run, .act 1 .run, .act 1 .run,
    .begin alice (.revoke noted.1 (.nat 9)), .act 2 .run, .act 2 .run, .act 2 .run]

theorem interleaved_integrity_raced : (trailed raced).2.callers.all (returnedId · |>.isSome) = true ∧
    Integrity (trailed raced).2 := by
  refine ⟨by decide +kernel, ?_⟩
  have home : (trailed raced).1.all (fun taken => revokesAtHome taken.1 taken.2) = true := by
    decide +kernel
  exact interleaved_integrity _ _ (run_trailed raced (by decide +kernel)) (List.all_eq_true.mp home)

/-- A revocation of a revocation and a plain claim with the same envelope. -/
def doubled : List (Event Digest) :=
  [.begin alice (.sign note), .act 0 .run, .act 0 .run,
    .begin alice (.revoke noted.1 (.nat 9)), .act 1 .run, .act 1 .run, .act 1 .run,
    .begin alice (.revoke revokedOnce.1 (.nat 9)), .act 2 .run, .act 2 .run,
    .begin alice (.sign (revocationEnvelope digestGit revokedOnce.1 (.nat 9))), .act 3 .run, .act 3 .run]

/-- Two calls on two targets return one id: the first claim of either chain is the same
commit, since the revocation is not about the target whose chain it starts. -/
theorem interleaved_not_distinct : ¬ ∀ (trace : List (System digestGit × Event Digest))
    (system : System digestGit), Run Initial Fires trace system →
    ∀ (i j : Nat) (one other : Caller Digest) (id : Digest), system.callers[i]? = some one →
    system.callers[j]? = some other → one.pc = .returned (.ok id) → other.pc = .returned (.ok id) →
    i = j := by
  intro distinct
  have shared (i : Nat) (among : i = 2 ∨ i = 3) : ∃ caller, (trailed doubled).2.callers[i]? = some caller ∧
      caller.pc = .returned (.ok revokedTwice.1) := by
    have reported : (trailed doubled).2.callers[i]?.bind returnedId = some revokedTwice.1 := by
      rcases among with rfl | rfl
      · decide +kernel
      · decide +kernel
    obtain ⟨caller, located, returned⟩ := Option.bind_eq_some_iff.mp reported
    exact ⟨caller, located, returnedId_some caller _ returned⟩
  obtain ⟨one, first, returned⟩ := shared 2 (.inl rfl)
  obtain ⟨other, second, again⟩ := shared 3 (.inr rfl)
  have same := distinct _ _ (run_trailed doubled (by decide +kernel)) 2 3 one other _ first second returned again
  cases same

end Sample

/-- All of it but the distinctness across targets needs no condition on the calls. -/
theorem interleaved_intact (trace : List (System git × Event ObjectId)) (system : System git)
    (run : Run Initial Fires trace system) : Intact system :=
  intact_of_consistent system (run.invariant consistent_initial consistent_fires)

end GitAnchor.Attest
