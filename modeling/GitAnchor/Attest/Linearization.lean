import GitAnchor.Attest.Interleaving

/-! Interleaved calls against calls one after another. Every store that interleaved calls
leave is one that the calls which returned leave one after another, in the order in which
they returned and with the ids they returned; and what calls do one after another is also
one of their interleavings. -/

namespace GitAnchor.Attest
open GitAnchor.Foundation GitAnchor.Substrate
variable {ObjectId : Type} [DecidableEq ObjectId] {git : Git ObjectId}

/-! What the calls of a run returned. -/

/-- The calls that began, in the order of their callers. -/
def begun : List (System git × Event ObjectId) → List (Call ObjectId)
  | [] => []
  | (_, .begin _ call) :: earlier => begun earlier ++ [call]
  | (_, .act _ _) :: earlier => begun earlier

/-- The call that a step makes return an id, if it does. -/
def answered (calls : List (Call ObjectId)) (system : System git) :
    Event ObjectId → Option (Performed ObjectId)
  | .begin _ _ => none
  | .act i action => do
      let caller ← system.callers[i]?
      let call ← calls[i]?
      match ← advance system.store caller action with
      | (_, .returned (.ok id)) => some { writer := caller.writer, call := call, id := id }
      | _ => none

/-- The calls that returned an id, newest first: each counts at the step it returned in. -/
def landings : List (System git × Event ObjectId) → List (Performed ObjectId)
  | [] => []
  | (system, event) :: earlier => (answered (begun earlier) system event).toList ++ landings earlier

/-- What a caller has to show for its call. -/
def reported (standing : Caller ObjectId × Call ObjectId) : Option (Performed ObjectId) :=
  match standing.1.pc with
  | .returned (.ok id) => some { writer := standing.1.writer, call := standing.2, id := id }
  | _ => none

/-- What every caller has to show, in the order in which the calls began. -/
def results (trace : List (System git × Event ObjectId)) (system : System git) : List (Performed ObjectId) :=
  (system.callers.zip (begun trace)).filterMap reported

/-! Preparing again. -/

omit [DecidableEq ObjectId] in
theorem Store.eq_of_parts (s t : Store git) (objects : s.objects = t.objects) (refs : s.refs = t.refs) : s = t := by
  cases s
  cases t
  simp_all

theorem Store.writeObject_of_find (s : Store git) (object : Object ObjectId)
    (found : s.find (git.objectId object) = some object) : s.writeObject object = s := by
  apply Store.eq_of_parts
  · exact ContentStore.write_of_stored s.objects object (ContentStore.mem_ids_of_find _ _ _ found)
  · rfl

theorem find_key_written (s : Store git) (key : AttestKey) :
    (s.writeObject (.key key)).find (git.objectId (.key key)) = some (.key key) := by
  apply ContentStore.find_write_self git.objectId_injective
  intro linked link
  cases link

/-- What a call has prepared it would prepare again, in any store with these objects, and
change nothing there. -/
theorem Prepared.again {s t ready : Store git} {call : Call ObjectId} {on : Target ObjectId}
    {envelope : Envelope ObjectId} (prepared : Prepared s call on envelope ready)
    (extended : ready.Extends t) : Prepared t call on envelope t := by
  have back := prepared.grows.extended.trans extended
  cases prepared with
  | sign => exact .sign envelope
  | revoke claim key revoked read => exact .revoke claim key revoked (envelopeAt_extends s t back claim revoked read)
  | addKey key =>
    have stored := extended.find _ _ (find_key_written s key)
    have same := Store.writeObject_of_find t (.key key) stored
    have step := Prepared.addKey (s := t) key
    rwa [same] at step
  | rotateKey previous key found read =>
    have stored := extended.find _ _ (find_key_written s key)
    have same := Store.writeObject_of_find t (.key key) stored
    obtain ⟨envelope_read, published, document⟩ := (keyEnvelope_ok s previous found).mp read
    have reread : keyEnvelope t previous = .ok found := (keyEnvelope_ok t previous found).mpr
      ⟨envelopeAt_extends s t back previous found envelope_read, published,
        keyDocument_extends s t back previous found published document⟩
    have step := Prepared.rotateKey (s := t) previous key found reread
    rwa [same] at step

theorem Prepared.prepare_eq {s ready : Store git} {call : Call ObjectId} {on : Target ObjectId}
    {envelope : Envelope ObjectId} (prepared : Prepared s call on envelope ready) :
    prepare s call = .ok (on, envelope, ready) := by
  cases prepared with
  | sign given => rfl
  | revoke claim key revoked read =>
    simp only [prepare, revocation, read]
    rfl
  | addKey key => rfl
  | rotateKey previous key found read =>
    simp only [prepare, read]
    rfl

theorem Prepared.perform_eq {s ready : Store git} {call : Call ObjectId} {on : Target ObjectId}
    {envelope : Envelope ObjectId} (prepared : Prepared s call on envelope ready) (writer : Writer) :
    perform s writer call = append ready writer on envelope := by
  cases prepared with
  | sign given => rfl
  | revoke claim key revoked read =>
    simp only [perform, Attest.revoke, revocation, read]
    rfl
  | addKey key => rfl
  | rotateKey previous key found read =>
    simp only [perform, Attest.rotateKey, read]
    rfl

/-! One call after another over the objects there will be. -/

/-- The refs of a store over the objects of a later one. -/
def Store.over (s : Store git) (objects : ContentStore git.addressing)
    (kept : ∀ id object, s.find id = some object → objects.find id = some object) : Store git where
  objects := objects
  refs := s.refs
  written := by
    intro name id named
    obtain ⟨object, found⟩ := ContentStore.exists_find_of_mem_ids _ _ (s.written name id named)
    exact ContentStore.mem_ids_of_find _ _ _ (kept id object found)

theorem Store.extends_over (s : Store git) (objects : ContentStore git.addressing)
    (kept : ∀ id object, s.find id = some object → objects.find id = some object) :
    s.Extends (s.over objects kept) where
  find := kept
  history name ids read := ⟨[], Store.history_congr s _ name ids rfl
    (fun tip ids walked => ContentStore.walk_of_find s.objects objects kept tip ids walked) read⟩

/-- The chains are read as before. -/
theorem Store.log_over (s : Store git) (objects : ContentStore git.addressing)
    (kept : ∀ id object, s.find id = some object → objects.find id = some object) (on : Target ObjectId)
    (claims : List (Claim ObjectId)) (listed : log s on = .ok claims) :
    log (s.over objects kept) on = .ok claims := by
  obtain ⟨ids, walked, others⟩ := (log_ok s on claims).mp listed
  refine (log_ok _ on claims).mpr ⟨ids, ?_, readClaims_extends s _ (s.extends_over objects kept) ids claims others⟩
  exact Store.history_congr s _ _ ids rfl
    (fun tip ids walked => ContentStore.walk_of_find s.objects objects kept tip ids walked) walked

/-- On a chain that reads back, an append publishes. -/
theorem append_of_log (s : Store git) (writer : Writer) (on : Target ObjectId) (envelope : Envelope ObjectId)
    (claims : List (Claim ObjectId)) (listed : log s on = .ok claims) (commit : Commit ObjectId)
    (written : commit = claimCommit git writer envelope (s.refs (git.entityName on)) claims.length) :
    ∃ t, append s writer on envelope = .ok (git.commitId commit, t) ∧ s.Published (git.entityName on) commit t := by
  subst written
  obtain ⟨t, published⟩ := s.publishPrepared_of_current (git.entityName on) (s.refs (git.entityName on))
    (claimCommit git writer envelope (s.refs (git.entityName on)) claims.length) rfl rfl
  refine ⟨t, ?_, (s.publishPrepared_ok t _ _ _ _ rfl published).2.2⟩
  simp only [append, readRef_of_log s on claims listed, Result.ok_bind, readSequence_of_log s on claims listed,
    published]
  rfl

/-- An append whose claim is among the objects already moves the same ref to it there. -/
theorem append_over (s t : Store git) (writer : Writer) (on : Target ObjectId) (envelope : Envelope ObjectId)
    (id : ObjectId) (appended : Appended s writer on envelope id t) (claims : List (Claim ObjectId))
    (listed : log s on = .ok claims) (objects : ContentStore git.addressing)
    (before : ∀ id object, s.find id = some object → objects.find id = some object)
    (after : ∀ id object, t.find id = some object → objects.find id = some object) :
    append (s.over objects before) writer on envelope = .ok (id, t.over objects after) := by
  obtain ⟨sequence, counted, rfl, published⟩ := appended.published
  rw [readSequence_of_log s on claims listed] at counted
  obtain rfl := Except.ok.inj counted
  obtain ⟨u, appends, publishes⟩ := append_of_log (s.over objects before) writer on envelope claims
    (s.log_over objects before on claims listed) _ rfl
  rw [appends]
  have stored : objects.find (git.commitId _) = some _ := after _ _ published.find_self
  have same : u = t.over objects after := by
    apply Store.eq_of_parts
    · rw [publishes.objects]
      exact ContentStore.write_of_stored objects _ (ContentStore.mem_ids_of_find _ _ _ stored)
    · rw [publishes.refs]
      exact published.refs.symm
  rw [same]
  rfl

/-! From interleaved calls to one call after another. -/

/-- Callers and the calls they run: what each has prepared, it would prepare again. -/
structure Attributed (calls : List (Call ObjectId)) (system : System git) : Prop where
  count : system.callers.length = calls.length
  prepared : ∀ (i : Nat) (caller : Caller ObjectId) (call : Call ObjectId), system.callers[i]? = some caller →
    calls[i]? = some call → Prepared system.store call caller.on caller.envelope system.store

theorem attributed_begin (calls : List (Call ObjectId)) (system : System git) (attributed : Attributed calls system)
    (writer : Writer) (call : Call ObjectId) (on : Target ObjectId) (envelope : Envelope ObjectId)
    (ready : Store git) (prepared : Prepared system.store call on envelope ready) : Attributed (calls ++ [call])
      { store := ready, callers := system.callers ++ [⟨writer, on, envelope, .readTip⟩] } where
  count := by simp [attributed.count]
  prepared i caller run located ran := by
    by_cases earlier : i < system.callers.length
    · rw [List.getElem?_append_left earlier] at located
      rw [List.getElem?_append_left (attributed.count ▸ earlier)] at ran
      exact (attributed.prepared i caller run located ran).again prepared.grows.extended
    · have count := attributed.count
      rw [List.getElem?_append_right (by omega), List.getElem?_singleton] at located
      rw [List.getElem?_append_right (by omega), List.getElem?_singleton, ← count] at ran
      split at located
      · next first =>
        rw [if_pos first] at ran
        obtain rfl := Option.some.inj located
        obtain rfl := Option.some.inj ran
        exact prepared.again (.refl ready)
      · cases located

theorem attributed_act (calls : List (Call ObjectId)) (system : System git) (attributed : Attributed calls system)
    (i : Nat) (caller : Caller ObjectId) (located : system.callers[i]? = some caller) (t : Store git)
    (pc : Pc ObjectId) (grown : system.store.Extends t) :
    Attributed calls { store := t, callers := system.callers.set i { caller with pc := pc } } where
  count := by simp [attributed.count]
  prepared j other run there ran := by
    obtain ⟨bound, _⟩ := List.getElem?_eq_some_iff.mp located
    by_cases same : i = j
    · subst same
      rw [List.getElem?_set_self bound] at there
      obtain rfl := Option.some.inj there
      exact (attributed.prepared i caller run located ran).again grown
    · rw [List.getElem?_set_ne same] at there
      exact (attributed.prepared j other run there ran).again grown

theorem attributed_run (trace : List (System git × Event ObjectId)) (system : System git)
    (run : Run Initial Fires trace system) : Attributed (begun trace) system := by
  induction run with
  | start initial =>
    obtain ⟨_, none_called⟩ := initial
    exact ⟨by rw [none_called]; rfl, by simp [none_called]⟩
  | @next trace system next event run fired ih =>
    rcases fire_cases system next event fired with
      ⟨writer, call, on, envelope, ready, rfl, prepared, rfl⟩ | ⟨i, action, caller, t, pc, rfl, located, acted, rfl⟩
    · exact attributed_begin _ system ih writer call on envelope ready prepared
    · have consistent := run.invariant consistent_initial consistent_fires
      obtain ⟨claims, listed⟩ := consistent.legible caller.on
      have snapshot := consistent.snapshots caller (List.mem_of_getElem? located)
      apply attributed_act _ system ih i caller located t pc
      rcases (advance_cases system.store t caller action pc claims listed snapshot acted).2 with
        quiet | ⟨id, _, appended⟩
      · exact (chains_kept system.store t quiet.kept).1.extended
      · exact appended.extends_store

/-- What a call's step makes it return is read off where the call then stands. -/
theorem answered_act (calls : List (Call ObjectId)) (system : System git) (i : Nat) (action : Action ObjectId)
    (caller : Caller ObjectId) (call : Call ObjectId) (t : Store git) (pc : Pc ObjectId)
    (located : system.callers[i]? = some caller) (ran : calls[i]? = some call)
    (acted : advance system.store caller action = some (t, pc)) :
    answered calls system (.act i action) = reported ({ caller with pc := pc }, call) := by
  simp only [answered, located, ran, acted, Option.bind_eq_bind, Option.bind_some]
  cases pc with
  | readTip | readHistory | publish => rfl
  | returned result =>
    cases result with
    | ok id => rfl
    | error source => rfl

omit [DecidableEq ObjectId] in
theorem reported_silent (caller : Caller ObjectId) (call : Call ObjectId)
    (silent : ∀ id, caller.pc ≠ .returned (.ok id)) : reported (caller, call) = none := by
  unfold reported
  split
  · next id standing => exact absurd standing (silent id)
  · rfl

/-- A step that returns no id changes no ref. -/
theorem Quiet.refs {s t : Store git} {caller : Caller ObjectId} {pc : Pc ObjectId} (quiet : Quiet s t caller pc) :
    t.refs = s.refs := by
  rcases quiet.kept with rfl | ⟨object, rfl⟩
  · rfl
  · rfl

theorem Prepared.refs {s ready : Store git} {call : Call ObjectId} {on : Target ObjectId}
    {envelope : Envelope ObjectId} (prepared : Prepared s call on envelope ready) : ready.refs = s.refs := by
  cases prepared with
  | sign | revoke | addKey | rotateKey => rfl

omit [DecidableEq ObjectId] in
theorem Attributed.call {calls : List (Call ObjectId)} {system : System git} (count : system.callers.length = calls.length)
    (i : Nat) (caller : Caller ObjectId) (located : system.callers[i]? = some caller) : ∃ call, calls[i]? = some call := by
  obtain ⟨bound, _⟩ := List.getElem?_eq_some_iff.mp located
  exact ⟨calls[i], List.getElem?_eq_getElem (count ▸ bound)⟩

/-- A call that lands takes one step over the objects there will be. -/
theorem step_over (s t : Store git) (writer : Writer) (call : Call ObjectId) (on : Target ObjectId)
    (envelope : Envelope ObjectId) (id : ObjectId) (prepared : Prepared s call on envelope s)
    (appended : Appended s writer on envelope id t) (claims : List (Claim ObjectId)) (listed : log s on = .ok claims)
    (objects : ContentStore git.addressing)
    (before : ∀ id object, s.find id = some object → objects.find id = some object)
    (after : ∀ id object, t.find id = some object → objects.find id = some object) :
    Step (s.over objects before) ⟨writer, call, id⟩ (t.over objects after) := by
  have again := prepared.again (s.extends_over objects before)
  unfold Step
  rw [again.perform_eq writer]
  exact append_over s t writer on envelope id appended claims listed objects before after

/-- Over the objects there will be, the calls that returned make the same refs one after
another. -/
theorem sequential_over (trace : List (System git × Event ObjectId)) (system : System git)
    (run : Run Initial Fires trace system) (objects : ContentStore git.addressing)
    (kept : ∀ id object, system.store.find id = some object → objects.find id = some object) :
    ∃ sequential, Run Unclaimed Step sequential (system.store.over objects kept) ∧
      sequential.map Prod.snd = landings trace := by
  induction run with
  | start initial => exact ⟨[], .start initial.1, rfl⟩
  | @next trace system next event run fired ih =>
    rcases fire_cases system next event fired with
      ⟨writer, call, on, envelope, ready, rfl, prepared, rfl⟩ | ⟨i, action, caller, t, pc, rfl, located, acted, rfl⟩
    · have before := fun id object found => kept id object (prepared.grows.extended.find id object found)
      obtain ⟨sequential, earlier, same⟩ := ih before
      refine ⟨sequential, ?_, same⟩
      rwa [Store.eq_of_parts (ready.over objects kept) (system.store.over objects before) rfl prepared.refs]
    · have consistent := run.invariant consistent_initial consistent_fires
      have attributed := attributed_run trace system run
      obtain ⟨claims, listed⟩ := consistent.legible caller.on
      obtain ⟨call, ran⟩ := Attributed.call attributed.count i caller located
      have answer := answered_act (begun trace) system i action caller call t pc located ran acted
      have snapshot := consistent.snapshots caller (List.mem_of_getElem? located)
      rcases (advance_cases system.store t caller action pc claims listed snapshot acted).2 with
        quiet | ⟨id, rfl, appended⟩
      · have grown := (chains_kept system.store t quiet.kept).1.extended
        have before := fun id object found => kept id object (grown.find id object found)
        obtain ⟨sequential, earlier, same⟩ := ih before
        refine ⟨sequential, ?_, ?_⟩
        · rwa [Store.eq_of_parts (t.over objects kept) (system.store.over objects before) rfl quiet.refs]
        · rw [landings, answer, reported_silent _ call quiet.silent, same]
          rfl
      · have before := fun id object found => kept id object (appended.extends_store.find id object found)
        obtain ⟨sequential, earlier, same⟩ := ih before
        have lands := step_over system.store t caller.writer call caller.on caller.envelope id
          (attributed.prepared i caller call located ran) appended claims listed objects before kept
        refine ⟨(_, ⟨caller.writer, call, id⟩) :: sequential, earlier.next lands, ?_⟩
        rw [List.map_cons, same, landings, answer]
        rfl

/-! What callers have to show is what landed. -/

theorem landings_suffix (later earlier : List (System git × Event ObjectId)) :
    ∃ more, landings (later ++ earlier) = more ++ landings earlier := by
  induction later with
  | nil => exact ⟨[], rfl⟩
  | cons taken later ih =>
    obtain ⟨more, same⟩ := ih
    refine ⟨(answered (begun (later ++ earlier)) taken.1 taken.2).toList ++ more, ?_⟩
    rw [List.cons_append, landings, same, List.append_assoc]

omit [DecidableEq ObjectId] in
theorem results_begin (trace : List (System git × Event ObjectId)) (system : System git)
    (count : system.callers.length = (begun trace).length) (writer : Writer) (call : Call ObjectId)
    (on : Target ObjectId) (envelope : Envelope ObjectId) (ready : Store git) :
    results ((system, .begin writer call) :: trace)
      { store := ready, callers := system.callers ++ [⟨writer, on, envelope, .readTip⟩] } = results trace system := by
  simp only [results, begun]
  rw [List.zip_append count, List.filterMap_append]
  exact List.append_nil _

omit [DecidableEq ObjectId] in
theorem results_act (trace : List (System git × Event ObjectId)) (system : System git) (i : Nat)
    (action : Action ObjectId) (caller : Caller ObjectId) (call : Call ObjectId) (t : Store git) (pc : Pc ObjectId)
    (located : system.callers[i]? = some caller) (ran : (begun trace)[i]? = some call)
    (silent : ∀ id, caller.pc ≠ .returned (.ok id)) :
    (results ((system, .act i action) :: trace)
      { store := t, callers := system.callers.set i { caller with pc := pc } }).Perm
        ((reported ({ caller with pc := pc }, call)).toList ++ results trace system) := by
  have standing : (system.callers.zip (begun trace))[i]? = some (caller, call) :=
    List.getElem?_zip_eq_some.mpr ⟨located, ran⟩
  simp only [results, begun, Agents.zip_set system.callers (begun trace) i _ call ran]
  exact Agents.filterMap_set_perm reported _ i _ _ standing (reported_silent caller call silent)

theorem results_perm (trace : List (System git × Event ObjectId)) (system : System git)
    (run : Run Initial Fires trace system) : (results trace system).Perm (landings trace) := by
  induction run with
  | start initial =>
    unfold results
    rw [initial.2]
    exact .refl []
  | @next trace system next event run fired ih =>
    have attributed := attributed_run trace system run
    rcases fire_cases system next event fired with
      ⟨writer, call, on, envelope, ready, rfl, prepared, rfl⟩ | ⟨i, action, caller, t, pc, rfl, located, acted, rfl⟩
    · rw [results_begin trace system attributed.count]
      exact ih
    · obtain ⟨call, ran⟩ := Attributed.call attributed.count i caller located
      have silent (id : ObjectId) : caller.pc ≠ .returned (.ok id) := by
        intro returned
        simp [advance, returned] at acted
      apply (results_act trace system i action caller call t pc located ran silent).trans
      rw [landings, answered_act (begun trace) system i action caller call t pc located ran acted]
      exact ih.append_left _

/-- Interleaved calls are linearizable: one after another, in the order in which they
returned, the calls that returned an id leave the same store and return the same ids. They
start from a store without claims that has all the objects already, for a call that lost a
race leaves a commit behind that no chain has. -/
theorem linearizable (trace : List (System git × Event ObjectId)) (system : System git)
    (run : Run Initial Fires trace system) :
    (∃ sequential, Run Unclaimed Step sequential system.store ∧ sequential.map Prod.snd = landings trace) ∧
      (results trace system).Perm (landings trace) ∧
      ∀ later earlier, trace = later ++ earlier → landings earlier <:+ landings trace := by
  refine ⟨?_, results_perm trace system run, ?_⟩
  · exact sequential_over trace system run system.store.objects (fun _ _ found => found)
  · intro later earlier split
    obtain ⟨more, same⟩ := landings_suffix later earlier
    exact ⟨more, by rw [split, same]⟩

/-- Of two racing calls and a revocation all three land. -/
theorem linearizable_raced : (landings (trailed raced).1).length = 3 ∧
    (∃ sequential, Run Unclaimed Step sequential (trailed raced).2.store ∧
      sequential.map Prod.snd = landings (trailed raced).1) ∧
    (results (trailed raced).1 (trailed raced).2).Perm (landings (trailed raced).1) ∧
    ∀ later earlier, (trailed raced).1 = later ++ earlier → landings earlier <:+ landings (trailed raced).1 :=
  ⟨by decide +kernel, linearizable _ _ (run_trailed raced (by decide +kernel))⟩

/-! From one call after another to interleaved calls. -/

theorem run_act (trace : List (System git × Event ObjectId)) (system : System git)
    (run : Run Initial Fires trace system) (i : Nat) (action : Action ObjectId) (caller : Caller ObjectId)
    (call : Call ObjectId) (located : system.callers[i]? = some caller) (ran : (begun trace)[i]? = some call)
    (t : Store git) (pc : Pc ObjectId) (acted : advance system.store caller action = some (t, pc)) :
    Run Initial Fires ((system, .act i action) :: trace)
        { store := t, callers := system.callers.set i { caller with pc := pc } } ∧
      landings ((system, .act i action) :: trace) =
        (reported ({ caller with pc := pc }, call)).toList ++ landings trace := by
  refine ⟨run.next ?_, ?_⟩
  · simp only [Fires, fire, located, acted, Option.bind_eq_bind, Option.bind_some]
    rfl
  · rw [landings, answered_act (begun trace) system i action caller call t pc located ran acted]

/-- A step of a call that nobody interrupts. -/
def Alone (caller : Caller ObjectId) (before after : Store git × Pc ObjectId) : Prop :=
  advance before.1 { caller with pc := before.2 } .run = some after

/-- A call that nobody interrupts does in its steps what `append` does at once. -/
theorem advances_alone (s t : Store git) (caller : Caller ObjectId) (claims : List (Claim ObjectId))
    (listed : log s caller.on = .ok claims) (id : ObjectId)
    (appends : append s caller.writer caller.on caller.envelope = .ok (id, t)) :
    Relation.ReflTransGen (Alone caller) (s, .readTip) (t, .returned (.ok id)) := by
  have read := readRef_of_log s caller.on claims listed
  have head := refs_of_log s caller.on claims listed
  have publishes : s.publishPrepared (git.entityName caller.on) (s.refs (git.entityName caller.on))
      (caller.commit git (s.refs (git.entityName caller.on)) claims.length) rfl = .ok (id, t) := by
    simp only [append, read, readSequence_of_log s caller.on claims listed, Result.ok_bind] at appends
    unfold Caller.commit
    split at appends
    · next publication same =>
      rw [same]
      rw [Result.pure_eq_ok] at appends
      rw [appends]
    · simp [Result.throw_ne_ok] at appends
  have lands : Alone caller (s, .publish (s.refs (git.entityName caller.on)) claims.length) (t, .returned (.ok id)) := by
    simp only [Alone, advance]
    unfold Caller.commit at publishes ⊢
    simp only [publishes]
  cases claims with
  | nil =>
    have first : Alone caller (s, .readTip) (s, .publish (s.refs (git.entityName caller.on)) 0) := by
      rw [head, List.head?_nil, Option.map_none] at read ⊢
      simp only [Alone, advance, read]
    exact (Relation.ReflTransGen.single first).tail lands
  | cons entry older =>
    have tip : s.refs (git.entityName caller.on) = some entry.id := head
    rw [tip] at read lands
    have first : Alone caller (s, .readTip) (s, .readHistory entry.id) := by simp only [Alone, advance, read]
    have second : Alone caller (s, .readHistory entry.id) (s, .publish (some entry.id) (entry :: older).length) := by
      simp only [Alone, advance, history_of_log s caller.on _ listed, List.length_map]
    exact ((Relation.ReflTransGen.single first).tail second).tail lands

/-- A call that nobody interrupts lands. -/
theorem lands_alone (trace : List (System git × Event ObjectId)) (system : System git)
    (run : Run Initial Fires trace system) (i : Nat) (caller : Caller ObjectId) (call : Call ObjectId)
    (located : system.callers[i]? = some caller) (ran : (begun trace)[i]? = some call) (begins : caller.pc = .readTip)
    (claims : List (Claim ObjectId)) (listed : log system.store caller.on = .ok claims) (id : ObjectId) (t : Store git)
    (appends : append system.store caller.writer caller.on caller.envelope = .ok (id, t)) :
    ∃ more next, Run Initial Fires (more ++ trace) next ∧ next.store = t ∧
      landings (more ++ trace) = ⟨caller.writer, call, id⟩ :: landings trace := by
  have reaches (stands : Store git × Pc ObjectId)
      (steps : Relation.ReflTransGen (Alone caller) (system.store, .readTip) stands) :
      ∃ more next, Run Initial Fires (more ++ trace) next ∧ next.store = stands.1 ∧
        next.callers[i]? = some { caller with pc := stands.2 } ∧ (begun (more ++ trace))[i]? = some call ∧
        landings (more ++ trace) = (reported ({ caller with pc := stands.2 }, call)).toList ++ landings trace := by
    induction steps with
    | refl => exact ⟨[], system, run, rfl, by rw [located, ← begins], ran, rfl⟩
    | @tail before after _ step ih =>
      obtain ⟨more, next, longer, same, there, still, landed⟩ := ih
      obtain ⟨further, lands⟩ := run_act _ next longer i .run _ call there still after.1 after.2 (same ▸ step)
      obtain ⟨bound, _⟩ := List.getElem?_eq_some_iff.mp there
      have waited : reported ({ caller with pc := before.2 }, call) = none := by
        apply reported_silent
        intro other returned
        have ended : before.2 = .returned (.ok other) := returned
        simp [Alone, advance, ended] at step
      refine ⟨(next, .act i .run) :: more, _, further, rfl, List.getElem?_set_self bound, still, ?_⟩
      rw [List.cons_append, lands, landed, waited]
      rfl
  obtain ⟨more, next, longer, same, _, _, landed⟩ :=
    reaches _ (advances_alone system.store t caller claims listed id appends)
  exact ⟨more, next, longer, same, landed⟩

/-- Calls one after another are calls whose steps happen not to interleave. -/
theorem interleaved_of_sequential (sequential : List (Store git × Performed ObjectId)) (s : Store git)
    (run : Run Unclaimed Step sequential s) : ∃ trace system, Run Initial Fires trace system ∧
      system.store = s ∧ landings trace = sequential.map Prod.snd := by
  induction run with
  | @start s initial => exact ⟨[], { store := s, callers := [] }, .start ⟨initial, rfl⟩, rfl, rfl⟩
  | @next sequential s t done run taken ih =>
    obtain ⟨trace, system, interleaved, rfl, same⟩ := ih
    obtain ⟨on, envelope, ready, prepared, appended⟩ := step_cases system.store t done taken
    have attributed := attributed_run trace system interleaved
    have begins : Fires system (.begin done.writer done.call)
        { store := ready, callers := system.callers ++ [⟨done.writer, on, envelope, .readTip⟩] } := by
      simp only [Fires, fire, prepared.prepare_eq]
    obtain ⟨claims, listed⟩ := legible_run _ _ run on
    have appends : append ready done.writer on envelope = .ok (done.id, t) := by
      rw [← prepared.perform_eq done.writer]
      exact taken
    obtain ⟨more, next, longer, there, landed⟩ := lands_alone _ _ (interleaved.next begins) system.callers.length
      ⟨done.writer, on, envelope, .readTip⟩ done.call (by simp) (by simp [begun, attributed.count]) rfl claims
      (prepared.log_eq on claims listed) done.id t appends
    refine ⟨_, next, longer, there, ?_⟩
    rw [landed, List.map_cons, ← same]
    rfl

theorem interleaved_of_sequential_revoked : ∃ trace system, Run Initial Fires trace system ∧
    system.store = revokedOnce.2 ∧ (landings trace).length = 2 := by
  obtain ⟨trace, system, run, reached, same⟩ := interleaved_of_sequential _ _ revoked_run
  exact ⟨trace, system, run, reached, by rw [same]; rfl⟩

end GitAnchor.Attest
