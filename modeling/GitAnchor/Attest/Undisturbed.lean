import GitAnchor.Attest.Processes

/-! A run that nothing comes between does, step by step, what the command does at once. -/

namespace GitAnchor.Attest
open GitAnchor.Foundation GitAnchor.Substrate
variable {ObjectId : Type} [DecidableEq ObjectId] {git : Git ObjectId}

def Errand.command : Errand ObjectId → Command ObjectId
  | .sign args => .sign args
  | .revoke args => .revoke args

/-- The run waits for the call at `i`. -/
def Stage.Waits (stage : Stage ObjectId) (i : Nat) : Prop :=
  stage = .publishing i ∨ ∃ name, stage = .appending name i

/-- What a run that waits for its call does once the call has returned an id. -/
def Stage.after (stage : Stage ObjectId) (id : ObjectId) : Stage ObjectId :=
  match stage with
  | .publishing _ => .keyed ⟨id, true⟩
  | .appending name i => .printed name i id
  | other => other

/-- Nothing but turns of the process at `k`. -/
def OwnTurns (k : Nat) (steps : List (Site git × Happening ObjectId)) : Prop :=
  ∀ taken ∈ steps, taken.2 = .turn k .run

omit [DecidableEq ObjectId] in
theorem OwnTurns.nil (k : Nat) : OwnTurns k ([] : List (Site git × Happening ObjectId)) := nofun

omit [DecidableEq ObjectId] in
theorem OwnTurns.cons {k : Nat} {steps : List (Site git × Happening ObjectId)} (own : OwnTurns k steps) (site : Site git) :
    OwnTurns k ((site, .turn k .run) :: steps) := by
  intro taken member
  rcases List.mem_cons.mp member with rfl | further
  · rfl
  · exact own taken further

omit [DecidableEq ObjectId] in
theorem OwnTurns.append {k : Nat} {steps more : List (Site git × Happening ObjectId)} (own : OwnTurns k steps)
    (also : OwnTurns k more) : OwnTurns k (more ++ steps) := by
  intro taken member
  rcases List.mem_append.mp member with later | earlier
  · exact also taken later
  · exact own taken earlier

section Steps
variable (ssh : SshKey) {init : Site git → Prop} {trace : List (Site git × Happening ObjectId)} (site : Site git)
  (run : Run init (Happens ssh) trace site) (k : Nat) (process : Process ObjectId)
  (located : site.processes[k]? = some process)
include located

theorem happens_turn (system : System git) (stage : Stage ObjectId)
    (took : process.turn ssh site.system .run = some (system, stage)) : Happens ssh site (.turn k .run)
      { system := system, processes := site.processes.set k { process with stage := stage } } := by
  simp only [Happens, Site.happen, located, Option.bind_eq_bind, Option.bind_some, took]
  rfl

/-- A run that waits lets its call take a step. -/
theorem happens_act (i : Nat) (waits : process.stage.Waits i) (caller : Caller ObjectId)
    (there : site.system.callers[i]? = some caller) (t : Store git) (pc : Pc ObjectId)
    (acted : advance site.system.store caller .run = some (t, pc)) : Happens ssh site (.turn k .run)
      { site with system := { store := t, callers := site.system.callers.set i { caller with pc := pc } } } := by
  have running : ∀ result, caller.pc ≠ .returned result := by
    intro result returned
    simp [advance, returned] at acted
  have fired : fire site.system (.act i .run) =
      some { store := t, callers := site.system.callers.set i { caller with pc := pc } } := by
    simp only [fire, there, acted, Option.bind_eq_bind, Option.bind_some]
    rfl
  have waited (done : ObjectId → Stage ObjectId) : await site.system i .run process.stage done =
      some ({ store := t, callers := site.system.callers.set i { caller with pc := pc } }, process.stage) := by
    simp only [await, there, Option.bind_eq_bind, Option.bind_some]
    split
    · next id returned => exact absurd returned (running _)
    · next source returned => exact absurd returned (running _)
    · rw [fired]
      rfl
  have took : process.turn ssh site.system .run =
      some ({ store := t, callers := site.system.callers.set i { caller with pc := pc } }, process.stage) := by
    rcases waits with stands | ⟨name, stands⟩
    · rw [stands] at waited ⊢
      simp only [Process.turn, stands, waited]
    · rw [stands] at waited ⊢
      simp only [Process.turn, stands, waited]
  have happened := happens_turn ssh site k process located _ _ took
  have same : site.processes.set k process = site.processes := by
    apply List.ext_getElem?
    intro j
    by_cases here : k = j
    · subst here
      rw [List.getElem?_set_self (List.getElem?_eq_some_iff.mp located).1, located]
    · rw [List.getElem?_set_ne here]
  rwa [show ({ process with stage := process.stage } : Process ObjectId) = process from rfl, same] at happened

include run

/-- A run that waits for a call that nothing comes between gets what `append` gives. -/
theorem waits_alone (i : Nat) (waits : process.stage.Waits i) (caller : Caller ObjectId)
    (there : site.system.callers[i]? = some caller) (begins : caller.pc = .readTip) (claims : List (Claim ObjectId))
    (listed : log site.system.store caller.on = .ok claims) (id : ObjectId) (t : Store git)
    (appends : append site.system.store caller.writer caller.on caller.envelope = .ok (id, t)) :
    ∃ more next, OwnTurns k more ∧ Run init (Happens ssh) (more ++ trace) next ∧ next.system.store = t ∧
      next.processes = site.processes.set k { process with stage := process.stage.after id } := by
  have reaches (stands : Store git × Pc ObjectId)
      (steps : Relation.ReflTransGen (Alone caller) (site.system.store, .readTip) stands) :
      ∃ more next, OwnTurns k more ∧ Run init (Happens ssh) (more ++ trace) next ∧ next.system.store = stands.1 ∧
        next.system.callers[i]? = some { caller with pc := stands.2 } ∧ next.processes = site.processes := by
    induction steps with
    | refl => exact ⟨[], site, .nil k, run, rfl, by rw [there, ← begins], rfl⟩
    | @tail before after _ step ih =>
      obtain ⟨more, next, own, longer, same, standing, processes⟩ := ih
      have happened := happens_act ssh next k process (processes ▸ located) i waits _ standing after.1 after.2 (same ▸ step)
      exact ⟨_ :: more, _, own.cons next, longer.next happened, rfl,
        List.getElem?_set_self (List.getElem?_eq_some_iff.mp standing).1, processes⟩
  obtain ⟨more, next, own, longer, same, returned, processes⟩ :=
    reaches _ (advances_alone site.system.store t caller claims listed id appends)
  have took : process.turn ssh next.system .run = some (next.system, process.stage.after id) := by
    rcases waits with stands | ⟨name, stands⟩
    · simp only [Process.turn, stands, await, returned, Option.bind_eq_bind, Option.bind_some]
      rfl
    · simp only [Process.turn, stands, await, returned, Option.bind_eq_bind, Option.bind_some]
      rfl
  have happened := happens_turn ssh next k process (processes ▸ located) _ _ took
  exact ⟨_ :: more, _, own.cons next, longer.next happened, same, by rw [processes]⟩

/-- A run that makes a call which nothing comes between gets what the call gives. -/
theorem calls_alone (call : Call ObjectId) (on : Target ObjectId) (envelope : Envelope ObjectId) (ready : Store git)
    (prepared : prepare site.system.store call = .ok (on, envelope, ready)) (waiting : Stage ObjectId)
    (waits : waiting.Waits site.system.callers.length)
    (took : ∀ next, Fires site.system (.begin process.user.writer call) next →
      process.turn ssh site.system .run = some (next, waiting))
    (claims : List (Claim ObjectId)) (listed : log ready on = .ok claims) (id : ObjectId) (t : Store git)
    (appends : append ready process.user.writer on envelope = .ok (id, t)) :
    ∃ more next, OwnTurns k more ∧ Run init (Happens ssh) (more ++ trace) next ∧ next.system.store = t ∧
      next.processes = site.processes.set k { process with stage := waiting.after id } := by
  have fired : Fires site.system (.begin process.user.writer call)
      { store := ready, callers := site.system.callers ++ [⟨process.user.writer, on, envelope, .readTip⟩] } := by
    simp only [Fires, fire, prepared]
  have begun := run.next (happens_turn ssh site k process located _ _ (took _ fired))
  have bound := (List.getElem?_eq_some_iff.mp located).1
  obtain ⟨more, next, own, longer, same, processes⟩ := waits_alone ssh _ begun k { process with stage := waiting }
    (List.getElem?_set_self bound) site.system.callers.length waits ⟨process.user.writer, on, envelope, .readTip⟩ (by simp)
    rfl claims listed id t appends
  refine ⟨more ++ [_], next, ((OwnTurns.nil k).cons site).append own, by rw [List.append_assoc]; exact longer, same, ?_⟩
  rw [processes, List.set_set]

end Steps

/-! A whole run. -/

/-- What a run looks up is what `key_claim` names, where it names one that is there; else the run adds its key. -/
theorem look_of_keyClaim (ssh : SshKey) (s t : Store git) (process : Process ObjectId) (keyId : ObjectId)
    (named : runKeyClaim process.repo ssh s process.user process.errand.key process.errand.machine = (.ok keyId, t)) :
    (look ssh s process = .keyed ⟨keyId, false⟩ ∧ t = s) ∨ ∃ own claims, look ssh s process = .adding own ∧
      log s (keyTarget git own) = .ok claims ∧ addKey s process.user.writer own = .ok (keyId, t) := by
  unfold look
  rcases (runKeyClaim_eq_ok _ ssh s t process.user _ _ keyId).mp named with ⟨found, rfl⟩ | ⟨own, found, adds⟩
  · rw [found]
    exact .inl ⟨rfl, rfl⟩
  · obtain ⟨_, _, claims, listed, _⟩ := findKeyClaim_unpublished _ ssh s _ _ _ own found
    rw [found]
    exact .inr ⟨own, claims, rfl, listed, adds⟩

theorem execute_errand (terminal : Terminal ObjectId) (ssh : SshKey) (s : Store git) (user : User)
    (errand : Errand ObjectId) : execute terminal ssh s user errand.command = printing
      (appending terminal.toRepository ssh s user errand.key errand.machine
        (fun keyId => errand.call terminal.toRepository keyId)) := by
  cases errand <;> rfl

/-- What a command appends is the call of its run, prepared and appended. -/
theorem call_of_execute (terminal : Terminal ObjectId) (ssh : SshKey) (s t : Store git) (user : User)
    (errand : Errand ObjectId) (id : ObjectId)
    (executed : execute terminal ssh s user errand.command = (.ok (.claim id), t)) : ∃ keyId mid call on envelope ready,
      runKeyClaim terminal.toRepository ssh s user errand.key errand.machine = (.ok keyId, mid) ∧
        errand.call terminal.toRepository keyId = .ok call ∧ Prepared mid call on envelope ready ∧
        append ready user.writer on envelope = .ok (id, t) := by
  rw [execute_errand, printing_eq_ok, appending_eq_ok] at executed
  obtain ⟨keyId, mid, call, named, read, taken⟩ := executed
  obtain ⟨on, envelope, ready, prepared, _⟩ := step_cases mid t _ taken
  exact ⟨keyId, mid, call, on, envelope, ready, named, read, prepared, (prepared.perform_eq user.writer).symm.trans taken⟩

/-- A run that has its key claim, and that nothing comes between, prints the claim that its call appends. -/
theorem prints_alone (ssh : SshKey) (trace : List (Site git × Happening ObjectId)) (site : Site git)
    (run : Run Unvisited (Happens ssh) trace site) (k : Nat) (process : Process ObjectId)
    (located : site.processes[k]? = some process) (name : KeyName ObjectId) (stands : process.stage = .keyed name)
    (call : Call ObjectId) (on : Target ObjectId) (envelope : Envelope ObjectId) (ready : Store git)
    (named : process.errand.call process.repo name.id = .ok call)
    (prepared : Prepared site.system.store call on envelope ready) (id : ObjectId) (t : Store git)
    (appends : append ready process.user.writer on envelope = .ok (id, t)) :
    ∃ more next caller, OwnTurns k more ∧ Run Unvisited (Happens ssh) (more ++ trace) next ∧ next.system.store = t ∧
      next.processes = site.processes.set k { process with stage := .printed name caller id } := by
  obtain ⟨claims, listed⟩ := (orderly_run ssh trace site run).consistent.legible on
  have took (next : System git) (fired : Fires site.system (.begin process.user.writer call) next) :
      process.turn ssh site.system .run = some (next, .appending name site.system.callers.length) := by
    have began : fire site.system (.begin process.user.writer call) = some next := fired
    simp only [Process.turn, stands, named, prepared.prepare_eq, began]
    rfl
  obtain ⟨more, next, own, longer, same, processes⟩ := calls_alone ssh site run k process located call on envelope ready
    prepared.prepare_eq _ (.inr ⟨name, rfl⟩) took claims (prepared.log_eq on claims listed) id t appends
  exact ⟨more, next, site.system.callers.length, own, longer, same, processes⟩

/-- A run that looks, and that nothing comes between, has the key claim that `key_claim` names. -/
theorem keyed_alone (ssh : SshKey) (trace : List (Site git × Happening ObjectId)) (site : Site git)
    (run : Run Unvisited (Happens ssh) trace site) (k : Nat) (process : Process ObjectId)
    (located : site.processes[k]? = some process) (stands : process.stage = .looking) (keyId : ObjectId) (t : Store git)
    (named : runKeyClaim process.repo ssh site.system.store process.user process.errand.key process.errand.machine =
      (.ok keyId, t)) :
    ∃ more next added, OwnTurns k more ∧ Run Unvisited (Happens ssh) (more ++ trace) next ∧ next.system.store = t ∧
      next.processes = site.processes.set k { process with stage := .keyed ⟨keyId, added⟩ } := by
  have took : process.turn ssh site.system .run = some (site.system, look ssh site.system.store process) := by
    simp only [Process.turn, stands]
  have looked := run.next (happens_turn ssh site k process located _ _ took)
  rcases look_of_keyClaim ssh site.system.store t process keyId named with
    ⟨found, rfl⟩ | ⟨own, claims, absent, listed, adds⟩
  · rw [found] at looked
    exact ⟨[_], _, false, (OwnTurns.nil k).cons site, looked, rfl, rfl⟩
  · rw [absent] at looked
    have bound := (List.getElem?_eq_some_iff.mp located).1
    have preparing : Prepared site.system.store (.addKey own) (keyTarget git own) (addEnvelope git own) _ := .addKey own
    have adding (next : System git) (fired : Fires site.system (.begin process.user.writer (.addKey own)) next) :
        Process.turn ssh site.system { process with stage := .adding own } .run =
          some (next, .publishing site.system.callers.length) := by
      have began : fire site.system (.begin process.user.writer (.addKey own)) = some next := fired
      simp only [Process.turn, began]
      rfl
    obtain ⟨more, next, turns, longer, same, processes⟩ := calls_alone ssh _ looked k { process with stage := .adding own }
      (List.getElem?_set_self bound) (.addKey own) _ _ _ preparing.prepare_eq _ (.inl rfl) adding claims
      (preparing.log_eq _ claims listed) keyId t adds
    refine ⟨more ++ [_], next, true, ((OwnTurns.nil k).cons site).append turns, by rw [List.append_assoc]; exact longer, same, ?_⟩
    rw [processes, List.set_set]
    rfl

/-- Where a command prints a claim id, its run, started and then given all the turns, prints the
same and leaves the same store. -/
theorem undisturbed_run (ssh : SshKey) (trace : List (Site git × Happening ObjectId)) (site : Site git)
    (run : Run Unvisited (Happens ssh) trace site) (terminal : Terminal ObjectId) (user : User) (errand : Errand ObjectId)
    (id : ObjectId) (t : Store git)
    (executed : execute terminal ssh site.system.store user errand.command = (.ok (.claim id), t)) :
    ∃ turns next name caller, OwnTurns site.processes.length turns ∧
      Run Unvisited (Happens ssh) (turns ++ (site, .start terminal.toRepository user errand) :: trace) next ∧
      next.system.store = t ∧
      next.processes = site.processes ++ [⟨terminal.toRepository, user, errand, .printed name caller id⟩] := by
  obtain ⟨keyId, mid, call, on, envelope, ready, named, aimed, prepared, appends⟩ :=
    call_of_execute terminal ssh site.system.store t user errand id executed
  have started : Run Unvisited (Happens ssh) ((site, .start terminal.toRepository user errand) :: trace)
      { site with processes := site.processes ++ [⟨terminal.toRepository, user, errand, .looking⟩] } := run.next rfl
  obtain ⟨more, keyed, added, own, reached, rfl, processes⟩ := keyed_alone ssh _ _ started site.processes.length
    ⟨terminal.toRepository, user, errand, .looking⟩ List.getElem?_concat_length rfl keyId mid named
  have last (first other : Process ObjectId) : (site.processes ++ [first]).set site.processes.length other =
      site.processes ++ [other] := by
    rw [List.set_append_right _ _ (Nat.le_refl _), Nat.sub_self]
    rfl
  rw [last] at processes
  obtain ⟨further, printed, caller, also, longer, same, there⟩ := prints_alone ssh _ keyed reached site.processes.length
    ⟨terminal.toRepository, user, errand, .keyed ⟨keyId, added⟩⟩ (by rw [processes]; exact List.getElem?_concat_length)
    ⟨keyId, added⟩ rfl call on envelope ready aimed prepared id t appends
  refine ⟨further ++ more, printed, ⟨keyId, added⟩, caller, own.append also, ?_, same, ?_⟩
  · rw [List.append_assoc]
    exact longer
  · rw [there, processes, last]

theorem undisturbed_run_desk : ∃ turns next name caller, OwnTurns 0 turns ∧ Run Unvisited (Happens namedSsh)
      (turns ++ (quiet, .start desk.toRepository aliceUser (.sign (noteArgs none))) :: []) next ∧
    next.system.store = deskSigned ∧ next.processes =
      [⟨desk.toRepository, aliceUser, .sign (noteArgs none), .printed name caller aliceSigned.1⟩] :=
  undisturbed_run namedSsh [] quiet (.start ⟨⟨unclaimed_emptyStore, rfl⟩, rfl⟩) desk aliceUser (.sign (noteArgs none))
    aliceSigned.1 deskSigned (Prod.ext (by decide +kernel) rfl)

end GitAnchor.Attest
