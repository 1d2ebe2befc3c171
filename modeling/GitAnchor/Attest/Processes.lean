import GitAnchor.Attest.Commands
import GitAnchor.Attest.Permanence

/-! Many runs of the command line on one repository. A run that appends looks for its key
claim, publishes its key where it finds none, and then appends; other runs, and other users
of the library, may come between any two of its steps. -/

namespace GitAnchor.Attest
open GitAnchor.Foundation GitAnchor.Substrate

/-- The commands that append. -/
inductive Errand (ObjectId : Type) where
  | sign (args : SignArgs ObjectId)
  | revoke (args : RevokeArgs)

/-- The key claim that a run names, and whether the run itself published it. -/
structure KeyName (ObjectId : Type) where
  id : ObjectId
  added : Bool
  deriving DecidableEq

/-- Where a run stands. While it adds its key or appends its claim it waits for a call of `append`. -/
inductive Stage (ObjectId : Type) where
  | looking
  | adding (own : AttestKey)
  | publishing (caller : Nat)
  | keyed (name : KeyName ObjectId)
  | appending (name : KeyName ObjectId) (caller : Nat)
  | printed (name : KeyName ObjectId) (caller : Nat) (id : ObjectId)
  | failed (failure : CliError ObjectId)

structure Process (ObjectId : Type) where
  repo : Repository ObjectId
  user : User
  errand : Errand ObjectId
  stage : Stage ObjectId

structure Site {ObjectId : Type} (git : Git ObjectId) where
  system : System git
  processes : List (Process ObjectId)

/-- A run starts, takes its next step, or something else uses the library. -/
inductive Happening (ObjectId : Type) where
  | start (repo : Repository ObjectId) (user : User) (errand : Errand ObjectId)
  | turn (process : Nat) (action : Action ObjectId)
  | other (event : Event ObjectId)

variable {ObjectId : Type} [DecidableEq ObjectId] {git : Git ObjectId}

def Errand.key : Errand ObjectId → Option String
  | .sign args => args.key
  | .revoke args => args.key

def Errand.machine : Errand ObjectId → Bool
  | .sign args => args.machine
  | .revoke args => args.machine

/-- The call that a run makes once it has its key claim. -/
def Errand.call (repo : Repository ObjectId) (keyId : ObjectId) : Errand ObjectId → Except (CliError ObjectId) (Call ObjectId)
  | .sign args => signCall repo args keyId
  | .revoke args => revokeCall repo args keyId

/-- `key_claim` up to where it publishes. -/
def look (ssh : SshKey) (s : Store git) (process : Process ObjectId) : Stage ObjectId :=
  match findKeyClaim process.repo ssh s process.user.signing process.errand.key process.errand.machine with
  | .error failure => .failed failure
  | .ok (.claim id) => .keyed ⟨id, false⟩
  | .ok (.unpublished own) => .adding own

/-- The call that a run waits for takes a step, or has returned. -/
def await (system : System git) (i : Nat) (action : Action ObjectId) (waiting : Stage ObjectId)
    (done : ObjectId → Stage ObjectId) : Option (System git × Stage ObjectId) := do
  let caller ← system.callers[i]?
  match caller.pc with
  | .returned (.ok id) => return (system, done id)
  | .returned (.error source) => return (system, .failed (.attest source))
  | _ => do
      let next ← fire system (.act i action)
      return (next, waiting)

def Process.turn (ssh : SshKey) (system : System git) (process : Process ObjectId) (action : Action ObjectId) :
    Option (System git × Stage ObjectId) :=
  match process.stage with
  | .looking => some (system, look ssh system.store process)
  | .adding own => do
      let next ← fire system (.begin process.user.writer (.addKey own))
      return (next, .publishing system.callers.length)
  | .publishing i => await system i action (.publishing i) (fun id => .keyed ⟨id, true⟩)
  | .keyed name =>
      match process.errand.call process.repo name.id with
      | .error failure => some (system, .failed failure)
      | .ok call =>
          match prepare system.store call with
          | .error source => some (system, .failed (.attest source))
          | .ok _ => do
              let next ← fire system (.begin process.user.writer call)
              return (next, .appending name system.callers.length)
  | .appending name i => await system i action (.appending name i) (.printed name i)
  | .printed _ _ _ | .failed _ => none

def Site.happen (ssh : SshKey) (site : Site git) : Happening ObjectId → Option (Site git)
  | .start repo user errand => some { site with processes := site.processes ++ [⟨repo, user, errand, .looking⟩] }
  | .turn i action => do
      let process ← site.processes[i]?
      let (system, stage) ← process.turn ssh site.system action
      return { system := system, processes := site.processes.set i { process with stage := stage } }
  | .other event => do
      let next ← fire site.system event
      return { site with system := next }

def Happens (ssh : SshKey) (site : Site git) (happening : Happening ObjectId) (next : Site git) : Prop :=
  site.happen ssh happening = some next

/-- No claim ref exists and nothing has run. -/
def Unvisited (site : Site git) : Prop := Initial site.system ∧ site.processes = []

/-! What a step does to the calls of the library. -/

/-- A later system: chains have grown, and calls stand where they stood or further on. -/
structure Advanced (system next : System git) : Prop where
  grows : Grows system.store next.store
  located : ∀ (i : Nat) (caller : Caller ObjectId), system.callers[i]? = some caller →
    ∃ pc, next.callers[i]? = some { caller with pc := pc } ∧ (∀ result, caller.pc = .returned result → pc = caller.pc)

theorem Advanced.refl (system : System git) : Advanced system system :=
  ⟨.refl _, fun _ caller located => ⟨caller.pc, located, fun _ _ => rfl⟩⟩

theorem advanced_fires (system next : System git) (event : Event ObjectId) (consistent : Consistent system)
    (fired : Fires system event next) : Advanced system next := by
  refine ⟨fires_grows system next event consistent fired, ?_⟩
  intro j caller located
  rcases fire_cases system next event fired with
    ⟨writer, call, on, envelope, ready, _, _, rfl⟩ | ⟨i, action, mover, t, pc, _, there, acted, rfl⟩
  · obtain ⟨bound, _⟩ := List.getElem?_eq_some_iff.mp located
    exact ⟨caller.pc, (List.getElem?_append_left bound).trans located, fun _ _ => rfl⟩
  · by_cases same : i = j
    · subst same
      obtain rfl := Option.some.inj (located.symm.trans there)
      obtain ⟨bound, _⟩ := List.getElem?_eq_some_iff.mp located
      refine ⟨pc, List.getElem?_set_self bound, ?_⟩
      intro result returned
      simp [advance, returned] at acted
    · exact ⟨caller.pc, (List.getElem?_set_ne same).trans located, fun _ _ => rfl⟩

theorem begin_cases (system next : System git) (writer : Writer) (call : Call ObjectId)
    (fired : Fires system (.begin writer call) next) : ∃ on envelope ready, Prepared system.store call on envelope ready ∧
      next = { store := ready, callers := system.callers ++ [⟨writer, on, envelope, .readTip⟩] } := by
  rcases fire_cases system next _ fired with
    ⟨writer', call', on, envelope, ready, same, prepared, rfl⟩ | ⟨i, action, mover, t, pc, same, _⟩
  · cases same
    exact ⟨on, envelope, ready, prepared, rfl⟩
  · cases same

/-! The key claim that a run names. -/

/-- The claim is on the chain of a key and carries the key's document as its payload, whatever its
labels say. -/
def CarriesKey (ssh : SshKey) (s : Store git) (publicLine : String) (machine : Bool) (id : ObjectId) : Prop :=
  ∃ own claims entry, (AttestKey.fromOpenssh ssh publicLine machine : Result ObjectId AttestKey) = .ok own ∧
    log s (keyTarget git own) = .ok claims ∧ entry ∈ claims ∧ entry.envelope.payload = git.objectId (.key own) ∧
    entry.id = id

theorem CarriesKey.grows {ssh : SshKey} {s t : Store git} {publicLine : String} {machine : Bool} {id : ObjectId}
    (carries : CarriesKey ssh s publicLine machine id) (grown : Grows s t) : CarriesKey ssh t publicLine machine id := by
  obtain ⟨own, claims, entry, parsed, listed, member, same, named⟩ := carries
  obtain ⟨newer, longer⟩ := grown.log _ claims listed
  exact ⟨own, newer ++ claims, entry, parsed, longer, List.mem_append_right newer member, same, named⟩

theorem CarriesKeyFirst.carries {ssh : SshKey} {s : Store git} {publicLine : String} {machine : Bool} {id : ObjectId}
    (first : CarriesKeyFirst ssh s publicLine machine id) : CarriesKey ssh s publicLine machine id := by
  obtain ⟨own, claims, entry, parsed, listed, oldest, named⟩ := first
  obtain ⟨member, same⟩ := List.mem_filter.mp (List.mem_of_getLast? oldest)
  exact ⟨own, claims, entry, parsed, listed, member, of_decide_eq_true same, named⟩

/-- One claim is the first to carry a key. -/
theorem CarriesKeyFirst.unique {ssh : SshKey} {s : Store git} {publicLine : String} {machine : Bool} {id other : ObjectId}
    (one : CarriesKeyFirst ssh s publicLine machine id) (two : CarriesKeyFirst ssh s publicLine machine other) : id = other := by
  obtain ⟨own, claims, entry, parsed, listed, oldest, rfl⟩ := one
  obtain ⟨own', claims', entry', parsed', listed', oldest', rfl⟩ := two
  obtain rfl := Except.ok.inj (parsed.symm.trans parsed')
  obtain rfl := Except.ok.inj (listed.symm.trans listed')
  obtain rfl := Option.some.inj (oldest.symm.trans oldest')
  rfl

/-- A key that a claim carries has a first one to carry it. -/
theorem CarriesKey.elder {ssh : SshKey} {s : Store git} {publicLine : String} {machine : Bool} {id : ObjectId}
    (carries : CarriesKey ssh s publicLine machine id) : ∃ elder, CarriesKeyFirst ssh s publicLine machine elder := by
  obtain ⟨own, claims, entry, parsed, listed, member, same, _⟩ := carries
  cases oldest : (claims.filter (fun claim => claim.envelope.payload = git.objectId (.key own))).getLast? with
  | none => exact absurd same (fresh_of_getLast claims _ oldest entry member)
  | some elder => exact ⟨elder.id, own, claims, elder, parsed, listed, oldest, rfl⟩

/-- How a run came by its key claim: it was given one, found the first that carries its key, or
published it. -/
inductive Names (ssh : SshKey) (s : Store git) (process : Process ObjectId) : KeyName ObjectId → Prop
  | given (hex : String) (id : ObjectId) (answer : Option AttestKey) (asked : process.errand.key = some hex)
      (read : object process.repo hex = .ok id) (resolved : key ssh s id = .ok answer) : Names ssh s process ⟨id, false⟩
  | found (id : ObjectId) (default : process.errand.key = none)
      (first : CarriesKeyFirst ssh s process.user.signing.publicLine process.errand.machine id) :
      Names ssh s process ⟨id, false⟩
  | added (id : ObjectId) (default : process.errand.key = none)
      (carries : CarriesKey ssh s process.user.signing.publicLine process.errand.machine id) : Names ssh s process ⟨id, true⟩

/-- Going on does not change how a run came by its key claim. -/
theorem Names.going_on {ssh : SshKey} {s : Store git} {process : Process ObjectId} {name : KeyName ObjectId}
    (names : Names ssh s process name) (stage : Stage ObjectId) : Names ssh s { process with stage := stage } name := by
  cases names with
  | given hex id answer asked read resolved => exact .given hex id answer asked read resolved
  | found id default first => exact .found id default first
  | added id default carries => exact .added id default carries

theorem Names.grows {ssh : SshKey} {s t : Store git} {process : Process ObjectId} {name : KeyName ObjectId}
    (names : Names ssh s process name) (grown : Grows s t) : Names ssh t process name := by
  cases names with
  | given hex id answer asked read resolved => exact .given hex id answer asked read (key_grows ssh s t grown id answer resolved)
  | found id default first => exact .found id default (first.grows grown)
  | added id default carries => exact .added id default (carries.grows grown)

/-- What looking for the key claim comes to. -/
inductive Looked (ssh : SshKey) (s : Store git) (process : Process ObjectId) : Stage ObjectId → Prop
  | failed (failure : CliError ObjectId) : Looked ssh s process (.failed failure)
  | keyed (id : ObjectId) (names : Names ssh s process ⟨id, false⟩) : Looked ssh s process (.keyed ⟨id, false⟩)
  | adding (own : AttestKey) (claims : List (Claim ObjectId)) (default : process.errand.key = none)
      (parsed : (AttestKey.fromOpenssh ssh process.user.signing.publicLine process.errand.machine :
        Result ObjectId AttestKey) = .ok own)
      (listed : log s (keyTarget git own) = .ok claims)
      (fresh : ∀ claim ∈ claims, claim.envelope.payload ≠ git.objectId (.key own)) : Looked ssh s process (.adding own)

theorem look_looked (ssh : SshKey) (s : Store git) (process : Process ObjectId) :
    Looked ssh s process (look ssh s process) := by
  unfold look
  split
  · exact .failed _
  · next id found =>
    cases asked : process.errand.key with
    | some hex =>
      rw [asked] at found
      obtain ⟨_, answer, read, resolved, same⟩ := (findKeyClaim_given _ ssh s _ hex _ _).mp found
      obtain rfl := KeyFound.claim.inj same
      exact .keyed id (.given hex id answer asked read resolved)
    | none =>
      rw [asked] at found
      exact .keyed id (.found id asked (first_of_findKeyClaim _ ssh s _ _ id found))
  · next own found =>
    obtain ⟨default, parsed, claims, listed, absent⟩ := findKeyClaim_unpublished _ ssh s _ _ _ own found
    exact .adding own claims default parsed listed (fresh_of_getLast claims _ absent)

/-! What a run relies on. -/

/-- The call of `append` that a run waits for. -/
def Stage.caller : Stage ObjectId → Option Nat
  | .publishing i | .appending _ i | .printed _ i _ => some i
  | _ => none

/-- The call at `i` is the one that the run made with its key claim. -/
def Process.Calls (system : System git) (process : Process ObjectId) (name : KeyName ObjectId) (i : Nat)
    (caller : Caller ObjectId) : Prop :=
  system.callers[i]? = some caller ∧ caller.writer = process.user.writer ∧
    ∃ call, process.errand.call process.repo name.id = .ok call ∧
      Prepared system.store call caller.on caller.envelope system.store

/-- The call at `i` publishes the key of the run. -/
def Process.Adds (ssh : SshKey) (system : System git) (process : Process ObjectId) (i : Nat) : Prop :=
  ∃ own caller, process.errand.key = none ∧
    (AttestKey.fromOpenssh ssh process.user.signing.publicLine process.errand.machine : Result ObjectId AttestKey) = .ok own ∧
    system.callers[i]? = some caller ∧ caller.on = keyTarget git own ∧ caller.envelope = addEnvelope git own

/-- Wherever a run stands, its key claim and its call are what they should be. -/
def Process.Sound (ssh : SshKey) (system : System git) (process : Process ObjectId) : Prop :=
  match process.stage with
  | .looking | .failed _ => True
  | .adding own => process.errand.key = none ∧
      (AttestKey.fromOpenssh ssh process.user.signing.publicLine process.errand.machine : Result ObjectId AttestKey) = .ok own
  | .publishing i => process.Adds ssh system i
  | .keyed name => Names ssh system.store process name
  | .appending name i => Names ssh system.store process name ∧ ∃ caller, process.Calls system name i caller
  | .printed name i id => Names ssh system.store process name ∧
      ∃ caller, process.Calls system name i caller ∧ caller.pc = .returned (.ok id)

theorem Process.Sound.advanced {ssh : SshKey} {system next : System git} {process : Process ObjectId}
    (sound : process.Sound ssh system) (advanced : Advanced system next) : process.Sound ssh next := by
  have calls (name : KeyName ObjectId) (i : Nat) (caller : Caller ObjectId) (was : process.Calls system name i caller) :
      ∃ pc, process.Calls next name i { caller with pc := pc } ∧
        ∀ result, caller.pc = .returned result → pc = caller.pc := by
    obtain ⟨located, writer, call, named, prepared⟩ := was
    obtain ⟨pc, there, stays⟩ := advanced.located i caller located
    exact ⟨pc, ⟨there, writer, call, named, prepared.again advanced.grows.extended⟩, stays⟩
  unfold Process.Sound at sound ⊢
  cases stage : process.stage with
  | looking | failed => trivial
  | adding own =>
    rw [stage] at sound
    exact sound
  | publishing i =>
    rw [stage] at sound
    obtain ⟨own, caller, default, parsed, located, on, envelope⟩ := sound
    obtain ⟨pc, there, _⟩ := advanced.located i caller located
    exact ⟨own, _, default, parsed, there, on, envelope⟩
  | keyed name =>
    rw [stage] at sound
    exact sound.grows advanced.grows
  | appending name i =>
    rw [stage] at sound
    obtain ⟨names, caller, was⟩ := sound
    obtain ⟨pc, now, _⟩ := calls name i caller was
    exact ⟨names.grows advanced.grows, _, now⟩
  | printed name i id =>
    rw [stage] at sound
    obtain ⟨names, caller, was, returned⟩ := sound
    obtain ⟨pc, now, stays⟩ := calls name i caller was
    exact ⟨names.grows advanced.grows, _, now, (stays _ returned).trans returned⟩

/-! One step of a run. -/

/-- Waiting for a call: it has returned, or it takes its step. -/
theorem await_cases (system next : System git) (i : Nat) (action : Action ObjectId) (waiting stage : Stage ObjectId)
    (done : ObjectId → Stage ObjectId) (took : await system i action waiting done = some (next, stage)) :
    ∃ caller, system.callers[i]? = some caller ∧
      ((next = system ∧ ((∃ id, caller.pc = .returned (.ok id) ∧ stage = done id) ∨ ∃ failure, stage = .failed failure)) ∨
        (stage = waiting ∧ Fires system (.act i action) next)) := by
  simp only [await, Option.bind_eq_bind, Option.bind_eq_some_iff] at took
  obtain ⟨caller, located, took⟩ := took
  refine ⟨caller, located, ?_⟩
  split at took
  · next id returned =>
    obtain ⟨rfl, rfl⟩ := Prod.mk.inj (Option.some.inj took)
    exact .inl ⟨rfl, .inl ⟨id, returned, rfl⟩⟩
  · obtain ⟨rfl, rfl⟩ := Prod.mk.inj (Option.some.inj took)
    exact .inl ⟨rfl, .inr ⟨_, rfl⟩⟩
  · obtain ⟨moved, fired, same⟩ := Option.bind_eq_some_iff.mp took
    obtain ⟨rfl, rfl⟩ := Prod.mk.inj (Option.some.inj same)
    exact .inr ⟨rfl, fired⟩

/-- All that one step of a run can do. -/
inductive Turned (ssh : SshKey) (system : System git) (process : Process ObjectId) : System git → Stage ObjectId → Prop
  | looks (stage : Stage ObjectId) (stands : process.stage = .looking)
      (looked : Looked ssh system.store process stage) : Turned ssh system process system stage
  | adds (own : AttestKey) (next : System git) (stands : process.stage = .adding own)
      (fired : Fires system (.begin process.user.writer (.addKey own)) next) :
      Turned ssh system process next (.publishing system.callers.length)
  | published (i : Nat) (caller : Caller ObjectId) (id : ObjectId) (stands : process.stage = .publishing i)
      (located : system.callers[i]? = some caller) (returned : caller.pc = .returned (.ok id)) :
      Turned ssh system process system (.keyed ⟨id, true⟩)
  | calls (name : KeyName ObjectId) (call : Call ObjectId) (next : System git) (stands : process.stage = .keyed name)
      (named : process.errand.call process.repo name.id = .ok call)
      (fired : Fires system (.begin process.user.writer call) next) :
      Turned ssh system process next (.appending name system.callers.length)
  | prints (name : KeyName ObjectId) (i : Nat) (caller : Caller ObjectId) (id : ObjectId)
      (stands : process.stage = .appending name i) (located : system.callers[i]? = some caller)
      (returned : caller.pc = .returned (.ok id)) : Turned ssh system process system (.printed name i id)
  | waits (i : Nat) (action : Action ObjectId) (next : System git) (fired : Fires system (.act i action) next) :
      Turned ssh system process next process.stage
  | fails (failure : CliError ObjectId) : Turned ssh system process system (.failed failure)

theorem await_turned {ssh : SshKey} {system next : System git} {process : Process ObjectId} {i : Nat}
    {action : Action ObjectId} {stage : Stage ObjectId} {done : ObjectId → Stage ObjectId}
    (took : await system i action process.stage done = some (next, stage))
    (returns : ∀ caller id, system.callers[i]? = some caller → caller.pc = .returned (.ok id) →
      Turned ssh system process system (done id)) : Turned ssh system process next stage := by
  obtain ⟨caller, located, ⟨rfl, ⟨id, returned, rfl⟩ | ⟨failure, rfl⟩⟩ | ⟨rfl, fired⟩⟩ :=
    await_cases system next i action process.stage stage done took
  · exact returns caller id located returned
  · exact .fails failure
  · exact .waits i action next fired

theorem turn_turned (ssh : SshKey) (system next : System git) (process : Process ObjectId) (action : Action ObjectId)
    (stage : Stage ObjectId) (took : process.turn ssh system action = some (next, stage)) :
    Turned ssh system process next stage := by
  unfold Process.turn at took
  split at took
  · next stands =>
    obtain ⟨rfl, rfl⟩ := Prod.mk.inj (Option.some.inj took)
    exact .looks _ stands (look_looked ssh system.store process)
  · next own stands =>
    obtain ⟨moved, fired, same⟩ := Option.bind_eq_some_iff.mp took
    obtain ⟨rfl, rfl⟩ := Prod.mk.inj (Option.some.inj same)
    exact .adds own moved stands fired
  · next i stands =>
    rw [← stands] at took
    exact await_turned took (fun caller id located returned => .published i caller id stands located returned)
  · next name stands =>
    split at took
    · obtain ⟨rfl, rfl⟩ := Prod.mk.inj (Option.some.inj took)
      exact .fails _
    · next call named =>
      split at took
      · obtain ⟨rfl, rfl⟩ := Prod.mk.inj (Option.some.inj took)
        exact .fails _
      · obtain ⟨moved, fired, same⟩ := Option.bind_eq_some_iff.mp took
        obtain ⟨rfl, rfl⟩ := Prod.mk.inj (Option.some.inj same)
        exact .calls name call moved stands named fired
  · next name i stands =>
    rw [← stands] at took
    exact await_turned took (fun caller id located returned => .prints name i caller id stands located returned)
  · cases took
  · cases took

theorem Turned.fires {ssh : SshKey} {system next : System git} {process : Process ObjectId} {stage : Stage ObjectId}
    (turned : Turned ssh system process next stage) : next = system ∨ ∃ event, Fires system event next := by
  cases turned with
  | looks | published | prints | fails => exact .inl rfl
  | adds own next stands fired => exact .inr ⟨_, fired⟩
  | calls name call next stands named fired => exact .inr ⟨_, fired⟩
  | waits i action next fired => exact .inr ⟨_, fired⟩

theorem Turned.advanced {ssh : SshKey} {system next : System git} {process : Process ObjectId} {stage : Stage ObjectId}
    (turned : Turned ssh system process next stage) (consistent : Consistent system) : Advanced system next := by
  rcases turned.fires with rfl | ⟨event, fired⟩
  · exact .refl next
  · exact advanced_fires system next event consistent fired

theorem Turned.sound {ssh : SshKey} {system next : System git} {process : Process ObjectId} {stage : Stage ObjectId}
    (turned : Turned ssh system process next stage) (consistent : Consistent system) (sound : process.Sound ssh system) :
    Process.Sound ssh next { process with stage := stage } := by
  have advanced := turned.advanced consistent
  cases turned with
  | looks stage stands looked =>
    cases looked with
    | failed failure => trivial
    | keyed id names => exact names.going_on _
    | adding own claims default parsed listed fresh => exact ⟨default, parsed⟩
  | fails failure => trivial
  | waits i action next fired => exact sound.advanced advanced
  | adds own next stands fired =>
    unfold Process.Sound at sound
    rw [stands] at sound
    obtain ⟨default, parsed⟩ := sound
    obtain ⟨on, envelope, ready, prepared, rfl⟩ := begin_cases system next _ _ fired
    cases prepared with
    | addKey => exact ⟨own, ⟨process.user.writer, keyTarget git own, addEnvelope git own, .readTip⟩, default, parsed, by simp, rfl, rfl⟩
  | published i caller id stands located returned =>
    unfold Process.Sound at sound
    rw [stands] at sound
    obtain ⟨own, caller', default, parsed, located', on, envelope⟩ := sound
    obtain rfl := Option.some.inj (located.symm.trans located')
    obtain ⟨claims, listed, _, claim, member, named, carried⟩ :=
      (intact_of_consistent system consistent).landed caller (List.mem_of_getElem? located) id returned
    rw [on] at listed
    refine .added id default ⟨own, claims, claim, parsed, listed, member, ?_, named⟩
    rw [carried, envelope]
    rfl
  | calls name call next stands named fired =>
    unfold Process.Sound at sound
    rw [stands] at sound
    obtain ⟨on, envelope, ready, prepared, rfl⟩ := begin_cases system next _ _ fired
    refine ⟨(Names.grows sound advanced.grows).going_on _, ⟨process.user.writer, on, envelope, .readTip⟩, by simp, rfl, call,
      named, prepared.again (.refl ready)⟩
  | prints name i caller id stands located returned =>
    unfold Process.Sound at sound
    rw [stands] at sound
    obtain ⟨names, caller', was⟩ := sound
    obtain rfl := Option.some.inj (located.symm.trans was.1)
    exact ⟨names.going_on _, caller, was, returned⟩

/-- A run takes no call from another: it keeps its own, or makes a new one. -/
theorem Turned.caller {ssh : SshKey} {system next : System git} {process : Process ObjectId} {stage : Stage ObjectId}
    (turned : Turned ssh system process next stage) (i : Nat) (owned : stage.caller = some i) :
    process.stage.caller = some i ∨ i = system.callers.length := by
  cases turned with
  | looks stage stands looked => cases looked <;> cases owned
  | fails | published => cases owned
  | waits => exact .inl owned
  | adds => exact .inr (Option.some.inj owned).symm
  | calls => exact .inr (Option.some.inj owned).symm
  | prints name j caller id stands =>
    rw [stands]
    exact .inl owned

theorem Process.Sound.caller_lt {ssh : SshKey} {system : System git} {process : Process ObjectId}
    (sound : process.Sound ssh system) (i : Nat) (owned : process.stage.caller = some i) : i < system.callers.length := by
  have located : ∃ caller, system.callers[i]? = some caller := by
    unfold Process.Sound at sound
    cases stage : process.stage with
    | looking | adding | keyed | failed =>
      rw [stage] at owned
      cases owned
    | publishing j =>
      rw [stage] at owned sound
      obtain ⟨own, caller, _, _, located, _⟩ := sound
      exact ⟨caller, Option.some.inj owned ▸ located⟩
    | appending name j =>
      rw [stage] at owned sound
      obtain ⟨_, caller, located, _⟩ := sound
      exact ⟨caller, Option.some.inj owned ▸ located⟩
    | printed name j id =>
      rw [stage] at owned sound
      obtain ⟨_, caller, ⟨located, _⟩, _⟩ := sound
      exact ⟨caller, Option.some.inj owned ▸ located⟩
  obtain ⟨caller, located⟩ := located
  exact (List.getElem?_eq_some_iff.mp located).1

/-! All runs. -/

/-- All that can happen at a site. -/
theorem happen_cases (ssh : SshKey) (site next : Site git) (happening : Happening ObjectId)
    (happened : Happens ssh site happening next) :
    (∃ repo user errand, next = { site with processes := site.processes ++ [⟨repo, user, errand, .looking⟩] }) ∨
      (∃ i process system stage, site.processes[i]? = some process ∧ Turned ssh site.system process system stage ∧
        next = { system := system, processes := site.processes.set i { process with stage := stage } }) ∨
      ∃ event system, Fires site.system event system ∧ next = { site with system := system } := by
  cases happening with
  | start repo user errand => exact .inl ⟨repo, user, errand, (Option.some.inj happened).symm⟩
  | turn i action =>
    obtain ⟨process, located, taken⟩ := Option.bind_eq_some_iff.mp happened
    obtain ⟨⟨system, stage⟩, took, same⟩ := Option.bind_eq_some_iff.mp taken
    exact .inr (.inl ⟨i, process, system, stage, located, turn_turned ssh _ _ process action stage took,
      (Option.some.inj same).symm⟩)
  | other event =>
    obtain ⟨system, fired, same⟩ := Option.bind_eq_some_iff.mp happened
    exact .inr (.inr ⟨event, system, fired, (Option.some.inj same).symm⟩)

theorem happens_fires (ssh : SshKey) (site next : Site git) (happening : Happening ObjectId)
    (happened : Happens ssh site happening next) :
    next.system = site.system ∨ ∃ event, Fires site.system event next.system := by
  rcases happen_cases ssh site next happening happened with
    ⟨repo, user, errand, rfl⟩ | ⟨i, process, system, stage, _, turned, rfl⟩ | ⟨event, system, fired, rfl⟩
  · exact .inl rfl
  · exact turned.fires
  · exact .inr ⟨event, fired⟩

/-- The calls are consistent, every run relies on what holds, and no two runs wait for one call. -/
structure Orderly (ssh : SshKey) (site : Site git) : Prop where
  consistent : Consistent site.system
  sound : ∀ process ∈ site.processes, process.Sound ssh site.system
  apart : Agents.Apart (fun process => process.stage.caller) site.processes

theorem happens_advanced (ssh : SshKey) (site next : Site git) (happening : Happening ObjectId)
    (consistent : Consistent site.system) (happened : Happens ssh site happening next) :
    Consistent next.system ∧ Advanced site.system next.system := by
  rcases happens_fires ssh site next happening happened with same | ⟨event, fired⟩
  · rw [same]
    exact ⟨consistent, .refl _⟩
  · exact ⟨consistent_fires _ event _ consistent fired, advanced_fires _ _ event consistent fired⟩

theorem orderly_happens (ssh : SshKey) (site : Site git) (happening : Happening ObjectId) (next : Site git)
    (orderly : Orderly ssh site) (happened : Happens ssh site happening next) : Orderly ssh next := by
  obtain ⟨consistent, advanced⟩ := happens_advanced ssh site next happening orderly.consistent happened
  have kept : ∀ process ∈ site.processes, process.Sound ssh next.system :=
    fun process member => (orderly.sound process member).advanced advanced
  rcases happen_cases ssh site next happening happened with
    ⟨repo, user, errand, rfl⟩ | ⟨i, process, system, stage, located, turned, rfl⟩ | ⟨event, system, fired, rfl⟩
  · refine ⟨consistent, ?_, ?_⟩
    · intro process member
      rcases List.mem_append.mp member with old | new
      · exact kept process old
      · rw [List.mem_singleton.mp new]
        trivial
    · exact orderly.apart.joined _ _ rfl
  · refine ⟨consistent, ?_, ?_⟩
    · intro other member
      rcases List.mem_or_eq_of_mem_set member with old | rfl
      · exact kept other old
      · exact turned.sound orderly.consistent (orderly.sound process (List.mem_of_getElem? located))
    · apply orderly.apart.changed _ i process _ located
      intro caller now
      refine (turned.caller caller now).imp_right ?_
      rintro rfl other member owns
      exact absurd ((orderly.sound other member).caller_lt _ owns) (Nat.lt_irrefl _)
  · exact ⟨consistent, kept, orderly.apart⟩

theorem orderly_run (ssh : SshKey) (trace : List (Site git × Happening ObjectId)) (site : Site git)
    (run : Run Unvisited (Happens ssh) trace site) : Orderly ssh site := by
  apply run.invariant
  · intro start ⟨initial, idle⟩
    exact ⟨consistent_initial start.system initial, by simp [idle], by simp [Agents.Apart, idle]⟩
  · exact orderly_happens ssh

/-! The calls behind the runs. -/

/-- The call that a run has made with its key claim. -/
def Stage.made : Stage ObjectId → Option (KeyName ObjectId × Nat)
  | .appending name i | .printed name i _ => some (name, i)
  | _ => none

/-- Calls of the library whose interleaving the site is, each run having made its own. -/
structure Behind (calls : List (System git × Event ObjectId)) (site : Site git) : Prop where
  run : Run Initial Fires calls site.system
  made : ∀ process ∈ site.processes, ∀ name i, process.stage.made = some (name, i) →
    ∃ call, process.errand.call process.repo name.id = .ok call ∧ (begun calls)[i]? = some call

omit [DecidableEq ObjectId] in
theorem begun_cons (calls : List (System git × Event ObjectId)) (system : System git) (event : Event ObjectId) :
    ∃ more, begun ((system, event) :: calls) = begun calls ++ more := by
  cases event with
  | begin writer call => exact ⟨[call], rfl⟩
  | act i action => exact ⟨[], (List.append_nil _).symm⟩

/-- An event of the library leaves the calls behind the runs that they were. -/
theorem Behind.fires {calls : List (System git × Event ObjectId)} {site : Site git} (behind : Behind calls site)
    (event : Event ObjectId) (system : System git) (fired : Fires site.system event system) :
    Behind ((site.system, event) :: calls) { site with system := system } where
  run := behind.run.next fired
  made process member name i stands := by
    obtain ⟨call, named, there⟩ := behind.made process member name i stands
    obtain ⟨more, same⟩ := begun_cons calls site.system event
    refine ⟨call, named, ?_⟩
    rw [same, List.getElem?_append_left (List.getElem?_eq_some_iff.mp there).1, there]

/-- A run that goes on to another stage, with the call that it has made there. -/
theorem Behind.going_on {calls : List (System git × Event ObjectId)} {site : Site git} (behind : Behind calls site)
    (k : Nat) (process : Process ObjectId) (stage : Stage ObjectId)
    (own : ∀ name i, stage.made = some (name, i) →
      ∃ call, process.errand.call process.repo name.id = .ok call ∧ (begun calls)[i]? = some call) :
    Behind calls { site with processes := site.processes.set k { process with stage := stage } } where
  run := behind.run
  made other member name i stands := by
    rcases List.mem_or_eq_of_mem_set member with old | rfl
    · exact behind.made other old name i stands
    · exact own name i stands

/-- The key claim that a run has named. -/
def Stage.name : Stage ObjectId → Option (KeyName ObjectId)
  | .keyed name | .appending name _ | .printed name _ _ => some name
  | _ => none

theorem Process.Sound.names {ssh : SshKey} {system : System git} {process : Process ObjectId}
    (sound : process.Sound ssh system) (name : KeyName ObjectId) (named : process.stage.name = some name) :
    Names ssh system.store process name := by
  unfold Process.Sound at sound
  cases stage : process.stage with
  | looking | adding | publishing | failed =>
    rw [stage] at named
    cases named
  | keyed other =>
    rw [stage] at named sound
    exact Option.some.inj named ▸ sound
  | appending other i =>
    rw [stage] at named sound
    exact Option.some.inj named ▸ sound.1
  | printed other i id =>
    rw [stage] at named sound
    exact Option.some.inj named ▸ sound.1

/-- The envelope of the run's call is under the key claim that the run named. -/
theorem key_of_call (s : Store git) (process : Process ObjectId) (keyId : ObjectId) (call : Call ObjectId)
    (named : process.errand.call process.repo keyId = .ok call) (on : Target ObjectId) (envelope : Envelope ObjectId)
    (prepared : Prepared s call on envelope s) : envelope.key = keyId := by
  apply prepared.key_of_under
  cases errand : process.errand with
  | sign args =>
    rw [errand] at named
    exact signCall_under process.repo args keyId call named
  | revoke args =>
    rw [errand] at named
    exact revokeCall_under process.repo args keyId call named

/-- What a run printed is the claim it was asked for, on its chain and under the key claim that
the run named; and no two runs print one claim of a chain. -/
theorem runs_print_own (ssh : SshKey) (trace : List (Site git × Happening ObjectId)) (site : Site git)
    (run : Run Unvisited (Happens ssh) trace site) :
    (∀ process ∈ site.processes, ∀ name i id, process.stage = .printed name i id → ∃ call on claims claim,
      process.errand.call process.repo name.id = .ok call ∧ log site.system.store on = .ok claims ∧ claim ∈ claims ∧
        claim.id = id ∧ claim.envelope.key = name.id ∧
        Prepared site.system.store call on claim.envelope site.system.store) ∧
      ∀ (i j : Nat) (one other : Process ObjectId) (name name' : KeyName ObjectId) (caller caller' : Nat) (id : ObjectId),
        site.processes[i]? = some one → site.processes[j]? = some other → one.stage = .printed name caller id →
        other.stage = .printed name' caller' id →
        (site.system.callers[caller]?).map Caller.on = (site.system.callers[caller']?).map Caller.on → i = j := by
  have orderly := orderly_run ssh trace site run
  have intact := intact_of_consistent site.system orderly.consistent
  have landed (process : Process ObjectId) (member : process ∈ site.processes) (name : KeyName ObjectId) (i : Nat)
      (id : ObjectId) (stands : process.stage = .printed name i id) :
      ∃ caller, process.Calls site.system name i caller ∧ caller.pc = .returned (.ok id) := by
    have sound := orderly.sound process member
    unfold Process.Sound at sound
    rw [stands] at sound
    exact sound.2
  constructor
  · intro process member name i id stands
    obtain ⟨caller, ⟨located, _, call, named, prepared⟩, returned⟩ := landed process member name i id stands
    obtain ⟨claims, listed, _, claim, present, same, carried⟩ :=
      intact.landed caller (List.mem_of_getElem? located) id returned
    rw [← carried] at prepared
    exact ⟨call, caller.on, claims, claim, named, listed, present, same,
      key_of_call _ process name.id call named _ _ prepared, prepared⟩
  · intro i j one other name name' c c' id first second stands stands' together
    obtain ⟨caller, ⟨located, _⟩, returned⟩ := landed one (List.mem_of_getElem? first) name c id stands
    obtain ⟨caller', ⟨located', _⟩, returned'⟩ := landed other (List.mem_of_getElem? second) name' c' id stands'
    rw [located, located'] at together
    have same := intact.apart c c' caller caller' id located located' (Option.some.inj together) returned returned'
    subst same
    exact orderly.apart i j one other c first second (congrArg Stage.caller stands) (congrArg Stage.caller stands')

/-- A run without `--key` signs under a claim that carries its own key, and that is the first of the
key's chain to carry it unless the run published it itself. -/
theorem runs_name_elder (ssh : SshKey) (trace : List (Site git × Happening ObjectId)) (site : Site git)
    (run : Run Unvisited (Happens ssh) trace site) (process : Process ObjectId) (member : process ∈ site.processes)
    (default : process.errand.key = none) (name : KeyName ObjectId) (named : process.stage.name = some name) :
    CarriesKey ssh site.system.store process.user.signing.publicLine process.errand.machine name.id ∧
      ∃ elder, (∀ id, CarriesKeyFirst ssh site.system.store process.user.signing.publicLine process.errand.machine id ↔
        id = elder) ∧ (name.added = false → name.id = elder) := by
  have orderly := orderly_run ssh trace site run
  have names := (orderly.sound process member).names name named
  have only (elder : ObjectId)
      (oldest : CarriesKeyFirst ssh site.system.store process.user.signing.publicLine process.errand.machine elder) (id : ObjectId) :
      CarriesKeyFirst ssh site.system.store process.user.signing.publicLine process.errand.machine id ↔ id = elder :=
    ⟨fun first => first.unique oldest, fun same => same ▸ oldest⟩
  cases names with
  | given hex id answer asked =>
    rw [asked] at default
    cases default
  | found id _ first => exact ⟨first.carries, id, only id first, fun _ => rfl⟩
  | added id _ carries =>
    obtain ⟨elder, oldest⟩ := carries.elder
    exact ⟨carries, elder, only elder oldest, nofun⟩

/-! Runs that look once a claim carries the key. -/

/-- The run has not looked yet, or it has named the key claim without publishing one. -/
def Stage.Follows (elder : ObjectId) : Stage ObjectId → Prop
  | .looking | .failed _ => True
  | .keyed name | .appending name _ | .printed name _ _ => name = ⟨elder, false⟩
  | .adding _ | .publishing _ => False

/-- A run under the key. -/
def Process.Under (process : Process ObjectId) (publicLine : String) (machine : Bool) : Prop :=
  process.errand.key = none ∧ process.user.signing.publicLine = publicLine ∧ process.errand.machine = machine

theorem Turned.follows {ssh : SshKey} {system next : System git} {process : Process ObjectId} {stage : Stage ObjectId}
    (turned : Turned ssh system process next stage) (publicLine : String) (machine : Bool)
    (under : process.Under publicLine machine) (elder : ObjectId)
    (first : CarriesKeyFirst ssh system.store publicLine machine elder) (follows : process.stage.Follows elder) :
    stage.Follows elder := by
  obtain ⟨default, rfl, rfl⟩ := under
  cases turned with
  | fails => trivial
  | waits => exact follows
  | adds own next stands | published i caller id stands =>
    rw [stands] at follows
    exact follows.elim
  | calls name call next stands | prints name i caller id stands =>
    rw [stands] at follows
    exact follows
  | looks stage stands looked =>
    cases looked with
    | failed => trivial
    | keyed id names => cases names with
      | given hex id answer asked =>
        rw [asked] at default
        cases default
      | found id _ oldest => exact congrArg (KeyName.mk · false) (oldest.unique first)
    | adding own claims _ parsed listed fresh =>
      obtain ⟨own', claims', entry, parsed', listed', member, carries, _⟩ := first.carries
      obtain rfl := Except.ok.inj (parsed.symm.trans parsed')
      obtain rfl := Except.ok.inj (listed.symm.trans listed')
      exact fresh entry member carries

/-- Runs that look once a claim of the key's chain carries the key all name the first that does,
whatever runs beside them; none of them publishes the key again. -/
theorem late_runs_agree (ssh : SshKey) (earlier : List (Site git × Happening ObjectId)) (origin : Site git)
    (reached : Run Unvisited (Happens ssh) earlier origin) (publicLine : String) (machine : Bool) (elder : ObjectId)
    (first : CarriesKeyFirst ssh origin.system.store publicLine machine elder)
    (trace : List (Site git × Happening ObjectId)) (site : Site git) (run : Run (· = origin) (Happens ssh) trace site)
    (i : Nat) (process : Process ObjectId) (located : site.processes[i]? = some process)
    (under : process.Under publicLine machine)
    (late : ∀ before, origin.processes[i]? = some before → before.stage = .looking) : process.stage.Follows elder := by
  have everywhere : Consistent site.system ∧ CarriesKeyFirst ssh site.system.store publicLine machine elder ∧
      ∀ process, site.processes[i]? = some process → process.Under publicLine machine → process.stage.Follows elder := by
    apply run.invariant
    · rintro start rfl
      refine ⟨(orderly_run ssh earlier start reached).consistent, first, ?_⟩
      intro before there _
      rw [late before there]
      trivial
    · rintro before happening after ⟨consistent, oldest, following⟩ happened
      obtain ⟨sound, advanced⟩ := happens_advanced ssh before after happening consistent happened
      refine ⟨sound, oldest.grows advanced.grows, ?_⟩
      intro process there under
      rcases happen_cases ssh before after happening happened with
        ⟨repo, user, errand, rfl⟩ | ⟨j, mover, system, stage, found, turned, rfl⟩ | ⟨event, system, fired, rfl⟩
      · rw [List.getElem?_append] at there
        split at there
        · exact following process there under
        · rw [List.getElem?_singleton] at there
          split at there
          · rw [← Option.some.inj there]
            trivial
          · cases there
      · by_cases same : j = i
        · subst same
          rw [List.getElem?_set_self (List.getElem?_eq_some_iff.mp found).1] at there
          obtain rfl := Option.some.inj there
          exact turned.follows publicLine machine under elder oldest (following mover found under)
        · rw [List.getElem?_set_ne same] at there
          exact following process there under
      · exact following process there under
  exact everywhere.2.2 process located under

section Sample

def quiet : Site digestGit := { system := idle, processes := [] }

/-- What happens at a site, where all of it can. -/
def siteAfter (origin : Site digestGit) (happenings : List (Happening Digest)) :
    List (Site digestGit × Happening Digest) × Site digestGit :=
  (Run.trail (Site.happen namedSsh) [] origin happenings).getD ([], origin)

theorem run_siteAfter {init : Site digestGit → Prop} (origin : Site digestGit) (happenings : List (Happening Digest))
    (initial : init origin) (done : (Run.trail (Site.happen namedSsh) [] origin happenings).isSome = true) :
    Run init (Happens namedSsh) (siteAfter origin happenings).1 (siteAfter origin happenings).2 :=
  Run.of_trail_getD (Site.happen namedSsh) origin happenings initial done

/-- Alice signs a note, with the key of the run. -/
def signsNote : Happening Digest := .start desk.toRepository aliceUser (.sign (noteArgs none))

def turns (processes : List Nat) : List (Happening Digest) := processes.map (.turn · .run)

/-- Two runs of Alice look before either has published her key, and both publish it; a third
looks when both have printed. -/
def twins : List (Happening Digest) :=
  [signsNote, signsNote] ++ turns [0, 1, 0, 1, 0, 1, 0, 1, 1, 1, 1, 0, 1, 0, 1, 0, 1, 0, 1, 1, 1, 1, 0, 1] ++
    [signsNote] ++ turns [2, 2, 2, 2, 2, 2]

def twinSite : Site digestGit := (siteAfter quiet twins).2

theorem run_twins : Run Unvisited (Happens namedSsh) (siteAfter quiet twins).1 twinSite :=
  run_siteAfter quiet twins ⟨⟨unclaimed_emptyStore, rfl⟩, rfl⟩ (by decide +kernel)

theorem runs_print_own_twins : twinSite.processes.map (fun process => process.stage.name.map (·.added)) =
      [some true, some true, some false] ∧
    (∀ process ∈ twinSite.processes, ∀ name i id, process.stage = .printed name i id → ∃ call on claims claim,
      process.errand.call process.repo name.id = .ok call ∧ log twinSite.system.store on = .ok claims ∧ claim ∈ claims ∧
        claim.id = id ∧ claim.envelope.key = name.id ∧
        Prepared twinSite.system.store call on claim.envelope twinSite.system.store) :=
  ⟨by decide +kernel, (runs_print_own namedSsh _ twinSite run_twins).1⟩

/-- The third run. -/
def third : Process Digest := twinSite.processes.get ⟨2, by decide +kernel⟩

theorem third_named : third.stage.name = some ⟨rooted.1, false⟩ := by decide +kernel

theorem third_under : third.Under alicePair.publicLine false :=
  ⟨by decide +kernel, by decide +kernel, by decide +kernel⟩

theorem runs_name_elder_twins :
    CarriesKey namedSsh twinSite.system.store third.user.signing.publicLine third.errand.machine rooted.1 ∧
      ∃ elder, (∀ id, CarriesKeyFirst namedSsh twinSite.system.store third.user.signing.publicLine third.errand.machine id ↔
        id = elder) ∧ (false = false → rooted.1 = elder) :=
  runs_name_elder namedSsh _ twinSite run_twins third (List.get_mem _ _) third_under.1 ⟨rooted.1, false⟩ third_named

theorem first_twins : CarriesKeyFirst namedSsh twinSite.system.store alicePair.publicLine false rooted.1 := by
  have names := ((orderly_run namedSsh _ twinSite run_twins).sound third (List.get_mem _ _)).names _ third_named
  obtain ⟨default, line, machine⟩ := third_under
  cases names with
  | given hex id answer asked => exact nomatch default.symm.trans asked
  | found id _ first => rwa [line, machine] at first

/-- A fourth run of Alice looks. -/
def later : List (Happening Digest) := [signsNote] ++ turns [3]

def fourth : Process Digest := (siteAfter twinSite later).2.processes.get ⟨3, by decide +kernel⟩

/-- It names the claim of the first, though the second has one of its own. -/
theorem late_runs_agree_twins : fourth.stage.name = some ⟨rooted.1, false⟩ ∧ fourth.stage.Follows rooted.1 := by
  refine ⟨by decide +kernel, ?_⟩
  apply late_runs_agree namedSsh _ twinSite run_twins alicePair.publicLine false rooted.1 first_twins _ _
    (@run_siteAfter (· = twinSite) twinSite later rfl (by decide +kernel)) 3 fourth (List.getElem?_eq_getElem _)
  · exact ⟨by decide +kernel, by decide +kernel, by decide +kernel⟩
  · intro before there
    have three : twinSite.processes.length = 3 := by decide +kernel
    obtain ⟨inside, _⟩ := List.getElem?_eq_some_iff.mp there
    omega

end Sample

end GitAnchor.Attest
