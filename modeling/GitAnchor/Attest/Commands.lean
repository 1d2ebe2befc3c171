import GitAnchor.Attest.Cli
import GitAnchor.Attest.Linearization

/-! The five commands of the command line, each with the store it leaves, whether or not it
succeeds. A session of commands is a history of calls, and what a session has published of a
key stays the key claim of every later run. -/

namespace GitAnchor.Attest
open GitAnchor.Foundation GitAnchor.Substrate

/-- How a repository reads what is written for an object, and how it writes an object id. -/
structure Terminal (ObjectId : Type) extends Repository ObjectId where
  display : ObjectId → String

structure RevokeArgs where
  claim : String
  key : Option String
  machine : Bool

inductive Command (ObjectId : Type) where
  | sign (args : SignArgs ObjectId)
  | revoke (args : RevokeArgs)
  | verify (claim : String)
  | log (target : TargetArg)
  | resolve (target : TargetArg)

/-- What a command prints: a claim id, a verdict with its exit code, or a chain. -/
inductive Output (ObjectId : Type) where
  | claim (id : ObjectId)
  | verdict (claim : ObjectId) (word : String) (code : Nat)
  | claims (listed : List (Claim ObjectId))
  deriving DecidableEq, Repr

def Verdict.report : Verdict → String × Nat
  | .verified => ("Verified", 0)
  | .badSignature => ("BadSignature", 1)
  | .unknownKeyFormat => ("UnknownKeyFormat", 2)

variable {ObjectId : Type} [DecidableEq ObjectId] {git : Git ObjectId}

/-- The call that `cmd_revoke` makes once it has its key claim. -/
def revokeCall (repo : Repository ObjectId) (args : RevokeArgs) (keyId : ObjectId) :
    Except (CliError ObjectId) (Call ObjectId) := do
  let claim ← object repo args.claim
  return .revoke claim keyId

/-- A command that appends prints the id of its claim. -/
def printing (ran : Except (CliError ObjectId) ObjectId × Store git) :
    Except (CliError ObjectId) (Output ObjectId) × Store git := (ran.1.map .claim, ran.2)

omit [DecidableEq ObjectId] in
theorem printing_eq_ok (ran : Except (CliError ObjectId) ObjectId × Store git) (id : ObjectId) (t : Store git) :
    printing ran = (.ok (.claim id), t) ↔ ran = (.ok id, t) := by
  obtain ⟨outcome, left⟩ := ran
  cases outcome with
  | error failure => simp [printing, Except.map]
  | ok value => simp [printing, Except.map]

def runSign (repo : Repository ObjectId) (ssh : SshKey) (s : Store git) (user : User) (args : SignArgs ObjectId) :
    Except (CliError ObjectId) (Output ObjectId) × Store git :=
  printing (appending repo ssh s user args.key args.machine (signCall repo args))

def runRevoke (repo : Repository ObjectId) (ssh : SshKey) (s : Store git) (user : User) (args : RevokeArgs) :
    Except (CliError ObjectId) (Output ObjectId) × Store git :=
  printing (appending repo ssh s user args.key args.machine (revokeCall repo args))

def runVerify (terminal : Terminal ObjectId) (ssh : SshKey) (s : Store git) (hex : String) :
    Except (CliError ObjectId) (Output ObjectId) := do
  let id ← object terminal.toRepository hex
  let envelope ← (envelopeAt s id).mapError (.context (terminal.display id ++ " is not a claim"))
  let verdict ← (verify ssh s { id := id, envelope := envelope, revokedBy := none }).mapError .attest
  return .verdict id verdict.report.1 verdict.report.2

def execute (terminal : Terminal ObjectId) (ssh : SshKey) (s : Store git) (user : User) :
    Command ObjectId → Except (CliError ObjectId) (Output ObjectId) × Store git
  | .sign args => runSign terminal.toRepository ssh s user args
  | .revoke args => runRevoke terminal.toRepository ssh s user args
  | .verify claim => (runVerify terminal ssh s claim, s)
  | .log arg =>
      (do
        let on ← target terminal.toRepository arg
        let claims ← (log s on).mapError .attest
        return .claims claims, s)
  | .resolve arg =>
      (do
        let on ← target terminal.toRepository arg
        let claims ← (resolve s on).mapError .attest
        return .claims claims, s)

/-- The `--key` and `--machine` of a command that appends. -/
def Command.keyArgs : Command ObjectId → Option (Option String × Bool)
  | .sign args => some (args.key, args.machine)
  | .revoke args => some (args.key, args.machine)
  | _ => none

/-- A command that was run: by whom, in which reading of object names, and what came of it. -/
structure Executed (ObjectId : Type) where
  terminal : Terminal ObjectId
  user : User
  command : Command ObjectId
  outcome : Except (CliError ObjectId) (Output ObjectId)

def Executes (ssh : SshKey) (s : Store git) (done : Executed ObjectId) (t : Store git) : Prop :=
  execute done.terminal ssh s done.user done.command = (done.outcome, t)

/-- The claim id that a command printed, if it did. -/
def shown : Except (CliError ObjectId) (Output ObjectId) → Option ObjectId
  | .ok (.claim id) => some id
  | _ => none

/-- The claim ids that a session printed, newest first. -/
def printed (trace : List (Store git × Executed ObjectId)) : List ObjectId :=
  trace.filterMap (fun taken => shown taken.2.outcome)

/-! All that a command does. -/

/-- What naming a key claim comes to on a store whose chains read back: it fails or finds one,
or publishes the key of the run, of which the store had no claim. -/
inductive KeyNamed (ssh : SshKey) (s : Store git) (user : User) (given : Option String) (machine : Bool) :
    Except (CliError ObjectId) ObjectId → Store git → Prop where
  | failed (failure : CliError ObjectId) : KeyNamed ssh s user given machine (.error failure) s
  | found (id : ObjectId) : KeyNamed ssh s user given machine (.ok id) s
  | added (own : AttestKey) (claims : List (Claim ObjectId)) (id : ObjectId) (t : Store git) (default : given = none)
      (parsed : (AttestKey.fromOpenssh ssh user.signing.publicLine machine : Result ObjectId AttestKey) = .ok own)
      (listed : log s (keyTarget git own) = .ok claims)
      (fresh : ∀ claim ∈ claims, claim.envelope.payload ≠ git.objectId (.key own))
      (adds : addKey s user.writer own = .ok (id, t)) : KeyNamed ssh s user given machine (.ok id) t

theorem KeyNamed.unchanged (ssh : SshKey) (s : Store git) (user : User) (given : Option String) (machine : Bool)
    (outcome : Except (CliError ObjectId) ObjectId) : KeyNamed ssh s user given machine outcome s := by
  cases outcome with
  | error failure => exact .failed failure
  | ok id => exact .found id

theorem addKey_of_log (s : Store git) (writer : Writer) (own : AttestKey) (claims : List (Claim ObjectId))
    (listed : log s (keyTarget git own) = .ok claims) : ∃ id t, addKey s writer own = .ok (id, t) := by
  obtain ⟨t, appends, _⟩ := append_of_log (writeKey s own).2 writer (keyTarget git own) (addEnvelope git own) claims
    (log_writeObject s (.key own) (keyTarget git own) claims listed) _ rfl
  exact ⟨_, t, appends⟩

theorem fresh_of_getLast (claims : List (Claim ObjectId)) (payload : ObjectId)
    (absent : (claims.filter (fun claim => claim.envelope.payload = payload)).getLast? = none) :
    ∀ claim ∈ claims, claim.envelope.payload ≠ payload := by
  intro claim member same
  have nobody := List.filter_eq_nil_iff.mp (List.getLast?_eq_none_iff.mp absent) claim member
  exact nobody (decide_eq_true same)

theorem runKeyClaim_named (repo : Repository ObjectId) (ssh : SshKey) (s : Store git)
    (user : User) (given : Option String) (machine : Bool) : KeyNamed ssh s user given machine
      (runKeyClaim repo ssh s user given machine).1 (runKeyClaim repo ssh s user given machine).2 := by
  unfold runKeyClaim
  split
  · exact .failed _
  · exact .found _
  · next own looked =>
    obtain ⟨default, parsed, claims, listed, absent⟩ := findKeyClaim_unpublished repo ssh s user.signing given machine own looked
    obtain ⟨id, t, adds⟩ := addKey_of_log s user.writer own claims listed
    rw [adds]
    exact .added own claims id t default parsed listed (fresh_of_getLast claims _ absent) adds

/-- All that a command does to a store whose chains read back: it only reads, or it names the
key claim that it was asked for and then, where nothing fails, makes one call whose id it prints. -/
inductive Effect (ssh : SshKey) (s : Store git) (user : User) (asked : Option (Option String × Bool)) :
    Except (CliError ObjectId) (Output ObjectId) → Store git → Prop where
  | reads (outcome : Except (CliError ObjectId) (Output ObjectId)) (silent : shown outcome = none) :
      Effect ssh s user asked outcome s
  | fails (failure : CliError ObjectId) (given : Option String) (machine : Bool) (keys : asked = some (given, machine))
      (keyed : Except (CliError ObjectId) ObjectId) (t : Store git) (named : KeyNamed ssh s user given machine keyed t) :
      Effect ssh s user asked (.error failure) t
  | calls (given : Option String) (machine : Bool) (keys : asked = some (given, machine)) (keyId : ObjectId) (mid : Store git)
      (named : KeyNamed ssh s user given machine (.ok keyId) mid) (call : Call ObjectId) (id : ObjectId) (t : Store git)
      (taken : Step mid ⟨user.writer, call, id⟩ t) : Effect ssh s user asked (.ok (.claim id)) t

omit [DecidableEq ObjectId] in
theorem shown_eq_none (outcome : Except (CliError ObjectId) (Output ObjectId))
    (silent : ∀ id, outcome ≠ .ok (.claim id)) : shown outcome = none := by
  unfold shown
  split
  · next id => exact absurd rfl (silent id)
  · rfl

theorem appending_effect (repo : Repository ObjectId) (ssh : SshKey) (s : Store git) (user : User)
    (given : Option String) (machine : Bool) (read : ObjectId → Except (CliError ObjectId) (Call ObjectId)) :
    Effect ssh s user (some (given, machine)) (printing (appending repo ssh s user given machine read)).1
      (printing (appending repo ssh s user given machine read)).2 := by
  have named := runKeyClaim_named repo ssh s user given machine
  unfold appending
  split
  · next failure t keyed =>
    rw [keyed] at named
    exact .fails failure given machine rfl _ t named
  · next keyId mid keyed =>
    rw [keyed] at named
    split
    · next id t appended =>
      obtain ⟨call, _, taken⟩ := (performCall_eq_ok mid t user (read keyId) id).mp appended
      exact .calls given machine rfl keyId mid named call id t taken
    · next failure _ => exact .fails failure given machine rfl _ mid named

theorem execute_effect (ssh : SshKey) (s t : Store git) (done : Executed ObjectId)
    (ran : Executes ssh s done t) : Effect ssh s done.user done.command.keyArgs done.outcome t := by
  obtain ⟨terminal, user, command, outcome⟩ := done
  unfold Executes at ran
  have first := congrArg Prod.fst ran
  have second := congrArg Prod.snd ran
  simp only at first second
  rw [← first, ← second]
  cases command with
  | sign args => exact appending_effect terminal.toRepository ssh s user args.key args.machine (signCall _ args)
  | revoke args => exact appending_effect terminal.toRepository ssh s user args.key args.machine (revokeCall _ args)
  | verify hex =>
    apply Effect.reads
    apply shown_eq_none
    intro id same
    simp only [execute, runVerify, Result.bind_eq_ok, Result.pure_eq_ok] at same
    obtain ⟨_, _, _, _, _, _, other⟩ := same
    cases other
  | log arg | resolve arg =>
    apply Effect.reads
    apply shown_eq_none
    intro id same
    simp only [execute, Result.bind_eq_ok, Result.pure_eq_ok] at same
    obtain ⟨_, _, _, _, other⟩ := same
    cases other

/-! Sessions. -/

/-- Naming a key claim adds at most its publication to a history. -/
theorem KeyNamed.history {ssh : SshKey} {s t : Store git} {user : User} {given : Option String} {machine : Bool}
    {keyed : Except (CliError ObjectId) ObjectId} (named : KeyNamed ssh s user given machine keyed t)
    (trace : List (Store git × Performed ObjectId)) (run : Run Unclaimed Step trace s) :
    ∃ more, Run Unclaimed Step (more ++ trace) t ∧ ∀ taken ∈ more, ∃ own, taken.2.call = .addKey own := by
  cases named with
  | failed | found => exact ⟨[], run, by simp⟩
  | added own claims id t _ _ _ _ adds =>
    refine ⟨[(s, ⟨user.writer, .addKey own, id⟩)], run.next adds, ?_⟩
    intro taken member
    rw [List.mem_singleton.mp member]
    exact ⟨own, rfl⟩

/-- The oldest entry that qualifies stays the oldest as a chain grows. -/
theorem getLast_filter_append {α : Type} (keep : α → Bool) (newer older : List α) (entry : α)
    (oldest : (older.filter keep).getLast? = some entry) : ((newer ++ older).filter keep).getLast? = some entry := by
  rw [List.filter_append, List.getLast?_append, oldest, Option.some_or]

/-- The claim is the first on the chain of a key that carries the key's document as its payload,
whatever its labels say: a run under the key names it and writes nothing. -/
def CarriesKeyFirst (ssh : SshKey) (s : Store git) (publicLine : String) (machine : Bool) (id : ObjectId) : Prop :=
  ∃ own claims entry, (AttestKey.fromOpenssh ssh publicLine machine : Result ObjectId AttestKey) = .ok own ∧
    log s (keyTarget git own) = .ok claims ∧
    (claims.filter (fun claim => claim.envelope.payload = git.objectId (.key own))).getLast? = some entry ∧
    entry.id = id

theorem CarriesKeyFirst.grows {ssh : SshKey} {s t : Store git} {publicLine : String} {machine : Bool} {id : ObjectId}
    (first : CarriesKeyFirst ssh s publicLine machine id) (grown : Grows s t) :
    CarriesKeyFirst ssh t publicLine machine id := by
  obtain ⟨own, claims, entry, parsed, listed, oldest, same⟩ := first
  obtain ⟨newer, longer⟩ := grown.log _ claims listed
  exact ⟨own, newer ++ claims, entry, parsed, longer, getLast_filter_append _ newer claims entry oldest, same⟩

theorem CarriesKeyFirst.findKeyClaim_eq {ssh : SshKey} {s : Store git} {publicLine : String} {machine : Bool}
    {id : ObjectId} (first : CarriesKeyFirst ssh s publicLine machine id) (repo : Repository ObjectId)
    (signing : SigningKey) (line : signing.publicLine = publicLine) :
    findKeyClaim repo ssh s signing none machine = .ok (.claim id) := by
  obtain ⟨own, claims, entry, parsed, listed, oldest, rfl⟩ := first
  subst line
  refine (findKeyClaim_default repo ssh s signing machine _).mpr ⟨own, claims, parsed, listed, ?_⟩
  rw [oldest]

theorem first_of_findKeyClaim (repo : Repository ObjectId) (ssh : SshKey) (s : Store git) (signing : SigningKey)
    (machine : Bool) (id : ObjectId) (found : findKeyClaim repo ssh s signing none machine = .ok (.claim id)) :
    CarriesKeyFirst ssh s signing.publicLine machine id := by
  obtain ⟨own, claims, parsed, listed, chosen⟩ := (findKeyClaim_default repo ssh s signing machine _).mp found
  split at chosen
  · next entry oldest => exact ⟨own, claims, entry, parsed, listed, oldest, (KeyFound.claim.inj chosen).symm⟩
  · cases chosen

/-- Whatever a run without `--key` has named is the first to carry its key. -/
theorem first_of_runKeyClaim (repo : Repository ObjectId) (ssh : SshKey) (s t : Store git) (user : User)
    (machine : Bool) (id : ObjectId) (ok : runKeyClaim repo ssh s user none machine = (.ok id, t)) :
    CarriesKeyFirst ssh t user.signing.publicLine machine id := by
  rcases (runKeyClaim_eq_ok repo ssh s t user none machine id).mp ok with ⟨found, rfl⟩ | ⟨own, found, published⟩
  · exact first_of_findKeyClaim repo ssh t user.signing machine id found
  · obtain ⟨_, parsed, claims, read, absent⟩ := findKeyClaim_unpublished repo ssh s user.signing none machine own found
    have landing := append_ok _ _ _ _ _ _ published
    have listed := landing.log_self claims (log_writeObject s (.key own) (keyTarget git own) claims read)
    refine ⟨own, _, ⟨id, addEnvelope git own, none⟩, parsed, listed, ?_, rfl⟩
    have own_payload : (addEnvelope git own).payload = git.objectId (.key own) := rfl
    rw [List.filter_cons_of_pos (by simp [own_payload]), List.getLast?_cons, absent]
    rfl

/-! A command only adds to a store. -/

theorem KeyNamed.grows {ssh : SshKey} {s t : Store git} {user : User} {given : Option String} {machine : Bool}
    {keyed : Except (CliError ObjectId) ObjectId} (named : KeyNamed ssh s user given machine keyed t) : Grows s t := by
  cases named with
  | failed | found => exact .refl s
  | added own claims id t _ _ _ _ adds => exact step_grows s ⟨user.writer, .addKey own, id⟩ t adds

theorem Effect.grows {ssh : SshKey} {s t : Store git} {user : User} {asked : Option (Option String × Bool)}
    {outcome : Except (CliError ObjectId) (Output ObjectId)} (effect : Effect ssh s user asked outcome t) : Grows s t := by
  cases effect with
  | reads => exact .refl s
  | fails _ _ _ _ _ _ named => exact named.grows
  | calls _ _ _ _ mid named call id _ taken => exact named.grows.trans (step_grows mid ⟨user.writer, call, id⟩ t taken)

theorem session_grows (ssh : SshKey) (s : Store git) (trace : List (Store git × Executed ObjectId)) (t : Store git)
    (run : Run (· = s) (Executes ssh) trace t) : Grows s t :=
  run.relates Grows.refl (fun _ _ _ first second => first.trans second)
    (fun s done t ran => (execute_effect ssh s t done ran).grows)

/-! The key claim that a command signs under. -/

/-- The call appends a claim under the key claim. -/
def Call.Under (keyId : ObjectId) : Call ObjectId → Prop
  | .sign envelope => envelope.key = keyId
  | .revoke _ by_key => by_key = keyId
  | .addKey _ | .rotateKey _ _ => False

theorem Prepared.key_of_under {s ready : Store git} {call : Call ObjectId} {on : Target ObjectId}
    {envelope : Envelope ObjectId} (prepared : Prepared s call on envelope ready) (keyId : ObjectId)
    (under : call.Under keyId) : envelope.key = keyId := by
  cases prepared with
  | sign => exact under
  | revoke => exact under
  | addKey => exact under.elim
  | rotateKey => exact under.elim

omit [DecidableEq ObjectId] in
theorem signCall_under (repo : Repository ObjectId) (args : SignArgs ObjectId) (keyId : ObjectId) (call : Call ObjectId)
    (read : signCall repo args keyId = .ok call) : call.Under keyId := by
  simp only [signCall, Result.bind_eq_ok, Result.pure_eq_ok] at read
  obtain ⟨_, _, _, _, rfl⟩ := read
  rfl

omit [DecidableEq ObjectId] in
theorem revokeCall_under (repo : Repository ObjectId) (args : RevokeArgs) (keyId : ObjectId) (call : Call ObjectId)
    (read : revokeCall repo args keyId = .ok call) : call.Under keyId := by
  simp only [revokeCall, Result.bind_eq_ok, Result.pure_eq_ok] at read
  obtain ⟨_, _, rfl⟩ := read
  rfl

/-- The claim that a command prints is appended under the key claim that the command named. -/
theorem appending_under (repo : Repository ObjectId) (ssh : SshKey) (s mid t : Store git) (user : User)
    (given : Option String) (machine : Bool) (read : ObjectId → Except (CliError ObjectId) (Call ObjectId))
    (keyId claim : ObjectId) (named : runKeyClaim repo ssh s user given machine = (.ok keyId, mid))
    (under : ∀ call, read keyId = .ok call → call.Under keyId)
    (ran : printing (appending repo ssh s user given machine read) = (.ok (.claim claim), t)) :
    ∃ on envelope ready, envelope.key = keyId ∧ Grows mid ready ∧ Appended ready user.writer on envelope claim t := by
  obtain ⟨_, _, call, named', asked, taken⟩ := (appending_eq_ok repo ssh s t user given machine read claim).mp
    ((printing_eq_ok _ claim t).mp ran)
  rw [named] at named'
  obtain ⟨⟨⟩, rfl⟩ := Prod.mk.inj named'
  obtain ⟨on, envelope, ready, prepared, appended⟩ := step_cases mid t _ taken
  exact ⟨on, envelope, ready, prepared.key_of_under keyId (under call asked), prepared.grows, appended⟩

/-- One key, one claim: once a run without `--key` has named its key claim, every later run
with that key names the same and publishes nothing first, whatever was run in between; so all
that it signs or revokes is under that claim. -/
theorem keyClaim_settled (ssh : SshKey) (repo : Repository ObjectId) (s : Store git) (user : User) (machine : Bool)
    (id : ObjectId) (t : Store git) (named : runKeyClaim repo ssh s user none machine = (.ok id, t))
    (trace : List (Store git × Executed ObjectId)) (u : Store git) (run : Run (· = t) (Executes ssh) trace u)
    (other : Repository ObjectId) (again : User) (same : again.signing.publicLine = user.signing.publicLine) :
    runKeyClaim other ssh u again none machine = (.ok id, u) ∧
      (∀ args : SignArgs ObjectId, args.key = none → args.machine = machine → ∀ claim v,
        runSign other ssh u again args = (.ok (.claim claim), v) →
        ∃ envelope, envelopeAt v claim = .ok envelope ∧ envelope.key = id) ∧
      ∀ args : RevokeArgs, args.key = none → args.machine = machine → ∀ claim v,
        runRevoke other ssh u again args = (.ok (.claim claim), v) →
        ∃ envelope, envelopeAt v claim = .ok envelope ∧ envelope.key = id := by
  have first := (first_of_runKeyClaim repo ssh s t user machine id named).grows (session_grows ssh t trace u run)
  have settled : runKeyClaim other ssh u again none machine = (.ok id, u) :=
    (runKeyClaim_eq_ok other ssh u u again none machine id).mpr (.inl ⟨first.findKeyClaim_eq other again.signing same, rfl⟩)
  refine ⟨settled, ?_, ?_⟩
  · rintro args default rfl claim v signed
    rw [runSign, default] at signed
    obtain ⟨_, envelope, _, under, _, appended⟩ :=
      appending_under other ssh u u v again none args.machine _ id claim settled (signCall_under other args id) signed
    exact ⟨envelope, appended.envelopeAt_self, under⟩
  · rintro args default rfl claim v revoked
    rw [runRevoke, default] at revoked
    obtain ⟨_, envelope, _, under, _, appended⟩ :=
      appending_under other ssh u u v again none args.machine _ id claim settled (revokeCall_under other args id) revoked
    exact ⟨envelope, appended.envelopeAt_self, under⟩

/-! Commands that print no claim id. -/

/-- The store has one claim more: the first to carry the key of a run, which had no `--key`. -/
def FirstOfKey (ssh : SshKey) (s : Store git) (user : User) (machine : Bool) (t : Store git) : Prop :=
  ∃ own claims id, (AttestKey.fromOpenssh ssh user.signing.publicLine machine : Result ObjectId AttestKey) = .ok own ∧
    log s (keyTarget git own) = .ok claims ∧ (∀ claim ∈ claims, claim.envelope.payload ≠ git.objectId (.key own)) ∧
    log t (keyTarget git own) = .ok (⟨id, addEnvelope git own, none⟩ :: claims) ∧
    ∀ on, on ≠ keyTarget git own → ∀ others, log s on = .ok others → log t on = .ok others

theorem KeyNamed.chains {ssh : SshKey} {s t : Store git} {user : User} {given : Option String} {machine : Bool}
    {keyed : Except (CliError ObjectId) ObjectId} (named : KeyNamed ssh s user given machine keyed t) :
    t = s ∨ given = none ∧ FirstOfKey ssh s user machine t := by
  cases named with
  | failed | found => exact .inl rfl
  | added own claims id t default parsed listed fresh adds =>
    have landing := append_ok _ _ _ _ _ _ adds
    have written (on : Target ObjectId) (others : List (Claim ObjectId)) (read : log s on = .ok others) :=
      log_writeObject s (.key own) on others read
    exact .inr ⟨default, own, claims, id, parsed, listed, fresh, landing.log_self claims (written _ _ listed),
      fun on elsewhere others read => landing.log_other on elsewhere others (written on others read)⟩

/-- A command that fails, or only reads, leaves every chain as it was, but for one claim at
most: where it was to sign without `--key`, the first claim to carry its key. -/
theorem unprinted_keeps_chains (ssh : SshKey) (s t : Store git) (done : Executed ObjectId) (ran : Executes ssh s done t)
    (silent : shown done.outcome = none) : t = s ∨
      ∃ machine, done.command.keyArgs = some (none, machine) ∧ FirstOfKey ssh s done.user machine t := by
  have effect := execute_effect ssh s t done ran
  obtain ⟨terminal, user, command, outcome⟩ := done
  cases effect with
  | reads => exact .inl rfl
  | fails failure given machine keys keyed t named =>
    rcases named.chains with same | ⟨rfl, first⟩
    · exact .inl same
    · exact .inr ⟨machine, keys, first⟩
  | calls => cases silent

/-! What a run signs. -/

/-- The claim that a run prints is in its commit, under the key claim that the run named. -/
theorem printed_appended (ssh : SshKey) (s t : Store git) (done : Executed ObjectId) (ran : Executes ssh s done t)
    (given : Option String) (machine : Bool) (asked : done.command.keyArgs = some (given, machine)) (claim : ObjectId)
    (prints : done.outcome = .ok (.claim claim)) (keyId : ObjectId) (mid : Store git)
    (named : runKeyClaim done.terminal.toRepository ssh s done.user given machine = (.ok keyId, mid)) :
    ∃ on envelope ready, envelope.key = keyId ∧ Grows mid ready ∧ Appended ready done.user.writer on envelope claim t := by
  obtain ⟨terminal, user, command, outcome⟩ := done
  obtain rfl : outcome = .ok (.claim claim) := prints
  cases command with
  | verify | log | resolve => cases asked
  | sign args =>
    obtain ⟨rfl, rfl⟩ := Prod.mk.inj (Option.some.inj asked)
    exact appending_under _ ssh s mid t user _ _ _ keyId claim named (signCall_under _ args keyId) ran
  | revoke args =>
    obtain ⟨rfl, rfl⟩ := Prod.mk.inj (Option.some.inj asked)
    exact appending_under _ ssh s mid t user _ _ _ keyId claim named (revokeCall_under _ args keyId) ran

/-- What a run signs under a key claim that resolves to its own key, `verify` finds sound with
exit code 0 for ever after: revoking the claim or rotating the key does not change that. -/
theorem printed_verifies (embeds : Embeds git) (ssh : SshKey) (s t : Store git) (done : Executed ObjectId)
    (ran : Executes ssh s done t) (given : Option String) (machine : Bool)
    (asked : done.command.keyArgs = some (given, machine)) (claim : ObjectId)
    (prints : done.outcome = .ok (.claim claim)) (keyId : ObjectId) (mid : Store git)
    (named : runKeyClaim done.terminal.toRepository ssh s done.user given machine = (.ok keyId, mid))
    (own published : AttestKey) (honest : SignsFor ssh done.user.signing.sign own)
    (resolved : key ssh mid keyId = .ok (some published)) (format : published.format = own.format)
    (publicKey : published.publicKey = own.publicKey) (trace : List (Store git × Executed ObjectId)) (u : Store git)
    (run : Run (· = t) (Executes ssh) trace u) (terminal : Terminal ObjectId) (hex : String)
    (reads : object terminal.toRepository hex = .ok claim) :
    runVerify terminal ssh u hex = .ok (.verdict claim "Verified" 0) := by
  obtain ⟨on, envelope, ready, rfl, prepared, appended⟩ :=
    printed_appended ssh s t done ran given machine asked claim prints keyId mid named
  have grown := session_grows ssh t trace u run
  have later := key_grows ssh mid t (prepared.trans appended.grows) envelope.key _ resolved
  rw [key_eq_some_iff] at later
  obtain ⟨sequence, found⟩ := appended.find_self
  have sound : verify ssh t ⟨claim, envelope, none⟩ = .ok .verified := by
    unfold verify verifyDispatched
    simp only [later, Result.ok_bind]
    rw [verifyCommit_of_find ssh t claim _ published none found]
    exact congrArg Except.ok
      (commitVerdict_signed embeds ssh done.user.committer done.user.signing own published honest format publicKey
        envelope _ sequence)
  have still := verifyDispatched_grows ssh t u grown ⟨claim, envelope, none⟩ none .verified sound
  have read := envelopeAt_extends t u grown.extended claim envelope appended.envelopeAt_self
  simp only [runVerify, reads, read, Result.ok_bind, Except.mapError]
  change (do
    let verdict ← (verifyDispatched ssh u ⟨claim, envelope, none⟩ none).mapError .attest
    return Output.verdict claim verdict.report.1 verdict.report.2 : Except (CliError ObjectId) (Output ObjectId)) = _
  rw [still]
  rfl

section Sample

def aliceUser : User := { committer := "alice", signing := alicePair }

/-- The repository in which `a11ce` abbreviates Alice's key claim and `07e` the note she signs. -/
def desk : Terminal Digest :=
  { fromHex := fun _ => none
    revParseSingle := fun text =>
      if text = "a11ce" then some rooted.1 else if text = "07e" then some aliceSigned.1 else none
    display := fun id => toString (repr id) }

def ran (s : Store digestGit) (command : Command Digest) : Executed Digest :=
  { terminal := desk, user := aliceUser, command := command, outcome := (execute desk namedSsh s aliceUser command).1 }

def after (s : Store digestGit) (command : Command Digest) : Store digestGit :=
  (execute desk namedSsh s aliceUser command).2

def revokeNote : RevokeArgs := { claim := "07e", key := none, machine := false }

/-- In a store without claims Alice signs a note, which publishes her key, and revokes it. -/
def deskSigned : Store digestGit := after emptyStore (.sign (noteArgs none))
def deskRevoked : Store digestGit := after deskSigned (.revoke revokeNote)

def deskKeyed : Store digestGit := (runKeyClaim desk.toRepository namedSsh emptyStore aliceUser none false).2

theorem named_desk : runKeyClaim desk.toRepository namedSsh emptyStore aliceUser none false =
    (.ok rooted.1, deskKeyed) := Prod.ext (by decide +kernel) rfl

def deskNoted : Store digestGit := after deskKeyed (.sign (noteArgs none))
def deskWithdrawn : Digest := (shown (ran deskNoted (.revoke revokeNote)).outcome).getD (.nat 0)

/-- After she has signed a note, her runs still name the key claim that the first published, and
she revokes the note under it. -/
theorem keyClaim_settled_desk :
    runKeyClaim desk.toRepository namedSsh deskNoted aliceUser none false = (.ok rooted.1, deskNoted) ∧
      ∃ envelope, envelopeAt (after deskNoted (.revoke revokeNote)) deskWithdrawn = .ok envelope ∧
        envelope.key = rooted.1 := by
  have session : Run (· = deskKeyed) (Executes namedSsh) [(deskKeyed, ran deskKeyed (.sign (noteArgs none)))] deskNoted :=
    .next (.start rfl) rfl
  obtain ⟨settled, _, revokes⟩ := keyClaim_settled namedSsh desk.toRepository emptyStore aliceUser false rooted.1 deskKeyed
    named_desk _ _ session desk.toRepository aliceUser rfl
  exact ⟨settled, revokes revokeNote rfl rfl deskWithdrawn _ (Prod.ext (by decide +kernel) rfl)⟩

/-- A note on a target that is no object: the run fails, and has published her key. -/
def astray : SignArgs Digest := { noteArgs none with target := { kind := "doc", id := "nowhere" } }

theorem unprinted_keeps_chains_astray : ∃ machine, (ran emptyStore (.sign astray)).command.keyArgs = some (none, machine) ∧
    FirstOfKey namedSsh emptyStore aliceUser machine (after emptyStore (.sign astray)) := by
  have silent : shown (ran emptyStore (.sign astray)).outcome = none := by decide +kernel
  have gained : log (after emptyStore (.sign astray)) (keyTarget digestGit aliceKey) ≠
      log emptyStore (keyTarget digestGit aliceKey) := by decide +kernel
  rcases unprinted_keeps_chains namedSsh emptyStore (after emptyStore (.sign astray)) (ran emptyStore (.sign astray)) rfl
    silent with same | published
  · exact absurd (congrArg (fun s => log s (keyTarget digestGit aliceKey)) same) gained
  · exact published

/-- The note verifies after its revocation. -/
theorem printed_verifies_desk :
    runVerify desk namedSsh deskRevoked "07e" = .ok (.verdict aliceSigned.1 "Verified" 0) := by
  have session : Run (· = deskSigned) (Executes namedSsh)
      [(deskSigned, ran deskSigned (.revoke revokeNote))] deskRevoked := .next (.start rfl) rfl
  have signed : Executes namedSsh emptyStore (ran emptyStore (.sign (noteArgs none))) deskSigned := rfl
  exact printed_verifies embeds_digestGit namedSsh emptyStore deskSigned (ran emptyStore (.sign (noteArgs none))) signed
    none false rfl aliceSigned.1 (by decide +kernel) rooted.1 deskKeyed named_desk aliceKey aliceKey signsFor_alice
    (by decide +kernel) rfl rfl _ deskRevoked session desk "07e" rfl

end Sample

end GitAnchor.Attest
