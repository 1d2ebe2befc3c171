import GitAnchor.Attest.Retry
import GitAnchor.Attest.Linearization

/-! Progress of interleaved calls. A publication is lost only to another one on the same
chain, so the steps of a call are charged to the claims its chain gains meanwhile, and calls
whose publications the backend does not lose all return, whoever is scheduled when. -/

namespace GitAnchor.Attest
open GitAnchor.Foundation GitAnchor.Substrate
variable {ObjectId : Type} [DecidableEq ObjectId] {git : Git ObjectId}

/-- The ref has moved since the call read it. -/
def Caller.stale (s : Store git) (caller : Caller ObjectId) : Bool :=
  match caller.pc with
  | .readHistory tip => decide (s.refs (git.entityName caller.on) ≠ some tip)
  | .publish current _ => decide (s.refs (git.entityName caller.on) ≠ current)
  | _ => false

def Caller.landed (caller : Caller ObjectId) : Bool :=
  match caller.pc with
  | .returned (.ok _) => true
  | _ => false

/-- What a call is yet to be charged: its steps up to the publication, a round more where that
will be lost, and the round it has earned by landing. -/
def Caller.due (s : Store git) (caller : Caller ObjectId) : Nat :=
  caller.pc.left + (if caller.stale s then 3 else 0) + (if caller.landed then 3 else 0)

/-- Whose step it is. -/
def turn (taken : System git × Event ObjectId) : Option Nat :=
  match taken.2 with
  | .act i _ => some i
  | .begin _ _ => none

/-- A step of call `i`. -/
def actsAs (i : Nat) (taken : System git × Event ObjectId) : Bool := turn taken = some i

/-- The backend loses a publication of call `i`. -/
def losesFor (i : Nat) (event : Event ObjectId) : Bool :=
  match event with
  | .act j (.lose _) => decide (j = i)
  | _ => false

theorem due_eq_of_refs (s t : Store git) (caller : Caller ObjectId)
    (same : t.refs (git.entityName caller.on) = s.refs (git.entityName caller.on)) :
    caller.due t = caller.due s := by
  have reads : caller.stale t = caller.stale s := by
    unfold Caller.stale
    split
    · rw [same]
    · rw [same]
    · rfl
  rw [Caller.due, Caller.due, reads]

theorem left_le_due (s : Store git) (caller : Caller ObjectId) : caller.pc.left ≤ caller.due s :=
  (Nat.le_add_right _ _).trans (Nat.le_add_right _ _)

theorem due_le_moved (s t : Store git) (caller : Caller ObjectId) : caller.due t ≤ caller.due s + 3 := by
  have bound : (if caller.stale t then 3 else 0) ≤ 3 := by
    split
    · exact Nat.le_refl 3
    · exact Nat.zero_le 3
  simp only [Caller.due]
  omega

/-- A step that lands nothing is paid for by what was due. -/
theorem due_quiet (s t : Store git) (caller : Caller ObjectId) (action : Action ObjectId) (pc : Pc ObjectId)
    (acted : advance s caller action = some (t, pc)) (kept : ∀ wrote, action ≠ .lose wrote)
    (quiet : Quiet s t caller pc) : 1 + ({ caller with pc := pc }).due t ≤ caller.due s := by
  have unfinished := left_of_advance s t caller action pc acted
  have refs : t.refs (git.entityName caller.on) = s.refs (git.entityName caller.on) := by rw [quiet.refs]
  cases advance_turn s t caller action pc acted with
  | ends _ result =>
    cases result with
    | ok id => exact absurd rfl (quiet.silent id)
    | error source =>
      have settled : ({ caller with pc := .returned (.error source) }).due t = 0 := rfl
      rw [settled]
      exact unfinished.trans_le (left_le_due s caller)
  | absent standing unclaimed => simp [Caller.due, Caller.stale, Caller.landed, standing, unclaimed]
  | tip id standing named => simp [Caller.due, Caller.stale, Caller.landed, standing, named]
  | history id sequence standing =>
    have reads : ({ caller with pc := .publish (some id) sequence }).stale s = caller.stale s := by
      simp only [Caller.stale, standing]
    simp only [Caller.due, reads, Caller.landed, standing, Pc.left, Bool.false_eq_true, if_false]
    omega
  | again _ current sequence standing failed =>
    rcases failed with moved | ⟨wrote, lost⟩
    · simp [Caller.due, Caller.stale, Caller.landed, standing, moved]
    · exact absurd lost (kept wrote)

/-- A step that lands the claim is paid for by the claim its chain has gained. -/
theorem due_landing (s t : Store git) (caller : Caller ObjectId) (action : Action ObjectId) (id : ObjectId)
    (acted : advance s caller action = some (t, .returned (.ok id))) :
    1 + ({ caller with pc := .returned (.ok id) }).due t ≤ caller.due s + 3 := by
  have unfinished := (left_of_advance s t caller action _ acted).trans_le (left_le_due s caller)
  have earned : ({ caller with pc := .returned (.ok id) }).due t = 3 := rfl
  rw [earned]
  omega

theorem Appended.refs_other {s t : Store git} {writer : Writer} {on : Target ObjectId} {envelope : Envelope ObjectId}
    {id : ObjectId} (appended : Appended s writer on envelope id t) (target : Target ObjectId) (different : target ≠ on) :
    t.refs (git.entityName target) = s.refs (git.entityName target) := by
  obtain ⟨_, _, _, published⟩ := appended.published
  rw [published.refs, Function.update_of_ne (fun same => different (git.entityName_injective same))]

/-- One step of the system, as call `i` is charged for it: the call goes on where it was,
its chain gains what it gains, and what is due grows by three for each claim gained. -/
structure Charged (i : Nat) (system : System git) (event : Event ObjectId) (next : System git)
    (caller now : Caller ObjectId) (gained : List (Claim ObjectId)) : Prop where
  located : next.callers[i]? = some now
  on : now.on = caller.on
  log : ∀ claims, log system.store caller.on = .ok claims → log next.store caller.on = .ok (gained ++ claims)
  paid : (if actsAs i (system, event) then 1 else 0) + now.due next.store ≤ caller.due system.store + 3 * gained.length

theorem charged_begin (i : Nat) (system : System git) (caller : Caller ObjectId)
    (located : system.callers[i]? = some caller) (writer : Writer) (call : Call ObjectId) (on : Target ObjectId)
    (envelope : Envelope ObjectId) (ready : Store git) (prepared : Prepared system.store call on envelope ready) :
    Charged i system (.begin writer call)
      { store := ready, callers := system.callers ++ [⟨writer, on, envelope, .readTip⟩] } caller caller [] where
  located := by
    obtain ⟨bound, _⟩ := List.getElem?_eq_some_iff.mp located
    rw [List.getElem?_append_left bound]
    exact located
  on := rfl
  log claims listed := prepared.log_eq caller.on claims listed
  paid := by
    have same := due_eq_of_refs system.store ready caller (by rw [prepared.refs])
    simp [actsAs, turn, same]

/-- What a step of another call does is charged to the claim it puts on the chain, if it does. -/
theorem charged_other (i j : Nat) (system : System git) (caller other : Caller ObjectId)
    (located : system.callers[i]? = some caller) (there : system.callers[j]? = some other) (different : j ≠ i)
    (consistent : Consistent system) (action : Action ObjectId) (t : Store git) (pc : Pc ObjectId)
    (acted : advance system.store other action = some (t, pc)) : ∃ gained,
    Charged i system (.act j action)
      { store := t, callers := system.callers.set j { other with pc := pc } } caller caller gained := by
  have still : (system.callers.set j { other with pc := pc })[i]? = some caller := by
    rw [List.getElem?_set_ne different, located]
  have idle : actsAs i (system, .act j action) = false := by simpa [actsAs, turn] using different
  obtain ⟨claims, listed⟩ := consistent.legible other.on
  have snapshot := consistent.snapshots other (List.mem_of_getElem? there)
  rcases (advance_cases system.store t other action pc claims listed snapshot acted).2 with quiet | ⟨id, rfl, appended⟩
  · have same := due_eq_of_refs system.store t caller (by rw [quiet.refs])
    refine ⟨[], still, rfl, (chains_kept system.store t quiet.kept).2 caller.on, ?_⟩
    simp [idle, same]
  · by_cases here : caller.on = other.on
    · refine ⟨[⟨id, other.envelope, none⟩], still, rfl, ?_, ?_⟩
      · rw [here]
        exact appended.log_self
      · have moved := due_le_moved system.store t caller
        simp only [idle, Bool.false_eq_true, if_false, List.length_singleton]
        omega
    · refine ⟨[], still, rfl, appended.log_other caller.on here, ?_⟩
      have same := due_eq_of_refs system.store t caller (appended.refs_other caller.on here)
      simp [idle, same]

/-- A step of the call itself is charged to what was due, and its landing to the claim. -/
theorem charged_own (i : Nat) (system : System git) (caller : Caller ObjectId)
    (located : system.callers[i]? = some caller) (consistent : Consistent system) (action : Action ObjectId)
    (kept : ∀ wrote, action ≠ .lose wrote) (t : Store git) (pc : Pc ObjectId)
    (acted : advance system.store caller action = some (t, pc)) : ∃ gained,
    Charged i system (.act i action)
      { store := t, callers := system.callers.set i { caller with pc := pc } } caller { caller with pc := pc } gained := by
  obtain ⟨bound, _⟩ := List.getElem?_eq_some_iff.mp located
  have still : (system.callers.set i { caller with pc := pc })[i]? = some { caller with pc := pc } :=
    List.getElem?_set_self bound
  have acts : actsAs i (system, .act i action) = true := by simp [actsAs, turn]
  obtain ⟨claims, listed⟩ := consistent.legible caller.on
  have snapshot := consistent.snapshots caller (List.mem_of_getElem? located)
  rcases (advance_cases system.store t caller action pc claims listed snapshot acted).2 with quiet | ⟨id, rfl, appended⟩
  · refine ⟨[], still, rfl, (chains_kept system.store t quiet.kept).2 caller.on, ?_⟩
    rw [acts]
    exact due_quiet system.store t caller action pc acted kept quiet
  · refine ⟨[⟨id, caller.envelope, none⟩], still, rfl, appended.log_self, ?_⟩
    rw [acts]
    exact due_landing system.store t caller action id acted

theorem charged_fires (i : Nat) (system next : System git) (event : Event ObjectId) (caller : Caller ObjectId)
    (located : system.callers[i]? = some caller) (consistent : Consistent system)
    (kept : losesFor i event = false) (fired : Fires system event next) :
    ∃ now gained, Charged i system event next caller now gained := by
  rcases fire_cases system next event fired with
    ⟨writer, call, on, envelope, ready, rfl, prepared, rfl⟩ | ⟨j, action, other, t, pc, rfl, there, acted, rfl⟩
  · exact ⟨caller, [], charged_begin i system caller located writer call on envelope ready prepared⟩
  · by_cases same : j = i
    · subst same
      obtain rfl := Option.some.inj (there.symm.trans located)
      have unlost (wrote : Bool) : action ≠ .lose wrote := by
        rintro rfl
        simp [losesFor] at kept
      exact ⟨_, charged_own j system other located consistent action unlost t pc acted⟩
    · exact ⟨caller, charged_other i j system caller other located there same consistent action t pc acted⟩

/-- Over a run, the steps of a call are charged to the claims its chain gains. -/
theorem charged_run (i : Nat) (origin : System git) (consistent : Consistent origin) (start : Caller ObjectId)
    (located : origin.callers[i]? = some start) (claims : List (Claim ObjectId))
    (listed : log origin.store start.on = .ok claims) (trace : List (System git × Event ObjectId))
    (system : System git) (run : Run (· = origin) Fires trace system)
    (kept : ∀ taken ∈ trace, losesFor i taken.2 = false) : Consistent system ∧
      ∃ now gained, system.callers[i]? = some now ∧ now.on = start.on ∧
        log system.store start.on = .ok (gained ++ claims) ∧
        trace.countP (actsAs i) + now.due system.store ≤ start.due origin.store + 3 * gained.length := by
  induction run with
  | start same =>
    subst same
    exact ⟨consistent, start, [], located, rfl, listed, by simp⟩
  | @next trace system next event run fired ih =>
    obtain ⟨sound, caller, gained, there, on, read, paid⟩ :=
      ih (fun taken member => kept taken (List.mem_cons_of_mem _ member))
    obtain ⟨now, more, charged⟩ :=
      charged_fires i system next event caller there sound (kept _ List.mem_cons_self) fired
    refine ⟨consistent_fires system event next sound fired, now, more ++ gained, charged.located,
      charged.on.trans on, ?_, ?_⟩
    · have longer := charged.log (gained ++ claims) (by rw [on]; exact read)
      rw [on] at longer
      rw [longer, List.append_assoc]
    · have step := charged.paid
      rw [List.countP_cons, List.length_append]
      omega

/-- A call whose publications the backend does not lose takes at most three steps for each
claim that its chain gains while it runs, and three more as long as its own is not among them. -/
theorem steps_bounded (earlier : List (System git × Event ObjectId)) (origin : System git)
    (reached : Run Initial Fires earlier origin) (i : Nat) (start : Caller ObjectId)
    (located : origin.callers[i]? = some start) (begins : start.pc = .readTip)
    (trace : List (System git × Event ObjectId)) (system : System git) (run : Run (· = origin) Fires trace system)
    (kept : ∀ taken ∈ trace, losesFor i taken.2 = false) : ∃ claims gained now,
      log origin.store start.on = .ok claims ∧ log system.store start.on = .ok (gained ++ claims) ∧
      system.callers[i]? = some now ∧ trace.countP (actsAs i) + now.pc.left ≤ 3 * (gained.length + 1) ∧
      (now.landed = true → trace.countP (actsAs i) ≤ 3 * gained.length) := by
  have consistent := reached.invariant consistent_initial consistent_fires
  obtain ⟨claims, listed⟩ := consistent.legible start.on
  obtain ⟨_, now, gained, there, _, read, paid⟩ :=
    charged_run i origin consistent start located claims listed trace system run kept
  have due : start.due origin.store = 3 := by simp [Caller.due, Caller.stale, Caller.landed, begins]
  refine ⟨claims, gained, now, listed, read, there, ?_, ?_⟩
  · have least := left_le_due system.store now
    omega
  · intro landed
    simp only [Caller.due, landed, if_true] at paid due
    omega

/-! All calls of a run. -/

/-- Every step so far was the turn of a call that has begun, and is paid for by its chain. -/
structure Accounted (trace : List (System git × Event ObjectId)) (system : System git) : Prop where
  turns : ∀ taken ∈ trace, ∀ i, turn taken = some i → i < system.callers.length
  paid : ∀ i now, system.callers[i]? = some now → ∃ claims, log system.store now.on = .ok claims ∧
    trace.countP (actsAs i) + now.due system.store ≤ 3 * (claims.length + 1)

theorem turn_lt (system next : System git) (event : Event ObjectId) (fired : Fires system event next) :
    system.callers.length ≤ next.callers.length ∧
      ∀ i, turn (system, event) = some i → i < system.callers.length := by
  rcases fire_cases system next event fired with
    ⟨writer, call, on, envelope, ready, rfl, _, rfl⟩ | ⟨j, action, caller, t, pc, rfl, located, _, rfl⟩
  · exact ⟨by simp, fun i same => by cases same⟩
  · obtain ⟨bound, _⟩ := List.getElem?_eq_some_iff.mp located
    refine ⟨by simp, fun i same => ?_⟩
    obtain rfl : j = i := by simpa [turn] using same
    exact bound

/-- A caller that was not there before has just begun. -/
theorem begun_of_fires (system next : System git) (event : Event ObjectId) (fired : Fires system event next) (i : Nat)
    (fresh : ¬ i < system.callers.length) (now : Caller ObjectId) (located : next.callers[i]? = some now) :
    now.pc = .readTip ∧ turn (system, event) ≠ some i := by
  rcases fire_cases system next event fired with
    ⟨writer, call, on, envelope, ready, rfl, _, rfl⟩ | ⟨j, action, caller, t, pc, rfl, _, _, rfl⟩
  · rw [List.getElem?_append_right (Nat.le_of_not_lt fresh), List.getElem?_singleton] at located
    split at located
    · obtain rfl := Option.some.inj located
      exact ⟨rfl, nofun⟩
    · cases located
  · obtain ⟨bound, _⟩ := List.getElem?_eq_some_iff.mp located
    rw [List.length_set] at bound
    exact absurd bound fresh

theorem accounted_run (trace : List (System git × Event ObjectId)) (system : System git)
    (run : Run Initial Fires trace system) (kept : ∀ taken ∈ trace, ∀ i, losesFor i taken.2 = false) :
    Accounted trace system := by
  induction run with
  | start initial => exact ⟨by simp, by simp [initial.2]⟩
  | @next trace system next event run fired ih =>
    obtain ⟨turns, paid⟩ := ih (fun taken member => kept taken (List.mem_cons_of_mem _ member))
    have consistent := run.invariant consistent_initial consistent_fires
    obtain ⟨longer, own⟩ := turn_lt system next event fired
    constructor
    · intro taken member i same
      rcases List.mem_cons.mp member with rfl | before
      · exact (own i same).trans_le longer
      · exact (turns taken before i same).trans_le longer
    · intro i now located
      by_cases old : i < system.callers.length
      · obtain ⟨claims, listed, spent⟩ := paid i _ (List.getElem?_eq_getElem old)
        obtain ⟨after, gained, charged⟩ := charged_fires i system next event _ (List.getElem?_eq_getElem old)
          consistent (kept _ List.mem_cons_self i) fired
        obtain rfl := Option.some.inj (located.symm.trans charged.located)
        refine ⟨gained ++ claims, charged.on ▸ charged.log claims listed, ?_⟩
        have step := charged.paid
        rw [List.countP_cons, List.length_append]
        omega
      · obtain ⟨begins, other⟩ := begun_of_fires system next event fired i old now located
        obtain ⟨claims, listed⟩ := (consistent_fires system event next consistent fired).legible now.on
        have none_yet : ((system, event) :: trace).countP (actsAs i) = 0 := by
          apply List.countP_eq_zero.mpr
          intro taken member
          rcases List.mem_cons.mp member with rfl | before
          · simpa [actsAs] using other
          · have elsewhere : turn taken ≠ some i := fun same => old (turns taken before i same)
            simpa [actsAs] using elsewhere
        refine ⟨claims, listed, ?_⟩
        simp only [none_yet, Caller.due, Caller.stale, Caller.landed, begins, Pc.left, Bool.false_eq_true, if_false]
        omega

/-- A chain has no more claims than there are callers that landed. -/
theorem length_le_callers (system : System git) (consistent : Consistent system) (target : Target ObjectId)
    (claims : List (Claim ObjectId)) (listed : log system.store target = .ok claims) :
    claims.length ≤ system.callers.length ∧
      ∀ caller ∈ system.callers, caller.landed = false → claims.length < system.callers.length := by
  obtain ⟨same, read, _, records⟩ := consistent.chains target
  rw [listed] at read
  obtain rfl := Except.ok.inj read
  have lengths := records.length_eq
  rw [List.length_map] at lengths
  rw [lengths]
  refine ⟨List.length_filterMap_le _ _, ?_⟩
  intro caller member waiting
  apply List.length_filterMap_lt_length_iff_exists.mpr
  refine ⟨caller, member, reportOn_of_not_returned target caller ?_⟩
  intro id returned
  simp [Caller.landed, returned] at waiting

/-- The backend does what it is asked to. -/
def healthy : Event ObjectId → Bool
  | .begin _ _ => true
  | .act _ .run => true
  | .act _ _ => false

omit [DecidableEq ObjectId] in
theorem losesFor_of_healthy (event : Event ObjectId) (working : healthy event = true) (i : Nat) :
    losesFor i event = false := by
  cases event with
  | begin => rfl
  | act j action =>
    cases action with
    | run => rfl
    | lose | fail => cases working

/-- What a call reads is there, so only the backend can make it fail. -/
theorem advance_run_no_error (system : System git) (consistent : Consistent system) (caller : Caller ObjectId)
    (t : Store git) (source : Error ObjectId)
    (acted : advance system.store caller .run = some (t, .returned (.error source))) : False := by
  obtain ⟨claims, listed⟩ := consistent.legible caller.on
  cases standing : caller.pc with
  | returned result => simp [advance, standing] at acted
  | readTip =>
    simp only [advance, standing, readRef_of_log system.store caller.on claims listed] at acted
    split at acted
    · cases acted
    · cases acted
    · next read => cases read
  | readHistory tip =>
    simp only [advance, standing, history_of_log system.store caller.on claims listed] at acted
    cases acted
  | publish current sequence =>
    simp only [advance, standing] at acted
    split at acted
    · cases acted
    · cases acted

def Unfailed (system : System git) : Prop :=
  ∀ caller ∈ system.callers, ∀ source, caller.pc ≠ .returned (.error source)

theorem unfailed_initial (system : System git) (initial : Initial system) : Consistent system ∧ Unfailed system :=
  ⟨consistent_initial system initial, fun caller member => by simp [initial.2] at member⟩

theorem unfailed_fires (system : System git) (event : Event ObjectId) (next : System git)
    (sound : Consistent system ∧ Unfailed system) (working : healthy event = true) (fired : Fires system event next) :
    Consistent next ∧ Unfailed next := by
  obtain ⟨consistent, unfailed⟩ := sound
  refine ⟨consistent_fires system event next consistent fired, ?_⟩
  rcases fire_cases system next event fired with
    ⟨writer, call, on, envelope, ready, rfl, _, rfl⟩ | ⟨i, action, caller, t, pc, rfl, _, acted, rfl⟩
  · intro other present
    rcases List.mem_append.mp present with old | new
    · exact unfailed other old
    · rw [List.mem_singleton.mp new]
      nofun
  · intro other present source returned
    rcases mem_set system.callers i _ other present with old | rfl
    · exact unfailed other old source returned
    · cases action with
      | run =>
        obtain rfl : pc = .returned (.error source) := returned
        exact advance_run_no_error system consistent caller t source acted
      | lose | fail => cases working

theorem unfailed_run (trace : List (System git × Event ObjectId)) (system : System git)
    (run : Run Initial Fires trace system) (working : ∀ taken ∈ trace, healthy taken.2 = true) : Unfailed system := by
  have sound := run.guarded unfailed_initial
    (fun s event t before met fired => unfailed_fires s event t before met fired) working
  exact sound.2

/-- Where the backend does what it is asked to, calls come to an end under every schedule:
`n` of them take at most `3 * n * n` steps, and each has landed or can take its next step. -/
theorem schedules_end (trace : List (System git × Event ObjectId)) (system : System git)
    (run : Run Initial Fires trace system) (working : ∀ taken ∈ trace, healthy taken.2 = true) :
    trace.countP (fun taken => (turn taken).isSome) ≤ system.callers.length * (3 * system.callers.length) ∧
      ∀ i caller, system.callers[i]? = some caller →
        caller.landed = true ∨ ∃ next, Fires system (.act i .run) next := by
  have consistent := run.invariant consistent_initial consistent_fires
  have accounted := accounted_run trace system run
    (fun taken member i => losesFor_of_healthy taken.2 (working taken member) i)
  constructor
  · apply Agents.countP_turns_le turn _ _ trace accounted.turns
    intro i inside
    obtain ⟨claims, listed, paid⟩ := accounted.paid i _ (List.getElem?_eq_getElem inside)
    obtain ⟨most, fewer⟩ := length_le_callers system consistent _ claims listed
    change trace.countP (actsAs i) ≤ _
    cases landing : system.callers[i].landed with
    | true =>
      simp only [Caller.due, landing, if_true] at paid
      omega
    | false =>
      have least := fewer _ (List.getElem_mem inside) landing
      omega
  · intro i caller located
    rcases proceeds ⟨system.store, caller⟩ with ⟨result, returned⟩ | moves
    · left
      cases result with
      | ok id => simp [Caller.landed, show caller.pc = .returned (.ok id) from returned]
      | error source =>
        exact absurd returned (unfailed_run trace system run working caller (List.mem_of_getElem? located) source)
    · right
      obtain ⟨next, moved⟩ := Option.isSome_iff_exists.mp moves
      obtain ⟨t, pc, acted, _⟩ := moves_own _ next .run moved
      refine ⟨{ store := t, callers := system.callers.set i { caller with pc := pc } }, ?_⟩
      simp only [Fires, fire, located, acted, Option.bind_eq_bind, Option.bind_some]
      rfl

section Sample

def bobCaller : Caller Digest :=
  { writer := keyWriter "bob" [50], on := note.target, envelope := note, pc := .readTip }

/-- Two calls that are about to race for one ref. -/
def racers : List (Event Digest) := [.begin alice (.sign note), .begin bobCaller.writer (.sign note)]

/-- The first publishes between the reads of the second and its publication. -/
def race : List (Event Digest) :=
  [.act 0 .run, .act 1 .run, .act 0 .run, .act 1 .run, .act 1 .run, .act 1 .run, .act 1 .run]

def raceOutcome : List (System digestGit × Event Digest) × System digestGit :=
  (Run.trail fire [] (trailed racers).2 race).getD ([], (trailed racers).2)

theorem run_race : Run (· = (trailed racers).2) Fires raceOutcome.1 raceOutcome.2 :=
  Run.of_trail_getD fire (trailed racers).2 race rfl (by decide +kernel)

theorem located_bob : (trailed racers).2.callers[1]? = some bobCaller := rfl

theorem steps_bounded_race : raceOutcome.1.countP (actsAs 1) = 5 ∧ ∃ claims gained now,
    log (trailed racers).2.store note.target = .ok claims ∧ log raceOutcome.2.store note.target = .ok (gained ++ claims) ∧
      raceOutcome.2.callers[1]? = some now ∧ raceOutcome.1.countP (actsAs 1) + now.pc.left ≤ 3 * (gained.length + 1) ∧
      (now.landed = true → raceOutcome.1.countP (actsAs 1) ≤ 3 * gained.length) := by
  have kept : raceOutcome.1.all (fun taken => !losesFor 1 taken.2) = true := by decide +kernel
  refine ⟨by decide +kernel, ?_⟩
  exact steps_bounded _ _ (run_trailed racers (by decide +kernel)) 1 bobCaller located_bob rfl _ _ run_race
    (by simpa using kept)

theorem schedules_end_raced :
    (trailed raced).1.countP (fun taken => (turn taken).isSome) ≤
        (trailed raced).2.callers.length * (3 * (trailed raced).2.callers.length) ∧
      ∀ i caller, (trailed raced).2.callers[i]? = some caller →
        caller.landed = true ∨ ∃ next, Fires (trailed raced).2 (.act i .run) next := by
  have working : (trailed raced).1.all (fun taken => healthy taken.2) = true := by decide +kernel
  exact schedules_end _ _ (run_trailed raced (by decide +kernel)) (List.all_eq_true.mp working)

end Sample

end GitAnchor.Attest
