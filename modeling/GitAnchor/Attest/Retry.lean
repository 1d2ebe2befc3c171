import GitAnchor.Attest.Interleaving

/-! The append loop on its own, over a ref store that others may change between its steps in
any way. The loop takes every backend failure of a publication for a lost race: where the ref
has not moved it tries again all the same. -/

namespace GitAnchor.Attest
open GitAnchor.Foundation GitAnchor.Substrate

/-- One call of `append`, and the store it works on. -/
structure Attempt {ObjectId : Type} (git : Git ObjectId) where
  store : Store git
  caller : Caller ObjectId

/-- A step of the call, or whatever becomes of the store in between. -/
inductive Move {ObjectId : Type} (git : Git ObjectId) where
  | own (action : Action ObjectId)
  | outside (store : Store git)

variable {ObjectId : Type} [DecidableEq ObjectId] {git : Git ObjectId}

def Attempt.move (attempt : Attempt git) : Move git → Option (Attempt git)
  | .own action => do
      let (store, pc) ← advance attempt.store attempt.caller action
      return { store := store, caller := { attempt.caller with pc := pc } }
  | .outside store => some { attempt with store := store }

/-- What the publication of a step fails with, if it does. -/
def Attempt.failure (attempt : Attempt git) : Move git → Option (Error ObjectId)
  | .own action =>
      match attempt.caller.pc, action with
      | .publish _ _, .fail error => some error
      | .publish _ _, .lose _ => some (.store .backend)
      | .publish current sequence, .run =>
          match attempt.store.publishPrepared (git.entityName attempt.caller.on) current
              (attempt.caller.commit git current sequence) rfl with
          | .ok _ => none
          | .error source => some (.store source)
      | _, _ => none
  | .outside _ => none

/-- The call is about to publish, and the ref is what it expects. -/
def Attempt.unmoved (attempt : Attempt git) : Bool :=
  match attempt.caller.pc with
  | .publish current _ => decide (attempt.store.refs (git.entityName attempt.caller.on) = current)
  | _ => false

/-- The backend fails a publication for another reason than a moved ref. -/
def Attempt.refused (attempt : Attempt git) : Move git → Bool
  | .own (.lose _) => attempt.unmoved
  | _ => false

/-- Another writer moves the ref. -/
def Attempt.disturbed (attempt : Attempt git) : Move git → Bool
  | .own _ => false
  | .outside store => decide (store.refs (git.entityName attempt.caller.on) ≠
      attempt.store.refs (git.entityName attempt.caller.on))

/-- A step that publishes, whatever comes of it. -/
def publishes (taken : Attempt git × Move git) : Bool :=
  match taken.2, taken.1.caller.pc with
  | .own _, .publish _ _ => true
  | _, _ => false

def isOwn (taken : Attempt git × Move git) : Bool :=
  match taken.2 with
  | .own _ => true
  | .outside _ => false

/-- The call has returned. -/
def Attempt.Done (attempt : Attempt git) : Prop := ∃ result, attempt.caller.pc = .returned result

def Begun (attempt : Attempt git) : Prop := attempt.caller.pc = .readTip

def Moves (attempt : Attempt git) (taken : Move git) (next : Attempt git) : Prop := attempt.move taken = some next

/-- Where a publication fails and the ref is still what the call expects, the call returns
that failure. -/
def ReturnsFailure (attempt : Attempt git) (taken : Move git) : Prop :=
  ∀ error next, attempt.failure taken = some error → attempt.unmoved = true → Moves attempt taken next →
    next.caller.pc = .returned (.error error)

/-- The call publishes once and has then returned. It gets there in three steps of its own,
and can always take the next. -/
structure FinishesAtOnce (trace : List (Attempt git × Move git)) (attempt : Attempt git) : Prop where
  once : trace.countP publishes ≤ 1
  done : 0 < trace.countP publishes → attempt.Done
  soon : trace.countP isOwn ≤ 3
  proceeds : attempt.Done ∨ (attempt.move (.own .run)).isSome

/-- What the call has read of the ref still holds. -/
def Attempt.UpToDate (attempt : Attempt git) : Prop :=
  match attempt.caller.pc with
  | .readHistory tip => attempt.store.refs (git.entityName attempt.caller.on) = some tip
  | .publish current _ => attempt.store.refs (git.entityName attempt.caller.on) = current
  | _ => True

/-- The steps a call has before it where none of its publications is lost. -/
@[simp] def Pc.left : Pc ObjectId → Nat
  | .readTip => 3
  | .readHistory _ => 2
  | .publish _ _ => 1
  | .returned _ => 0

/-- And the publications. -/
@[simp] def Pc.unpublished : Pc ObjectId → Nat
  | .returned _ => 0
  | _ => 1

theorem moves_own (attempt next : Attempt git) (action : Action ObjectId) (moved : Moves attempt (.own action) next) :
    ∃ store pc, advance attempt.store attempt.caller action = some (store, pc) ∧
      next = { store := store, caller := { attempt.caller with pc := pc } } := by
  simp only [Moves, Attempt.move, Option.bind_eq_bind, Option.bind_eq_some_iff] at moved
  obtain ⟨⟨store, pc⟩, acted, same⟩ := moved
  exact ⟨store, pc, acted, (Option.some.inj same).symm⟩

/-- A publication at an unmoved ref that the backend does not refuse either succeeds or fails
with the error that the call returns. -/
theorem returnsFailure_publish (attempt : Attempt git) (action : Action ObjectId) (current : Option ObjectId)
    (sequence : Nat) (standing : attempt.caller.pc = .publish current sequence) :
    ReturnsFailure attempt (.own action) ↔ attempt.refused (.own action) = false := by
  cases action with
  | run =>
    refine iff_of_true ?_ rfl
    intro error next failed unmoved _
    simp only [Attempt.unmoved, standing, decide_eq_true_eq] at unmoved
    obtain ⟨t, published⟩ := attempt.store.publishPrepared_of_current (git.entityName attempt.caller.on) current
      (attempt.caller.commit git current sequence) rfl unmoved
    simp only [Attempt.failure, standing, published] at failed
    cases failed
  | fail failure =>
    refine iff_of_true ?_ rfl
    intro error next failed _ moved
    simp only [Attempt.failure, standing, Option.some.injEq] at failed
    obtain ⟨store, pc, acted, rfl⟩ := moves_own attempt next _ moved
    simp only [advance, standing, Option.some.injEq, Prod.mk.injEq] at acted
    rw [← acted.2, failed]
  | lose wrote =>
    rw [Attempt.refused, Bool.eq_false_iff]
    constructor
    · intro returns unmoved
      have failed : attempt.failure (.own (.lose wrote)) = some (.store .backend) := by
        simp only [Attempt.failure, standing]
      have moved : ∃ next, Moves attempt (.own (.lose wrote)) next ∧ next.caller.pc = .readTip := by
        simp only [Moves, Attempt.move, advance, standing]
        exact ⟨_, rfl, rfl⟩
      obtain ⟨next, moved, again⟩ := moved
      have returned := returns _ next failed unmoved moved
      rw [again] at returned
      cases returned
    · intro moved_ref error next _ unmoved _
      exact absurd unmoved moved_ref

/-- A step returns the failure of its publication at an unmoved ref exactly when the backend
does not refuse it there. -/
theorem returnsFailure_iff (attempt : Attempt git) (taken : Move git) :
    ReturnsFailure attempt taken ↔ attempt.refused taken = false := by
  cases taken with
  | outside store => exact iff_of_true (fun _ _ failed => nomatch failed) rfl
  | own action =>
    cases standing : attempt.caller.pc with
    | publish current sequence => exact returnsFailure_publish attempt action current sequence standing
    | readTip | readHistory | returned =>
      refine iff_of_true ?_ ?_
      · intro error next failed
        simp only [Attempt.failure, standing] at failed
        cases failed
      · cases action with
        | run | fail => rfl
        | lose wrote => simp only [Attempt.refused, Attempt.unmoved, standing]

/-! A call that nobody disturbs. -/

/-- All that a step of a call can do: return, read, or start over after a publication that the
ref or the backend failed. -/
inductive Turn (s : Store git) (caller : Caller ObjectId) (action : Action ObjectId) :
    Store git → Pc ObjectId → Prop where
  | ends (t : Store git) (result : Result ObjectId ObjectId) : Turn s caller action t (.returned result)
  | absent (standing : caller.pc = .readTip) (unclaimed : s.refs (git.entityName caller.on) = none) :
      Turn s caller action s (.publish none 0)
  | tip (id : ObjectId) (standing : caller.pc = .readTip) (named : s.refs (git.entityName caller.on) = some id) :
      Turn s caller action s (.readHistory id)
  | history (id : ObjectId) (sequence : Nat) (standing : caller.pc = .readHistory id) :
      Turn s caller action s (.publish (some id) sequence)
  | again (t : Store git) (current : Option ObjectId) (sequence : Nat) (standing : caller.pc = .publish current sequence)
      (failed : s.refs (git.entityName caller.on) ≠ current ∨ ∃ wrote, action = .lose wrote) :
      Turn s caller action t .readTip

/-- A call that has returned takes no step. -/
theorem left_of_advance (s t : Store git) (caller : Caller ObjectId) (action : Action ObjectId) (pc : Pc ObjectId)
    (acted : advance s caller action = some (t, pc)) : 0 < caller.pc.left := by
  cases standing : caller.pc with
  | returned result => simp [advance, standing] at acted
  | readTip | readHistory | publish => simp

theorem advance_turn (s t : Store git) (caller : Caller ObjectId) (action : Action ObjectId) (pc : Pc ObjectId)
    (acted : advance s caller action = some (t, pc)) : Turn s caller action t pc := by
  cases action with
  | fail error =>
    cases standing : caller.pc with
    | returned result => simp [advance, standing] at acted
    | readTip | readHistory | publish =>
      simp only [advance, standing, Option.some.injEq, Prod.mk.injEq] at acted
      exact acted.2 ▸ .ends t _
  | lose wrote =>
    cases standing : caller.pc with
    | readTip | readHistory | returned => simp [advance, standing] at acted
    | publish current sequence =>
      simp only [advance, standing, Option.some.injEq, Prod.mk.injEq] at acted
      exact acted.2 ▸ .again t current sequence standing (.inr ⟨wrote, rfl⟩)
  | run =>
    cases standing : caller.pc with
    | returned result => simp [advance, standing] at acted
    | readTip =>
      simp only [advance, standing] at acted
      split at acted
      · next read =>
        obtain ⟨rfl, rfl⟩ := Prod.mk.inj (Option.some.inj acted)
        exact .absent standing (readRef_ok s _ _ read).symm
      · next tip read =>
        obtain ⟨rfl, rfl⟩ := Prod.mk.inj (Option.some.inj acted)
        exact .tip tip standing (readRef_ok s _ _ read).symm
      · obtain ⟨rfl, rfl⟩ := Prod.mk.inj (Option.some.inj acted)
        exact .ends s _
    | readHistory tip =>
      simp only [advance, standing] at acted
      split at acted
      · next ids _ =>
        obtain ⟨rfl, rfl⟩ := Prod.mk.inj (Option.some.inj acted)
        exact .history tip ids.length standing
      · obtain ⟨rfl, rfl⟩ := Prod.mk.inj (Option.some.inj acted)
        exact .ends s _
    | publish current sequence =>
      simp only [advance, standing] at acted
      split at acted
      · obtain ⟨rfl, rfl⟩ := Prod.mk.inj (Option.some.inj acted)
        exact .ends _ _
      · next lost =>
        obtain ⟨rfl, rfl⟩ := Prod.mk.inj (Option.some.inj acted)
        refine .again s current sequence standing (.inl ?_)
        intro unmoved
        obtain ⟨t, published⟩ := s.publishPrepared_of_current (git.entityName caller.on) current
          (caller.commit git current sequence) rfl unmoved
        rw [published] at lost
        cases lost

/-- A step of the call that is not refused takes it nearer to its end, and on from what it
has just read. -/
theorem own_step (attempt next : Attempt git) (action : Action ObjectId) (current : attempt.UpToDate)
    (granted : attempt.refused (.own action) = false) (moved : Moves attempt (.own action) next) :
    next.UpToDate ∧ next.caller.pc.left < attempt.caller.pc.left ∧
      (publishes (attempt, .own action) = true → next.Done) := by
  obtain ⟨store, pc, acted, rfl⟩ := moves_own attempt next action moved
  have unfinished := left_of_advance attempt.store store attempt.caller action pc acted
  have reading (standing : ∀ current sequence, attempt.caller.pc ≠ .publish current sequence) :
      publishes (attempt, .own action) ≠ true := by
    intro publishing
    unfold publishes at publishing
    split at publishing
    · next expected sequence _ same => exact standing expected sequence same
    · cases publishing
  cases advance_turn attempt.store store attempt.caller action pc acted with
  | ends _ result => exact ⟨trivial, unfinished, fun _ => ⟨result, rfl⟩⟩
  | absent standing unclaimed =>
    exact ⟨unclaimed, by simp [standing], fun publishing => absurd publishing (reading (by simp [standing]))⟩
  | tip id standing named =>
    exact ⟨named, by simp [standing], fun publishing => absurd publishing (reading (by simp [standing]))⟩
  | history id sequence standing =>
    simp only [Attempt.UpToDate, standing] at current
    exact ⟨current, by simp [standing], fun publishing => absurd publishing (reading (by simp [standing]))⟩
  | again _ expected sequence standing failed =>
    -- the ref has not moved, so the backend refused the publication
    simp only [Attempt.UpToDate, standing] at current
    rcases failed with moved_ref | ⟨wrote, rfl⟩
    · exact absurd current moved_ref
    · simp only [Attempt.refused, Attempt.unmoved, standing, decide_eq_false_iff_not] at granted
      exact absurd current granted

/-- What becomes of the store in between leaves the call where it is, and what it has read of
an undisturbed ref true. -/
theorem outside_step (attempt next : Attempt git) (store : Store git) (current : attempt.UpToDate)
    (alone : attempt.disturbed (.outside store) = false) (moved : Moves attempt (.outside store) next) :
    next.UpToDate ∧ next.caller = attempt.caller := by
  simp only [Attempt.disturbed, ne_eq, decide_not, Bool.not_eq_false', decide_eq_true_eq] at alone
  obtain rfl := Option.some.inj moved
  unfold Attempt.UpToDate at current ⊢
  simp only [alone]
  exact ⟨current, trivial⟩

/-- A call that has not returned can take its next step. -/
theorem proceeds (attempt : Attempt git) : attempt.Done ∨ (attempt.move (.own .run)).isSome := by
  cases standing : attempt.caller.pc with
  | returned result => exact .inl ⟨result, standing⟩
  | readTip | readHistory | publish =>
    right
    simp only [Attempt.move, advance, standing]
    split <;> rfl

omit [DecidableEq ObjectId] in
theorem left_le (pc : Pc ObjectId) : pc.left ≤ 3 := by
  cases pc <;> simp

omit [DecidableEq ObjectId] in
theorem unpublished_le (pc : Pc ObjectId) : pc.unpublished ≤ 1 := by
  cases pc <;> simp

omit [DecidableEq ObjectId] in
theorem unpublished_of_left (pc : Pc ObjectId) (unfinished : 0 < pc.left) : pc.unpublished = 1 := by
  cases pc <;> simp at unfinished ⊢

/-- One step keeps what the call has read true and spends what it has left. -/
theorem undisturbed_step (attempt next : Attempt git) (taken : Move git) (current : attempt.UpToDate)
    (granted : attempt.refused taken = false) (alone : attempt.disturbed taken = false)
    (moved : Moves attempt taken next) : next.UpToDate ∧
      next.caller.pc.left + (if isOwn (attempt, taken) then 1 else 0) ≤ attempt.caller.pc.left ∧
      next.caller.pc.unpublished + (if publishes (attempt, taken) then 1 else 0) ≤ attempt.caller.pc.unpublished := by
  cases taken with
  | own action =>
    obtain ⟨after, nearer, published⟩ := own_step attempt next action current granted moved
    refine ⟨after, nearer, ?_⟩
    rw [unpublished_of_left attempt.caller.pc (by omega)]
    split
    · next publishing =>
      obtain ⟨result, returned⟩ := published publishing
      rw [returned]
      exact Nat.le_refl _
    · exact unpublished_le next.caller.pc
  | outside store =>
    obtain ⟨after, same⟩ := outside_step attempt next store current alone moved
    rw [same]
    exact ⟨after, Nat.le_refl _, Nat.le_refl _⟩

/-- A call that is not disturbed and that the backend does not refuse publishes once. -/
theorem finishes_of_granted (trace : List (Attempt git × Move git)) (attempt : Attempt git)
    (run : Run Begun Moves trace attempt)
    (granted : ∀ taken ∈ trace, taken.1.refused taken.2 = false)
    (alone : ∀ taken ∈ trace, taken.1.disturbed taken.2 = false) : FinishesAtOnce trace attempt := by
  let guard (attempt : Attempt git) (taken : Move git) : Prop :=
    attempt.refused taken = false ∧ attempt.disturbed taken = false
  have met : ∀ taken ∈ trace, guard taken.1 taken.2 := fun taken member => ⟨granted taken member, alone taken member⟩
  have begun (start : Attempt git) (begins : Begun start) : start.UpToDate := by
    unfold Attempt.UpToDate
    rw [begins]
    trivial
  have steps := run.ranked guard Attempt.UpToDate (fun attempt => attempt.caller.pc.left) isOwn 3
    (fun start begins => ⟨begun start begins, left_le _⟩)
    (fun s label t current met moved =>
      have kept := undisturbed_step s t label current met.1 met.2 moved
      ⟨kept.1, kept.2.1⟩) met
  have publications := run.ranked guard Attempt.UpToDate (fun attempt => attempt.caller.pc.unpublished) publishes 1
    (fun start begins => ⟨begun start begins, unpublished_le _⟩)
    (fun s label t current met moved =>
      have kept := undisturbed_step s t label current met.1 met.2 moved
      ⟨kept.1, kept.2.2⟩) met
  refine { once := by omega, done := ?_, soon := by omega, proceeds := proceeds attempt }
  intro published
  cases standing : attempt.caller.pc with
  | returned result => exact ⟨result, standing⟩
  | readTip | readHistory | publish =>
    simp only [standing, Pc.unpublished] at publications
    omega

/-- The loop retries nothing but lost races, and an undisturbed call publishes once, exactly
when the backend refuses no publication at an unmoved ref. -/
theorem retries_iff (trace : List (Attempt git × Move git)) (attempt : Attempt git)
    (run : Run Begun Moves trace attempt) :
    ((∀ taken ∈ trace, ReturnsFailure taken.1 taken.2) ∧
        ((∀ taken ∈ trace, taken.1.disturbed taken.2 = false) → FinishesAtOnce trace attempt)) ↔
      ∀ taken ∈ trace, taken.1.refused taken.2 = false := by
  constructor
  · rintro ⟨returns, _⟩ taken member
    exact (returnsFailure_iff taken.1 taken.2).mp (returns taken member)
  · intro granted
    refine ⟨?_, finishes_of_granted trace attempt run granted⟩
    intro taken member
    exact (returnsFailure_iff taken.1 taken.2).mpr (granted taken member)

/-! A ref that cannot be written. -/

theorem moves_of_advance (s t : Store git) (caller : Caller ObjectId) (action : Action ObjectId) (pc : Pc ObjectId)
    (acted : advance s caller action = some (t, pc)) :
    Moves ⟨s, caller⟩ (.own action) ⟨t, { caller with pc := pc }⟩ := by
  simp only [Moves, Attempt.move, acted]
  rfl

/-- A refused publication leaves the call where it began, and the store as it was. -/
theorem refused_round (init : Attempt git → Prop) (s : Store git) (caller : Caller ObjectId) (begins : caller.pc = .readTip)
    (claims : List (Claim ObjectId)) (listed : log s caller.on = .ok claims) (trace : List (Attempt git × Move git))
    (run : Run init Moves trace ⟨s, caller⟩) : ∃ round, Run init Moves (round ++ trace) ⟨s, caller⟩ ∧
      (∀ taken ∈ round, isOwn taken = true) ∧ round.countP publishes = 1 := by
  have again : { caller with pc := .readTip } = caller := by rw [← begins]
  have read := readRef_of_log s caller.on claims listed
  have lost (current : Option ObjectId) (sequence : Nat) :
      Moves (⟨s, { caller with pc := .publish current sequence }⟩ : Attempt git) (.own (.lose false)) ⟨s, caller⟩ := by
    have moved := moves_of_advance s s { caller with pc := .publish current sequence } (.lose false) .readTip rfl
    rwa [again] at moved
  cases named : s.refs (git.entityName caller.on) with
  | none =>
    have reads : advance s caller .run = some (s, .publish none 0) := by
      simp only [advance, begins, read, named]
    have reading := moves_of_advance s s caller .run _ reads
    refine ⟨[_, _], (run.next reading).next (lost none 0), ?_, ?_⟩
    · simp [isOwn]
    · simp [List.countP_cons, publishes, begins]
  | some tip =>
    have reads : advance s caller .run = some (s, .readHistory tip) := by
      simp only [advance, begins, read, named]
    have walked := history_of_log s caller.on claims listed
    have counts : advance s { caller with pc := .readHistory tip } .run =
        some (s, .publish (some tip) (claims.map Claim.id).length) := by
      simp only [advance, walked]
    have reading := moves_of_advance s s caller .run _ reads
    have counting := moves_of_advance s s _ .run _ counts
    refine ⟨[_, _, _], ((run.next reading).next counting).next (lost (some tip) _), ?_, ?_⟩
    · simp [isOwn]
    · simp [List.countP_cons, publishes, begins]

/-- Where the backend refuses every write of the ref, a call that nobody disturbs publishes
as often as one likes and has not returned. -/
theorem refused_forever (s : Store git) (caller : Caller ObjectId) (begins : caller.pc = .readTip)
    (claims : List (Claim ObjectId)) (listed : log s caller.on = .ok claims) (n : Nat) :
    ∃ trace, Run (· = ⟨s, caller⟩) Moves trace ⟨s, caller⟩ ∧ (∀ taken ∈ trace, isOwn taken = true) ∧
      trace.countP publishes = n := by
  induction n with
  | zero => exact ⟨[], .start rfl, by simp, rfl⟩
  | succ n ih =>
    obtain ⟨trace, run, alone, count⟩ := ih
    obtain ⟨round, longer, own, once⟩ := refused_round _ s caller begins claims listed trace run
    refine ⟨round ++ trace, longer, ?_, ?_⟩
    · intro taken member
      rcases List.mem_append.mp member with recent | earlier
      · exact own taken recent
      · exact alone taken earlier
    · rw [List.countP_append, once, count, Nat.add_comm]

/-! Calls among others. -/

/-- A step of a system as call `i` sees it: its own, or one from outside. -/
structure SeenAs (i : Nat) (taken : System git × Event ObjectId) (seen : Attempt git × Move git) : Prop where
  store : taken.1.store = seen.1.store
  caller : taken.1.callers[i]? = some seen.1.caller
  own : ∀ action, taken.2 = .act i action ↔ seen.2 = .own action

/-- Whatever calls are interleaved, each runs its own loop on a store that the others change. -/
theorem run_seen (i : Nat) (origin : System git) (start : Caller ObjectId) (located : origin.callers[i]? = some start)
    (begins : start.pc = .readTip) (trace : List (System git × Event ObjectId)) (system : System git)
    (run : Run (· = origin) Fires trace system) : ∃ seen attempt, Run Begun Moves seen attempt ∧
      List.Forall₂ (SeenAs i) trace seen ∧ system.store = attempt.store ∧ system.callers[i]? = some attempt.caller := by
  induction run with
  | start same =>
    subst same
    exact ⟨[], ⟨_, start⟩, .start begins, .nil, rfl, located⟩
  | @next trace system later event run fired ih =>
    obtain ⟨seen, attempt, own, agree, store, caller⟩ := ih
    have elsewhere (t : Store git) (others : ∀ action, event ≠ .act i action) :
        Run Begun Moves ((attempt, .outside t) :: seen) { attempt with store := t } ∧
          List.Forall₂ (SeenAs i) ((system, event) :: trace) ((attempt, .outside t) :: seen) :=
      ⟨own.next rfl, .cons ⟨store, caller, fun action => iff_of_false (others action) nofun⟩ agree⟩
    rcases fire_cases system later event fired with
      ⟨writer, call, on, envelope, ready, rfl, _, rfl⟩ | ⟨j, action, found, t, pc, rfl, there, acted, rfl⟩
    · obtain ⟨longer, agree⟩ := elsewhere ready nofun
      refine ⟨_, _, longer, agree, rfl, ?_⟩
      obtain ⟨bound, _⟩ := List.getElem?_eq_some_iff.mp caller
      rw [List.getElem?_append_left bound]
      exact caller
    · by_cases same : j = i
      · subst same
        obtain rfl := Option.some.inj (there.symm.trans caller)
        rw [store] at acted
        obtain ⟨bound, _⟩ := List.getElem?_eq_some_iff.mp caller
        refine ⟨(attempt, .own action) :: seen, _, own.next (moves_of_advance _ t _ action pc acted),
          .cons ⟨store, caller, ?_⟩ agree, rfl, List.getElem?_set_self bound⟩
        intro other
        simp
      · obtain ⟨longer, agree⟩ := elsewhere t (fun other taken => same (Event.act.inj taken).1)
        exact ⟨_, _, longer, agree, rfl, by rw [List.getElem?_set_ne same, caller]⟩

section Sample

/-- A call that signs a note, where there are no claims yet. -/
def lone : Attempt digestGit := ⟨emptyStore, { writer := alice, on := note.target, envelope := note, pc := .readTip }⟩

def attempted (moves : List (Move digestGit)) : List (Attempt digestGit × Move digestGit) × Attempt digestGit :=
  (Run.trail Attempt.move [] lone moves).getD ([], lone)

theorem run_attempted (moves : List (Move digestGit)) (done : (Run.trail Attempt.move [] lone moves).isSome = true) :
    Run Begun Moves (attempted moves).1 (attempted moves).2 :=
  Run.of_trail_getD Attempt.move lone moves rfl done

/-- The ref is read as absent, and the first claim published. -/
theorem retries_iff_lone : FinishesAtOnce (attempted [.own .run, .own .run]).1 (attempted [.own .run, .own .run]).2 := by
  have granted : (attempted [.own .run, .own .run]).1.all (fun taken => !taken.1.refused taken.2) = true := by
    decide +kernel
  have alone : (attempted [.own .run, .own .run]).1.all (fun taken => !taken.1.disturbed taken.2) = true := by
    decide +kernel
  exact ((retries_iff _ _ (run_attempted [.own .run, .own .run] (by decide +kernel))).mpr (by simpa using granted)).2
    (by simpa using alone)

/-- The ref cannot be written and nobody else is there: the call tries again, and again. -/
def refusedTwice : List (Move digestGit) := [.own .run, .own (.lose false), .own .run, .own (.lose false)]

theorem refused_retried : Run Begun Moves (attempted refusedTwice).1 (attempted refusedTwice).2 ∧
    (∀ taken ∈ (attempted refusedTwice).1, taken.1.disturbed taken.2 = false) ∧
    (∃ taken ∈ (attempted refusedTwice).1, ¬ ReturnsFailure taken.1 taken.2) ∧
    (attempted refusedTwice).1.countP publishes = 2 ∧ ¬ (attempted refusedTwice).2.Done := by
  have alone : (attempted refusedTwice).1.all (fun taken => !taken.1.disturbed taken.2) = true := by
    decide +kernel
  have refused : (attempted refusedTwice).1.any (fun taken => taken.1.refused taken.2) = true := by
    decide +kernel
  have unfinished : (attempted refusedTwice).2.caller.pc.left = 3 := by decide +kernel
  obtain ⟨taken, member, unmoved⟩ := List.any_eq_true.mp refused
  refine ⟨run_attempted refusedTwice (by decide +kernel), by simpa using alone, ⟨taken, member, ?_⟩,
    by decide +kernel, ?_⟩
  · rw [returnsFailure_iff, unmoved]
    decide
  · rintro ⟨result, returned⟩
    rw [returned] at unfinished
    cases unfinished

end Sample

end GitAnchor.Attest
