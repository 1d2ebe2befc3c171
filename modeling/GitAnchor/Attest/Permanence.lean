import GitAnchor.Attest.Linearization
import GitAnchor.Attest.Verdicts

/-! What a reader was told stays true. Whatever calls are interleaved afterwards, claims keep
their verdicts, keys stay resolved, and the marks of revocations stay or make room for newer
ones; and a revocation that returned is never lost. -/

namespace GitAnchor.Attest
open GitAnchor.Foundation GitAnchor.Substrate
variable {ObjectId : Type} [DecidableEq ObjectId] {git : Git ObjectId}

theorem fires_grows (system next : System git) (event : Event ObjectId) (consistent : Consistent system)
    (fired : Fires system event next) : Grows system.store next.store := by
  rcases fire_cases system next event fired with
    ⟨writer, call, on, envelope, ready, rfl, prepared, rfl⟩ | ⟨i, action, caller, t, pc, rfl, located, acted, rfl⟩
  · exact prepared.grows
  · obtain ⟨claims, listed⟩ := consistent.legible caller.on
    have snapshot := consistent.snapshots caller (List.mem_of_getElem? located)
    rcases (advance_cases system.store t caller action pc claims listed snapshot acted).2 with
      quiet | ⟨id, rfl, appended⟩
    · exact (chains_kept system.store t quiet.kept).1
    · exact appended.grows

theorem interleaved_grows (origin : System git) (consistent : Consistent origin)
    (trace : List (System git × Event ObjectId)) (system : System git) (run : Run (· = origin) Fires trace system) :
    Consistent system ∧ Grows origin.store system.store := by
  induction run with
  | start same =>
    subst same
    exact ⟨consistent, .refl _⟩
  | next _ fired ih =>
    obtain ⟨sound, grown⟩ := ih
    exact ⟨consistent_fires _ _ _ sound fired, grown.trans (fires_grows _ _ _ sound fired)⟩

/-- A claim in a later reading of its chain: the same claim, whose mark has stayed, or is now
that of a newer revocation. -/
def KeptMark (newer : List (Claim ObjectId)) (before after : Claim ObjectId) : Prop :=
  after.id = before.id ∧ after.envelope = before.envelope ∧
    (after.revokedBy = before.revokedBy ∨
      ∃ revocation ∈ newer, Revokes revocation after ∧ after.revokedBy = some revocation.id)

theorem revokerOf_append (newer claims : List (Claim ObjectId)) (id : ObjectId) :
    revokerOf (revocationsOf (newer ++ claims)) id =
      (revokerOf (revocationsOf newer) id <|> revokerOf (revocationsOf claims) id) := by
  unfold revokerOf revocationsOf
  rw [List.filter_append, List.map_append, List.find?_append]
  cases (((newer.filter _).map _).find? _) <;> rfl

theorem keptMark_marked (newer claims : List (Claim ObjectId)) (claim : Claim ObjectId)
    (unmarked : claim.revokedBy = none) : KeptMark (newer.map (marked (revocationsOf (newer ++ claims))))
      (marked (revocationsOf claims) claim) (marked (revocationsOf (newer ++ claims)) claim) := by
  refine ⟨rfl, rfl, ?_⟩
  have both : (marked (revocationsOf (newer ++ claims)) claim).revokedBy =
      (revokerOf (revocationsOf newer) claim.id <|> revokerOf (revocationsOf claims) claim.id) := by
    rw [marked, unmarked, revokerOf_append]
    rfl
  have old : (marked (revocationsOf claims) claim).revokedBy = revokerOf (revocationsOf claims) claim.id := by
    rw [marked, unmarked]
    rfl
  rw [both, old]
  cases found : revokerOf (revocationsOf newer) claim.id with
  | none => exact .inl rfl
  | some revocation =>
    obtain ⟨newest, entry, older, rfl, rfl, revokes, _⟩ := (revokerOf_eq_some newer claim revocation).mp found
    exact .inr ⟨_, List.mem_map_of_mem (List.mem_append_right newest List.mem_cons_self), revokes, rfl⟩

/-- Resolved again later, a chain ends with the claims it had, their marks kept. -/
theorem resolve_grows (s t : Store git) (grown : Grows s t) (legible : Legible s) (target : Target ObjectId)
    (old : List (Claim ObjectId)) (resolved : resolve s target = .ok old) : ∃ newer later,
      resolve t target = .ok (newer ++ later) ∧ List.Forall₂ (KeptMark newer) old later := by
  obtain ⟨claims, listed⟩ := legible target
  obtain ⟨newer, longer⟩ := grown.log target claims listed
  rw [resolve_of_log s target claims listed] at resolved
  obtain rfl := Except.ok.inj resolved
  refine ⟨newer.map (marked (revocationsOf (newer ++ claims))), claims.map (marked (revocationsOf (newer ++ claims))),
    ?_, ?_⟩
  · rw [resolve_of_log t target _ longer, List.map_append]
  · rw [List.forall₂_map_left_iff, List.forall₂_map_right_iff, List.forall₂_same]
    intro claim member
    exact keptMark_marked newer claims claim (log_mem s target claims listed claim member).2

/-- Whatever calls are interleaved from a reachable state on: a verdict given is given again,
a key resolved resolves to the same, and a resolved chain only gains claims and newer marks. -/
theorem answers_permanent (ssh : SshKey) (earlier : List (System git × Event ObjectId)) (origin : System git)
    (reached : Run Initial Fires earlier origin) (trace : List (System git × Event ObjectId)) (system : System git)
    (run : Run (· = origin) Fires trace system) :
    (∀ claim verdict, verify ssh origin.store claim = .ok verdict → verify ssh system.store claim = .ok verdict) ∧
    (∀ id answer, key ssh origin.store id = .ok answer → key ssh system.store id = .ok answer) ∧
    ∀ target old, resolve origin.store target = .ok old → ∃ newer later,
      resolve system.store target = .ok (newer ++ later) ∧ List.Forall₂ (KeptMark newer) old later := by
  have consistent := reached.invariant consistent_initial consistent_fires
  obtain ⟨_, grown⟩ := interleaved_grows origin consistent trace system run
  exact ⟨fun claim verdict given => verifyDispatched_grows ssh _ _ grown claim none verdict given,
    fun id answer given => key_grows ssh _ _ grown id answer given,
    fun target old resolved => resolve_grows _ _ grown consistent.legible target old resolved⟩

/-- What landed is on the chain that its call prepared for. -/
theorem landed_of_mem (trace : List (System git × Event ObjectId)) (system : System git)
    (run : Run Initial Fires trace system) (done : Performed ObjectId) (member : done ∈ landings trace) :
    ∃ on envelope claims claim, Prepared system.store done.call on envelope system.store ∧
      log system.store on = .ok claims ∧ claim ∈ claims ∧ claim.id = done.id ∧ claim.envelope = envelope := by
  have attributed := attributed_run trace system run
  have intact := intact_of_consistent system (run.invariant consistent_initial consistent_fires)
  obtain ⟨⟨caller, call⟩, paired, shown⟩ :=
    List.mem_filterMap.mp ((results_perm trace system run).mem_iff.mpr member)
  obtain ⟨i, both⟩ := List.mem_iff_getElem?.mp paired
  obtain ⟨located, ran⟩ := List.getElem?_zip_eq_some.mp both
  unfold reported at shown
  split at shown
  · next id returned =>
    obtain rfl := Option.some.inj shown
    obtain ⟨claims, listed, _, claim, present, named, carried⟩ :=
      intact.landed caller (List.mem_of_getElem? located) id returned
    exact ⟨caller.on, caller.envelope, claims, claim, attributed.prepared i caller call located ran, listed, present,
      named, carried⟩
  · cases shown

/-- The claim is on the chain of its own envelope's target. -/
def OnOwnChain (s : Store git) (id : ObjectId) : Prop :=
  ∃ envelope claims, envelopeAt s id = .ok envelope ∧ log s envelope.target = .ok claims ∧ id ∈ claims.map Claim.id

/-- What any other call than a revocation returned is there. -/
theorem onOwnChain_of_landed (trace : List (System git × Event ObjectId)) (system : System git)
    (run : Run Initial Fires trace system) (done : Performed ObjectId) (member : done ∈ landings trace)
    (other : ∀ claim by_key, done.call ≠ .revoke claim by_key) : OnOwnChain system.store done.id := by
  obtain ⟨on, envelope, claims, landing, prepared, listed, present, named, carried⟩ :=
    landed_of_mem trace system run done member
  have home : envelope.target = on := by
    rcases prepared.home with own | ⟨claim, by_key, revokes, _⟩
    · exact own
    · exact absurd revokes (other claim by_key)
  have read := (log_mem system.store on claims listed landing present).1
  rw [named, carried] at read
  exact ⟨envelope, claims, read, home ▸ listed, named ▸ List.mem_map_of_mem present⟩

/-- No revocation is lost: once a call has returned that revokes a claim on the chain of its own
target, such as any call but a revocation returns, resolving that chain has the claim marked
with that revocation or a newer one. -/
theorem revocations_land (trace : List (System git × Event ObjectId)) (system : System git)
    (run : Run Initial Fires trace system) (done : Performed ObjectId) (member : done ∈ landings trace)
    (claim by_key : ObjectId) (revoking : done.call = .revoke claim by_key)
    (own : OnOwnChain system.store claim ∨ ∃ signed ∈ landings trace, signed.id = claim ∧
      ∀ other by_key', signed.call ≠ .revoke other by_key') :
    ∃ revoked claims resolved entry, envelopeAt system.store claim = .ok revoked ∧
      log system.store revoked.target = .ok claims ∧ resolve system.store revoked.target = .ok resolved ∧
      entry ∈ resolved ∧ entry.id = claim ∧ ∃ newer newest older, claims = newer ++ newest :: older ∧
        entry.revokedBy = some newest.id ∧ done.id ∈ (newest :: older).map Claim.id := by
  have home : OnOwnChain system.store claim := by
    rcases own with there | ⟨signed, landed, rfl, ordinary⟩
    · exact there
    · exact onOwnChain_of_landed trace system run signed landed ordinary
  obtain ⟨on, envelope, claims, landing, prepared, listed, present, named, carried⟩ :=
    landed_of_mem trace system run done member
  rw [revoking] at prepared
  cases prepared with
  | revoke _ _ revoked read =>
    obtain ⟨revoked', claims', read', listed', among⟩ := home
    rw [read] at read'
    obtain rfl := Except.ok.inj read'
    rw [listed] at listed'
    obtain rfl := Except.ok.inj listed'
    obtain ⟨plain, there, about⟩ := List.mem_map.mp among
    have revokes : Revokes landing plain := by
      rw [Revokes, carried, about]
      exact ⟨rfl, rfl, rfl⟩
    have unmarked := (log_mem system.store revoked.target claims listed plain there).2
    obtain ⟨mark, carries⟩ := Option.ne_none_iff_exists'.mp (marked_of_revokes claims plain landing present revokes)
    obtain ⟨newer, newest, older, split, rfl, _, none_newer⟩ := (marked_revokedBy claims plain unmarked mark).mp carries
    refine ⟨revoked, claims, _, _, read, listed, resolve_of_log system.store revoked.target claims listed,
      List.mem_map_of_mem there, about, newer, newest, older, split, carries, ?_⟩
    rw [← named]
    apply List.mem_map_of_mem
    rw [split] at present
    rcases List.mem_append.mp present with among_newer | below
    · exact absurd revokes (none_newer landing among_newer)
    · exact below

section Sample

/-- Alice publishes her key and signs a note under it. -/
def signedFirst : List (Event Digest) :=
  [.begin alice (.addKey aliceKey), .act 0 .run, .act 0 .run,
    .begin alice (.sign (noteUnder rooted.1)), .act 1 .run, .act 1 .run]

def signedNote : Digest × Store digestGit := outcome (sign rooted.2 alice (noteUnder rooted.1))

/-- The note is revoked while another is being signed on the same chain. -/
def revokedAfter : List (Event Digest) :=
  [.begin bob (.revoke signedNote.1 (.nat 9)), .begin alice (.sign (noteUnder rooted.1)), .act 2 .run, .act 3 .run,
    .act 2 .run, .act 3 .run, .act 3 .run, .act 2 .run, .act 2 .run, .act 2 .run, .act 2 .run]

def revokedLater : List (System digestGit × Event Digest) × System digestGit :=
  (Run.trail fire [] (trailed signedFirst).2 revokedAfter).getD ([], (trailed signedFirst).2)

theorem run_revokedLater : Run (· = (trailed signedFirst).2) Fires revokedLater.1 revokedLater.2 :=
  Run.of_trail_getD fire (trailed signedFirst).2 revokedAfter rfl (by decide +kernel)

theorem answers_permanent_revoked :
    verify namedSsh revokedLater.2.store ⟨signedNote.1, noteUnder rooted.1, none⟩ = .ok .verified ∧
      key namedSsh revokedLater.2.store rooted.1 = .ok (some aliceKey) ∧
      ∃ newer later, resolve revokedLater.2.store note.target = .ok (newer ++ later) ∧ newer.length = 2 ∧
        List.Forall₂ (KeptMark newer) [⟨signedNote.1, noteUnder rooted.1, none⟩] later := by
  obtain ⟨verdicts, keys, marks⟩ := answers_permanent namedSsh _ _
    (run_trailed signedFirst (by decide +kernel)) _ _ run_revokedLater
  obtain ⟨newer, later, resolved, kept⟩ := marks note.target [⟨signedNote.1, noteUnder rooted.1, none⟩] (by decide +kernel)
  refine ⟨verdicts _ _ (by decide +kernel), keys _ _ (by decide +kernel), newer, later, resolved, ?_, kept⟩
  have total : (resolve revokedLater.2.store note.target).toOption.map List.length = some 3 := by decide +kernel
  have one := kept.length_eq
  simp only [resolved, Except.toOption, Option.map_some, List.length_append, Option.some.injEq] at total
  simp only [List.length_singleton] at one
  omega

theorem revocations_land_raced : ∃ done ∈ landings (trailed raced).1, ∃ revoked claims resolved entry,
    envelopeAt (trailed raced).2.store noted.1 = .ok revoked ∧
      log (trailed raced).2.store revoked.target = .ok claims ∧
      resolve (trailed raced).2.store revoked.target = .ok resolved ∧
      entry ∈ resolved ∧ entry.id = noted.1 ∧ ∃ newer newest older, claims = newer ++ newest :: older ∧
        entry.revokedBy = some newest.id ∧ done.id ∈ (newest :: older).map Claim.id := by
  have run := run_trailed raced (by decide +kernel)
  have revoking : (landings (trailed raced).1).head?.map Performed.call = some (.revoke noted.1 (.nat 9)) := by
    decide +kernel
  obtain ⟨done, newest, call⟩ := Option.map_eq_some_iff.mp revoking
  have member := List.mem_of_mem_head? newest
  have signing : ((landings (trailed raced).1).find? (fun done => done.id = noted.1)).map Performed.call =
      some (.sign note) := by decide +kernel
  obtain ⟨signed, found, call'⟩ := Option.map_eq_some_iff.mp signing
  have ordinary : ∀ other by_key, signed.call ≠ .revoke other by_key := by
    intro other by_key revokes
    rw [call'] at revokes
    cases revokes
  have named := List.find?_some found
  exact ⟨done, member, revocations_land _ _ run done member _ _ call
    (.inr ⟨signed, List.mem_of_find?_eq_some found, of_decide_eq_true named, ordinary⟩)⟩

end Sample

end GitAnchor.Attest
