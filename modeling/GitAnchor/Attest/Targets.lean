import GitAnchor.Foundation.Text
import GitAnchor.Attest.Commands

/-! Targets as they are written and as they are printed. A kind may have colons in it, for the
last one is where the id begins; so what a chain prints of a target can be given back. -/

namespace GitAnchor.Attest
open GitAnchor.Foundation GitAnchor.Substrate Text
variable {ObjectId : Type}

/-- Read `<kind>:<hex>`. -/
def TargetArg.fromStr (raw : String) : Except String TargetArg :=
  match cutLast ':' raw.toList with
  | none => .error ("expected <kind>:<hex>, got " ++ raw.quote)
  | some (kind, id) =>
      if kind = [] ∨ id = [] then .error ("expected <kind>:<hex>, got " ++ raw.quote)
      else .ok ⟨String.ofList kind, String.ofList id⟩

def targetText (terminal : Terminal ObjectId) (on : Target ObjectId) : String :=
  on.kind ++ ":" ++ terminal.display on.id

/-- The lines that a claim is printed on. -/
def claimLines (terminal : Terminal ObjectId) (claim : Claim ObjectId) : List String :=
  ["claim " ++ terminal.display claim.id,
    "target: " ++ targetText terminal claim.envelope.target,
    "payload: " ++ terminal.display claim.envelope.payload ++ " (" ++ claim.envelope.payloadKind ++ ")",
    "key: " ++ terminal.display claim.envelope.key] ++
    (claim.revokedBy.map (fun revocation => "revoked-by: " ++ terminal.display revocation)).toList ++ [""]

def printClaims (terminal : Terminal ObjectId) (claims : List (Claim ObjectId)) : List String :=
  claims.flatMap (claimLines terminal)

/-- The id is displayed as a hash that the repository reads it from, with no colon in it. -/
structure ReadsBack (terminal : Terminal ObjectId) (id : ObjectId) : Prop where
  read : terminal.fromHex (terminal.display id) = some id
  nonempty : terminal.display id ≠ ""
  plain : ':' ∉ (terminal.display id).toList

theorem fromStr_eq_ok (raw : String) (arg : TargetArg) :
    TargetArg.fromStr raw = .ok arg ↔
      raw = arg.kind ++ ":" ++ arg.id ∧ arg.kind ≠ "" ∧ arg.id ≠ "" ∧ ':' ∉ arg.id.toList := by
  have letters : raw = arg.kind ++ ":" ++ arg.id ↔ raw.toList = arg.kind.toList ++ ':' :: arg.id.toList := by
    rw [← String.toList_inj, String.toList_append, String.toList_append, List.append_assoc]
    rfl
  have some_letters (text : String) : text ≠ "" ↔ text.toList ≠ [] := by
    rw [ne_eq, ← String.toList_inj]
    rfl
  rw [letters, some_letters, some_letters]
  obtain ⟨kind, id⟩ := arg
  unfold TargetArg.fromStr
  split
  · next uncut =>
    refine iff_of_false nofun ?_
    rintro ⟨split, _, _, fresh⟩
    rw [(cutLast_eq_some _ _ _ _).mpr ⟨split, fresh⟩] at uncut
    cases uncut
  · next before after cut =>
    obtain ⟨split, fresh⟩ := (cutLast_eq_some _ _ _ _).mp cut
    constructor
    · intro read
      split at read
      · cases read
      · next filled =>
        rw [not_or] at filled
        cases read
        simp only [String.toList_ofList]
        exact ⟨split, filled.1, filled.2, fresh⟩
    · rintro ⟨split', kind_there, id_there, fresh'⟩
      rw [(cutLast_eq_some _ _ _ _).mpr ⟨split', fresh'⟩] at cut
      obtain ⟨rfl, rfl⟩ := Prod.mk.inj (Option.some.inj cut)
      rw [if_neg (not_or.mpr ⟨kind_there, id_there⟩), String.ofList_toList, String.ofList_toList]

theorem target_kind (repo : Repository ObjectId) (arg : TargetArg) (on : Target ObjectId)
    (named : target repo arg = .ok on) : on.kind = arg.kind := by
  obtain ⟨id, _, same⟩ := Result.bind_eq_ok.mp named
  rw [← Except.ok.inj same]

/-- A target with a label is read back from its text. -/
theorem target_of_text (terminal : Terminal ObjectId) (on : Target ObjectId) (shown : ReadsBack terminal on.id)
    (labelled : on.kind ≠ "") :
    ∃ arg, TargetArg.fromStr (targetText terminal on) = .ok arg ∧ target terminal.toRepository arg = .ok on := by
  refine ⟨⟨on.kind, terminal.display on.id⟩, (fromStr_eq_ok _ _).mpr ⟨rfl, labelled, shown.nonempty, shown.plain⟩, ?_⟩
  rw [target, object]
  dsimp only
  rw [shown.read]
  rfl

/-- The kind of a revocation's target is the label of claims. -/
theorem kind_of_isRevocation (envelope : Envelope ObjectId) (revokes : isRevocation envelope = true) :
    envelope.target.kind = CLAIM_TARGET_KIND := by
  simp only [isRevocation, Bool.and_eq_true, decide_eq_true_eq] at revokes
  exact revokes.1

/-- What a chain prints of a target, logged or resolved, can be given back: it is read as that
target, and for any claim but a revocation that is the chain's own. -/
theorem printed_targets_return [DecidableEq ObjectId] {git : Git ObjectId} (s : Store git)
    (trace : List (Store git × Performed ObjectId)) (run : Run Unclaimed Step trace s) (terminal : Terminal ObjectId)
    (raw : String) (arg : TargetArg) (given : TargetArg.fromStr raw = .ok arg) (on : Target ObjectId)
    (named : target terminal.toRepository arg = .ok on) (claims : List (Claim ObjectId))
    (listed : log s on = .ok claims ∨ resolve s on = .ok claims)
    (shown : ∀ claim ∈ claims, ReadsBack terminal claim.envelope.target.id) :
    ∀ claim ∈ claims, ∃ text again, "target: " ++ text ∈ printClaims terminal claims ∧
      TargetArg.fromStr text = .ok again ∧ target terminal.toRepository again = .ok claim.envelope.target ∧
      (isRevocation claim.envelope = false → claim.envelope.target = on) := by
  intro claim member
  obtain ⟨entries, read, entry, located, _, carried⟩ := entry_of_listed s on claims listed claim member
  have placed := placed_run s trace run on entries read entry located
  rw [carried] at placed
  have labelled : claim.envelope.target.kind ≠ "" := by
    rcases placed with own | revokes
    · rw [own, target_kind terminal.toRepository arg on named]
      exact ((fromStr_eq_ok raw arg).mp given).2.1
    · rw [kind_of_isRevocation claim.envelope revokes]
      decide
  obtain ⟨again, parsed, same⟩ := target_of_text terminal claim.envelope.target (shown claim member) labelled
  refine ⟨targetText terminal claim.envelope.target, again, ?_, parsed, same, ?_⟩
  · apply List.mem_flatMap.mpr
    exact ⟨claim, member, by simp [claimLines]⟩
  · intro ordinary
    rcases placed with own | revokes
    · exact own
    · exact nomatch ordinary.symm.trans revokes

section Sample

/-- The repository in which `7` is the object that the note is about, and `8` the note's claim. -/
def noteTerminal : Terminal Digest :=
  { fromHex := fun text => if text = "7" then some (.nat 7) else if text = "8" then some noted.1 else none
    revParseSingle := fun _ => none
    display := fun id => if id = .nat 7 then "7" else if id = noted.1 then "8" else toString (repr id) }

/-- The last colon is the one that counts. -/
example : (TargetArg.fromStr "a:doc:7").toOption.map TargetArg.kind = some "a:doc" := by decide +kernel

/-- The note's chain as it is resolved once the note is revoked. -/
def resolvedNote : List (Claim Digest) :=
  [⟨revokedOnce.1, revocationEnvelope digestGit noted.1 (.nat 9), none⟩, ⟨noted.1, note, some revokedOnce.1⟩]

theorem printed_targets_return_note : resolve revokedOnce.2 note.target = .ok resolvedNote ∧
    ∀ claim ∈ resolvedNote, ∃ text again,
      "target: " ++ text ∈ printClaims noteTerminal resolvedNote ∧ TargetArg.fromStr text = .ok again ∧
        target noteTerminal.toRepository again = .ok claim.envelope.target ∧
        (isRevocation claim.envelope = false → claim.envelope.target = note.target) := by
  have given : TargetArg.fromStr "doc:7" = .ok ⟨"doc", "7"⟩ := (fromStr_eq_ok _ _).mpr (by decide)
  have resolved : resolve revokedOnce.2 note.target = .ok resolvedNote := by decide +kernel
  have readable : ∀ claim ∈ resolvedNote, ReadsBack noteTerminal claim.envelope.target.id := by
    intro claim member
    rcases List.mem_cons.mp member with rfl | last
    · exact ⟨by decide +kernel, by decide +kernel, by decide +kernel⟩
    · rw [List.mem_singleton.mp last]
      exact ⟨rfl, by decide, by decide⟩
  exact ⟨resolved, printed_targets_return revokedOnce.2 _ revoked_run noteTerminal "doc:7" ⟨"doc", "7"⟩ given note.target
    rfl _ (.inr resolved) readable⟩

end Sample

end GitAnchor.Attest
