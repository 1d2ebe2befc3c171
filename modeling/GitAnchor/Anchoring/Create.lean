import GitAnchor.Anchoring.Plain
import GitAnchor.Anchoring.Validity

/-! What `create` binds: a position in a file, from a revision or from disk, or else the bare
revision. A position is made from the commit that the revision peels to, a bare revision from
the object that it names. -/

namespace GitAnchor.Anchoring
open GitAnchor.Foundation GitAnchor.Substrate

/-- The value of `-L`: a range, and a path where one is embedded. -/
structure LinesArg where
  range : LineRange
  path : Option String
deriving DecidableEq

/-- Where the command runs: the directory below the root of the working tree, and the files
that a relative path finds from there. -/
structure Invocation where
  cwdPrefix : Except String (Option String)
  fileExists : String → Bool

inductive CreateError (ObjectId : Type) where
  | pathsDisagree (path linesPath : String)
  | linesRequirePath
  | noCwdPrefix (failure : String)
  | worktreeRequiresPath
  | capture (failure : Error ObjectId)
  | cannotResolve (revision : String) (isFile : Bool)
deriving DecidableEq

variable {ObjectId : Type}

/-- What the command adds to the failure underneath, if there is one. -/
def CreateError.message : CreateError ObjectId → Option String
  | .pathsDisagree path linesPath =>
      some ("--path " ++ path.quote ++ " and -L's embedded path " ++ linesPath.quote ++ " disagree")
  | .linesRequirePath => some "-L/--lines requires --path (or a `:PATH` embedded in -L's value)"
  | .noCwdPrefix _ => some "determining the repository's cwd prefix"
  | .worktreeRequiresPath => some "--worktree requires --path"
  | .capture _ => none
  | .cannotResolve revision isFile =>
      some ("cannot resolve revision " ++ revision.quote ++
        if isFile then "; to anchor a file, use: --path " ++ revision else "")

/-- The components of a path but for those that name its own directory. -/
def pathComponents (path : String) : List String :=
  (if path.toList.head? = some '/' then ["/"] else []) ++
    ((path.toList.splitOn '/').map String.ofList).filter (fun component => component ≠ "" ∧ component ≠ ".")

/-- The path that a pathspec names from the directory the command runs in. -/
def cwdRelativePath (invocation : Invocation) (path : String) : Except (CreateError ObjectId) String :=
  match invocation.cwdPrefix with
  | .error failure => .error (.noCwdPrefix failure)
  | .ok parent =>
      .ok ("/".intercalate (((parent.map pathComponents).getD []) ++ pathComponents path))

/-- The path to anchor: the given one, or the one that `-L` embeds. -/
def rawPath (path : Option String) (lines : Option LinesArg) : Except (CreateError ObjectId) (Option String) :=
  match path, lines.bind LinesArg.path with
  | some path, some linesPath => if path ≠ linesPath then .error (.pathsDisagree path linesPath) else .ok (some path)
  | some path, none => .ok (some path)
  | none, linesPath => .ok linesPath

variable {gix : Gix ObjectId} [DecidableEq ObjectId]

/-- The binding, and the repository as the capture leaves it. -/
def buildBinding (repo : Repository gix) (invocation : Invocation) (revision path : Option String)
    (lines : Option LinesArg) (worktree : Bool) :
    Except (CreateError ObjectId) (Binding ObjectId × Repository gix) := do
  let raw ← rawPath path lines
  if lines.isSome ∧ raw = none then throw .linesRequirePath
  else
    let range := lines.map LinesArg.range
    match raw with
    | some raw => do
        let path ← cwdRelativePath invocation raw
        if worktree then
          let (anchor, written) ← (captureWorktree repo path range).mapError .capture
          return (.position anchor, written)
        else
          let anchor ← (capture repo (revision.getD "HEAD") path range).mapError .capture
          return (.position anchor, repo)
    | none =>
        if worktree then throw .worktreeRequiresPath
        else
          let revision := revision.getD "HEAD"
          match repo.revParseSingle revision with
          | none => throw (.cannotResolve revision (invocation.fileExists revision))
          | some commit => return (.commit ⟨commit⟩ ⟨⟩, repo)

/-- The command is given a path, by itself or with the lines. -/
def NamesPath (path : Option String) (lines : Option LinesArg) : Prop :=
  path.isSome ∨ ∃ arg, lines = some arg ∧ arg.path.isSome

/-- The revision names a commit itself, no tag of one, and the repository can read it. -/
def NamesCommit (repo : Repository gix) (revision : String) : Prop :=
  ∃ id, repo.revParseSingle revision = some id ∧ (gix.rootTree id).isSome ∧ (repo.peelToCommit id).isSome

omit [DecidableEq ObjectId] in
theorem rawPath_isSome (path : Option String) (lines : Option LinesArg) (raw : Option String)
    (ok : (rawPath path lines : Except (CreateError ObjectId) (Option String)) = .ok raw) :
    raw.isSome ↔ NamesPath path lines := by
  have embedded : (∃ arg, lines = some arg ∧ arg.path.isSome) ↔ (lines.bind LinesArg.path).isSome := by
    cases lines <;> simp
  rw [NamesPath, embedded]
  unfold rawPath at ok
  split at ok
  · split at ok
    · cases ok
    · rw [← Except.ok.inj ok]
      simp
  · rw [← Except.ok.inj ok]
    simp
  · rw [← Except.ok.inj ok]
    simp

/-- Without `--worktree`, what is built is a capture from the revision, or the object it names. -/
theorem buildBinding_ok (repo : Repository gix) (invocation : Invocation) (revision path : Option String)
    (lines : Option LinesArg) (binding : Binding ObjectId) (left : Repository gix)
    (built : buildBinding repo invocation revision path lines false = .ok (binding, left)) :
    left = repo ∧
      ((NamesPath path lines ∧ ∃ file anchor,
          capture repo (revision.getD "HEAD") file (lines.map LinesArg.range) = .ok anchor ∧
          binding = .position anchor) ∨
        (¬ NamesPath path lines ∧ ∃ id, repo.revParseSingle (revision.getD "HEAD") = some id ∧
          binding = .commit ⟨id⟩ ⟨⟩)) := by
  unfold buildBinding at built
  obtain ⟨raw, named, built⟩ := Result.bind_eq_ok.mp built
  have given := rawPath_isSome path lines raw named
  split at built
  · cases built
  · cases raw with
    | some raw =>
      obtain ⟨file, _, built⟩ := Result.bind_eq_ok.mp built
      obtain ⟨anchor, took, built⟩ := Result.bind_eq_ok.mp built
      obtain ⟨rfl, rfl⟩ := Prod.mk.inj (Except.ok.inj built)
      exact ⟨rfl, .inl ⟨given.mp rfl, file, anchor, Result.mapError_eq_ok.mp took, rfl⟩⟩
    | none =>
      have bare : ¬ NamesPath path lines := fun names => nomatch given.mpr names
      simp only [Bool.false_eq_true, if_false] at built
      split at built
      · cases built
      · next id parsed =>
        obtain ⟨rfl, rfl⟩ := Prod.mk.inj (Except.ok.inj built)
        exact ⟨rfl, .inr ⟨bare, id, parsed, rfl⟩⟩

/-- A new anchor is traced to itself: the target has the very entry that was captured. -/
theorem diffTrace_captured (repo : History gix) (revision path : String) (lines : Option LineRange)
    (anchor : Anchor ObjectId) (took : capture repo.toRepository revision path lines = .ok anchor) :
    diffTrace repo.toRepository anchor revision =
      .ok [candidate anchor.identity.path (some anchor.identity.span)] := by
  obtain ⟨resolved, _, root, entry, _, read⟩ := capture_reads repo.toRepository revision path lines anchor took
  obtain ⟨id, _, peeled⟩ := (resolveCommit_eq_ok repo.toRepository revision _).mp resolved
  have held := (repo.peel_present id _ peeled).2
  have again : commitAt repo.toRepository anchor.identity.genesisRev = .ok anchor.identity.genesisRev := by
    rw [commitAt, repo.peel_again id _ peeled]
  have stored := blobAt_of_isBlob repo.toRepository root _ entry read.located read.isBlob
  have same : (some entry).any (fun found => found.mode.isBlob ∧ found.oid = entry.oid) = true := by
    simp [read.isBlob]
  unfold diffTrace diffTraceOnto
  rw [resolved, Result.ok_bind, read.rooted, Result.ok_bind, if_pos held, again, Result.ok_bind, read.rooted,
    Result.ok_bind, stored, Result.ok_bind]
  dsimp only
  rw [read.located, Result.ok_bind, if_pos same]
  rfl

/-- The object that a revision names is valid there exactly when it is a commit: what is no
commit is not what the revision peels to, and has no merge base with it. -/
theorem commitValidity_named_iff (repo : History gix) (revision : String) (id : ObjectId)
    (parsed : repo.revParseSingle revision = some id) :
    commitValidity repo id revision = .valid ↔ NamesCommit repo.toRepository revision := by
  constructor
  · intro valid
    unfold commitValidity at valid
    split at valid
    · cases valid
    · split at valid
      · cases valid
      · next target resolved =>
        obtain ⟨named, same, peeled⟩ := (resolveCommit_eq_ok repo.toRepository revision target).mp resolved
        obtain rfl := Option.some.inj (parsed.symm.trans same)
        refine ⟨id, parsed, ?_, by rw [peeled]; rfl⟩
        split at valid
        · next related =>
          rcases related with is_target | base
          · exact is_target ▸ repo.peel_commit id target peeled
          · exact (repo.mergeBase_commits id target id base).1
        · cases valid
  · rintro ⟨named, same, isCommit, reads⟩
    obtain rfl := Option.some.inj (parsed.symm.trans same)
    obtain ⟨commit, peeled⟩ := Option.isSome_iff_exists.mp reads
    obtain rfl := repo.peel_self id commit peeled isCommit
    have resolved := (resolveCommit_eq_ok repo.toRepository revision commit).mpr ⟨commit, parsed, peeled⟩
    have held := (repo.peel_present commit commit peeled).1
    unfold commitValidity
    rw [held, resolved]
    simp

/-- A commit binding names the commit that the revision peels to, as an anchor captured from
the revision does. -/
def BindsPeeled (repo : Repository gix) (revision : String) : Binding ObjectId → Prop
  | .commit identity _ => resolveCommit repo revision = .ok identity.commit ∧
      ∀ file range anchor, capture repo revision file range = .ok anchor → anchor.identity.genesisRev = identity.commit
  | _ => True

omit [DecidableEq ObjectId] in
theorem bindsPeeled_named (repo : Repository gix) (revision : String) (id : ObjectId)
    (parsed : repo.revParseSingle revision = some id) (named : NamesCommit repo revision) :
    BindsPeeled repo revision (.commit ⟨id⟩ ⟨⟩) := by
  obtain ⟨_, same, isCommit, reads⟩ := named
  obtain rfl := Option.some.inj (parsed.symm.trans same)
  obtain ⟨commit, peeled⟩ := Option.isSome_iff_exists.mp reads
  obtain rfl := repo.peel_self id commit peeled isCommit
  have resolved := (resolveCommit_eq_ok repo revision commit).mpr ⟨commit, parsed, peeled⟩
  refine ⟨resolved, ?_⟩
  intro file range anchor took
  have captured := (capture_ok repo revision file range anchor took).1
  exact Except.ok.inj (captured.symm.trans resolved)

/-- What `create` binds is valid where it was made, and a commit it binds is the one the
revision peels to, exactly when it binds a position or the revision names a commit itself. -/
theorem created_valid_iff (repo : History gix) (fuel : Nat) (invocation : Invocation)
    (revision path : Option String) (lines : Option LinesArg) (delta : Option (ObjectId × ObjectId))
    (binding : Binding ObjectId) (left : Repository gix)
    (built : buildBinding repo.toRepository invocation revision path lines false = .ok (binding, left)) :
    left = repo.toRepository ∧
      (revalidate repo fuel binding ⟨revision.getD "HEAD", delta⟩ = pure .valid ∧
          BindsPeeled repo.toRepository (revision.getD "HEAD") binding ↔
        NamesPath path lines ∨ NamesCommit repo.toRepository (revision.getD "HEAD")) := by
  obtain ⟨rfl, position | bare⟩ := buildBinding_ok repo.toRepository invocation revision path lines binding left built
  · obtain ⟨named, file, anchor, took, rfl⟩ := position
    have traced := diffTrace_captured repo _ file _ anchor took
    refine ⟨rfl, iff_of_true ⟨?_, trivial⟩ (.inl named)⟩
    unfold revalidate positionValidity
    simp only [traced]
    rfl
  · obtain ⟨unnamed, id, parsed, rfl⟩ := bare
    have exactly := commitValidity_named_iff repo _ id parsed
    refine ⟨rfl, ?_⟩
    constructor
    · rintro ⟨valid, _⟩
      exact .inr (exactly.mp (Except.ok.inj (Option.some.inj valid)))
    · rintro (named | named)
      · exact absurd named unnamed
      · refine ⟨?_, bindsPeeled_named repo.toRepository _ id parsed named⟩
        exact congrArg pure (exactly.mpr named)

section Sample

/-- One commit of one file, and an annotated tag of it. -/
inductive Tagged where
  | blob (data : Data)
  | tree | commit | tag
deriving DecidableEq

def taggedFile : Data := ⟨[104, 105, 10], by decide⟩

def taggedEntry : Tagged → String → Option (Entry Tagged)
  | .tree, path => if path = "file.txt" then some ⟨.blob, .blob taggedFile⟩ else none
  | _, _ => none

def taggedGix : Gix Tagged :=
  { hex := fun _ => "object"
    rootTree := fun id => if id = .commit then some .tree else none
    entryAt := taggedEntry
    content := fun id => match id with
      | .blob data => some data
      | _ => none
    blobId := .blob
    changes := fun _ _ => []
    hunks := trimmedHunks
    content_blobId := fun _ => rfl
    hunks_script := trimmedHunks_script
    changes_entry := fun _ _ _ none => nomatch none }

/-- `HEAD` names the commit, `v1` the tag, which peels to the commit. -/
def taggedHistory : History taggedGix :=
  { revParseSingle := fun revision =>
      if revision = "HEAD" then some .commit else if revision = "v1" then some .tag else none
    hasObject := fun _ => true
    peelToCommit := fun id => if id = .commit ∨ id = .tag then some .commit else none
    tree := fun id => if id = .commit then .ok .tree else .error "not a commit"
    lookupEntryByPath := fun root path => .ok (taggedEntry root path)
    findBlob := fun id => match id with
      | .blob data => .ok data
      | _ => .error "not a blob"
    diffTreeToTree := fun _ _ => .ok []
    readOnly := none
    workdir := none
    mergeBase := fun one other => if one = .commit ∧ other = .commit then some .commit else none
    treeItems := fun id => if id = .tree then [.ok ⟨.blob, .blob taggedFile⟩] else []
    findTree := fun id => if id = .tree then .ok .tree else .error "not a tree"
    peel_commit := by
      intro id found peeled
      split at peeled
      · rw [← Option.some.inj peeled]
        rfl
      · cases peeled
    peel_self := by
      intro id found peeled isCommit
      split at peeled
      · cases id <;> first | exact (Option.some.inj peeled).symm | cases isCommit
      · cases peeled
    tree_rootTree := by
      intro id root read
      cases id <;> first | exact congrArg some (Except.ok.inj read) | cases read
    lookup_entryAt := fun _ _ _ read => (Except.ok.inj read).symm
    findBlob_content := by
      intro id data read
      cases id with
      | blob found => rw [Except.ok.inj read]; rfl
      | _ => cases read
    diff_changes := fun _ _ _ read => (Except.ok.inj read).symm
    mergeBase_commits := by
      intro one other base found
      split at found
      · next both =>
        rw [both.1, both.2]
        exact ⟨rfl, rfl⟩
      · cases found
    peel_present := fun _ _ _ => ⟨rfl, rfl⟩
    peel_again := by
      intro id found peeled
      split at peeled
      · rw [← Option.some.inj peeled]
        rfl
      · cases peeled }

/-- At the root of the working tree, with no file there. -/
def atRoot : Invocation := ⟨.ok none, fun _ => false⟩

theorem created_valid_iff_head :
    revalidate taggedHistory 0 (.commit ⟨.commit⟩ ⟨⟩) ⟨"HEAD", none⟩ = pure .valid ∧
      BindsPeeled taggedHistory.toRepository "HEAD" (.commit ⟨.commit⟩ ⟨⟩) :=
  (created_valid_iff taggedHistory 0 atRoot none none none none _ _ rfl).2.mpr (.inr ⟨.commit, rfl, rfl, rfl⟩)

/-- What a tag names is bound as it is: stale where it was just made, and not the commit that
a capture at the tag records. -/
theorem tag_created_stale :
    buildBinding taggedHistory.toRepository atRoot (some "v1") none none false =
        .ok (.commit ⟨.tag⟩ ⟨⟩, taggedHistory.toRepository) ∧
      revalidate taggedHistory 0 (.commit ⟨.tag⟩ ⟨⟩) ⟨"v1", none⟩ = pure .stale ∧
      resolveCommit taggedHistory.toRepository "v1" = .ok .commit ∧
      (capture taggedHistory.toRepository "v1" "file.txt" none).map (·.identity.genesisRev) = .ok .commit :=
  ⟨rfl, rfl, by decide, by decide +kernel⟩

end Sample

end GitAnchor.Anchoring
