import GitAnchor.Anchoring.Create
import GitAnchor.Foundation.Paths

/-! The path that `create` records. It is the directory the command runs in and the pathspec,
component by component: one spelling for each file as long as no pathspec goes back. -/

namespace GitAnchor.Anchoring
open GitAnchor.Foundation GitAnchor.Substrate

/-- Where the command runs, and the path that it is given. -/
structure Spelling where
  invocation : Invocation
  argument : String

def Relative (path : String) : Prop := path.toList.head? ≠ some '/'

instance (path : String) : Decidable (Relative path) := inferInstanceAs (Decidable (_ ≠ _))

/-- The directory the command runs in is the root of the working tree or below it. -/
def InWorktree (parent : Option String) : Prop :=
  ∀ dir, parent = some dir → Relative dir ∧ ".." ∉ Paths.components dir

def parentComponents (parent : Option String) : List String := (parent.map Paths.components).getD []

/-- Lexically the argument, from the directory, is the file at `parts` in the working tree. -/
def Spelling.Names (spelling : Spelling) (parts : List String) : Prop :=
  ∃ parent, spelling.invocation.cwdPrefix = .ok parent ∧ InWorktree parent ∧ Relative spelling.argument ∧
    Paths.resolve [] (parentComponents parent ++ Paths.components spelling.argument) = some parts

variable (ObjectId : Type) in
/-- What is recorded is the path of the file itself. -/
def Spelling.Canonical (spelling : Spelling) (parts : List String) : Prop :=
  (cwdRelativePath spelling.invocation spelling.argument : Except (CreateError ObjectId) String) =
      .ok (Paths.join parts) ∧
    ∀ part ∈ parts, Paths.Normal part

variable {ObjectId : Type} {gix : Gix ObjectId}

def onDisk (repo : Repository gix) (path : String) : Option Data := repo.workdir.bind (fun workdir => workdir.read path)

variable [DecidableEq ObjectId]

variable (gix) in
/-- Captures from disk under two spellings record one path, and are one anchor where they find
the same bytes at the same `HEAD`. -/
def SameCaptures (one other : Spelling) : Prop :=
  ∀ (repo repo' left left' : Repository gix) (revision revision' path path' : Option String)
    (lines lines' : Option LinesArg) (binding binding' : Binding ObjectId),
    (rawPath path lines : Except (CreateError ObjectId) _) = .ok (some one.argument) →
    (rawPath path' lines' : Except (CreateError ObjectId) _) = .ok (some other.argument) →
    buildBinding repo one.invocation revision path lines true = .ok (binding, left) →
    buildBinding repo' other.invocation revision' path' lines' true = .ok (binding', left') →
    ∃ anchor anchor', binding = .position anchor ∧ binding' = .position anchor' ∧
      anchor.identity.path = anchor'.identity.path ∧
      (lines.map LinesArg.range = lines'.map LinesArg.range →
        resolveCommit repo "HEAD" = resolveCommit repo' "HEAD" →
        onDisk repo anchor.identity.path = onDisk repo' anchor'.identity.path →
        ∀ normalForm : NormalFormHash ObjectId, binding.anchorId normalForm = binding'.anchorId normalForm)

omit [DecidableEq ObjectId] in
/-- The recorded path has every component but those that stay where they are. -/
theorem cwdRelativePath_eq (invocation : Invocation) (parent : Option String) (argument : String)
    (run : invocation.cwdPrefix = .ok parent) (inside : InWorktree parent) (relative : Relative argument) :
    (cwdRelativePath invocation argument : Except (CreateError ObjectId) String) =
      .ok (Paths.join ((parentComponents parent ++ Paths.components argument).filter
        (fun part => decide (¬ Paths.Stays part)))) := by
  have kept (path : String) (from_here : Relative path) :
      pathComponents path = (Paths.components path).filter (fun part => decide (¬ Paths.Stays part)) := by
    unfold pathComponents
    rw [if_neg from_here, List.nil_append]
    apply List.filter_congr
    intro part _
    simp only [Paths.Stays, not_or, ne_eq]
  unfold cwdRelativePath
  rw [run, List.filter_append, kept argument relative]
  cases parent with
  | none => rfl
  | some dir =>
    dsimp only [Option.map_some, Option.getD_some]
    rw [kept dir (inside dir rfl).1]
    rfl

variable (ObjectId) in
omit [DecidableEq ObjectId] in
/-- One spelling is recorded as the file that it names exactly when it does not go back. -/
theorem canonical_iff (spelling : Spelling) (parts : List String) (named : spelling.Names parts) :
    spelling.Canonical ObjectId parts ↔ ".." ∉ Paths.components spelling.argument := by
  obtain ⟨parent, run, inside, relative, resolved⟩ := named
  have whole : ∀ part ∈ parentComponents parent ++ Paths.components spelling.argument, '/' ∉ part.toList := by
    intro part member
    rcases List.mem_append.mp member with above | below
    · cases parent with
      | none => cases above
      | some dir => exact Paths.slash_not_mem_of_mem_components dir part above
    · exact Paths.slash_not_mem_of_mem_components _ part below
  have normal := Paths.resolve_normal [] _ parts nofun whole resolved
  unfold Spelling.Canonical
  rw [cwdRelativePath_eq spelling.invocation parent spelling.argument run inside relative]
  constructor
  · rintro ⟨recorded, _⟩ back
    -- both lists are told by their text, so the one recorded is the one that was named
    have same := Paths.join_injective _ parts
      (by
        intro part member
        obtain ⟨stands, moves⟩ := List.mem_filter.mp member
        exact ⟨fun empty => of_decide_eq_true moves (.inl empty), whole part stands⟩)
      (fun part member => ⟨(normal part member).nonempty, (normal part member).whole⟩) (Except.ok.inj recorded)
    have kept : ".." ∈ parts := by
      rw [← same]
      exact List.mem_filter.mpr ⟨List.mem_append_right _ back, by decide⟩
    exact (normal ".." kept).notParent rfl
  · intro forward
    have ahead : ".." ∉ parentComponents parent ++ Paths.components spelling.argument := by
      intro member
      rcases List.mem_append.mp member with above | below
      · cases parent with
        | none => cases above
        | some dir => exact (inside dir rfl).2 above
      · exact forward below
    rw [Paths.resolve_forward [] _ ahead, List.nil_append] at resolved
    rw [Option.some.inj resolved]
    exact ⟨rfl, normal⟩

/-- With `--worktree` and a path, what is built is a capture from disk. -/
theorem buildBinding_worktree (repo left : Repository gix) (invocation : Invocation) (revision path : Option String)
    (lines : Option LinesArg) (binding : Binding ObjectId) (argument : String)
    (given : (rawPath path lines : Except (CreateError ObjectId) _) = .ok (some argument))
    (built : buildBinding repo invocation revision path lines true = .ok (binding, left)) :
    ∃ file anchor, (cwdRelativePath invocation argument : Except (CreateError ObjectId) String) = .ok file ∧
      captureWorktree repo file (lines.map LinesArg.range) = .ok (anchor, left) ∧ binding = .position anchor := by
  unfold buildBinding at built
  rw [given, Result.ok_bind, if_neg (fun lacks => nomatch lacks.2)] at built
  obtain ⟨file, here, built⟩ := Result.bind_eq_ok.mp built
  obtain ⟨⟨anchor, written⟩, took, built⟩ := Result.bind_eq_ok.mp built
  obtain ⟨rfl, rfl⟩ := Prod.mk.inj (Except.ok.inj built)
  exact ⟨file, anchor, here, Result.mapError_eq_ok.mp took, rfl⟩

/-- What a capture from disk fixes: the path is the one it was given, and the rest comes of
`HEAD` and the bytes. -/
theorem sameCaptures_of_recorded (one other : Spelling)
    (same : (cwdRelativePath one.invocation one.argument : Except (CreateError ObjectId) String) =
      cwdRelativePath other.invocation other.argument) : SameCaptures gix one other := by
  intro repo repo' left left' revision revision' path path' lines lines' binding binding' given given' built built'
  obtain ⟨file, anchor, here, took, rfl⟩ := buildBinding_worktree repo left _ _ _ _ _ _ given built
  obtain ⟨file', anchor', there, took', rfl⟩ := buildBinding_worktree repo' left' _ _ _ _ _ _ given' built'
  obtain rfl : file = file' := Except.ok.inj (here.symm.trans (same.trans there))
  obtain ⟨head, path_eq, workdir, content, stands, read, spanned, _⟩ := captureWorktree_ok repo left file _ anchor took
  obtain ⟨head', path_eq', workdir', content', stands', read', spanned', _⟩ :=
    captureWorktree_ok repo' left' file _ anchor' took'
  refine ⟨anchor, anchor', rfl, rfl, path_eq.trans path_eq'.symm, ?_⟩
  intro ranges heads bytes normalForm
  have contents : some content = some content' := by
    have onDisk_eq : onDisk repo file = some content := by rw [onDisk, stands, Option.bind_some, read]
    have onDisk_eq' : onDisk repo' file = some content' := by rw [onDisk, stands', Option.bind_some, read']
    rw [path_eq, path_eq', onDisk_eq, onDisk_eq'] at bytes
    exact bytes
  have commits : anchor.identity.genesisRev = anchor'.identity.genesisRev :=
    Except.ok.inj (head.symm.trans (heads.trans head'))
  have spans : anchor.identity.span = anchor'.identity.span := by
    rw [ranges, Option.some.inj contents, spanned'] at spanned
    exact (Except.ok.inj spanned).symm
  rw [anchorId_eq_hash, anchorId_eq_hash]
  apply congrArg normalForm.hash
  rw [form_eq_iff]
  exact ⟨commits, path_eq.trans path_eq'.symm, congrArg Span.start spans, congrArg Span.stop spans⟩

/-- Two spellings of one file are both recorded as its path, and so make one anchor of the
same bytes, exactly when neither goes back. -/
theorem spellings_coincide_iff (one other : Spelling) (parts : List String) (named : one.Names parts)
    (named' : other.Names parts) :
    (one.Canonical ObjectId parts ∧ other.Canonical ObjectId parts ∧ SameCaptures gix one other) ↔
      ".." ∉ Paths.components one.argument ∧ ".." ∉ Paths.components other.argument := by
  rw [← canonical_iff ObjectId one parts named, ← canonical_iff ObjectId other parts named']
  constructor
  · rintro ⟨canonical, canonical', _⟩
    exact ⟨canonical, canonical'⟩
  · rintro ⟨canonical, canonical'⟩
    exact ⟨canonical, canonical', sameCaptures_of_recorded one other (canonical.1.trans canonical'.1.symm)⟩

section Sample

/-- One file, under two of the names that a file system has for it. -/
def spelledRepo : Repository plainGix :=
  plainRepository (fun revision => if revision = "HEAD" then some [("file.txt", taggedFile)] else none)
    [("file.txt", taggedFile), ("a/../file.txt", taggedFile)]

theorem spellings_coincide_iff_subdirectory :
    (cwdRelativePath ⟨.ok none, fun _ => true⟩ "./sub//file.txt" : Except (CreateError Plain) String) =
      cwdRelativePath ⟨.ok (some "sub"), fun _ => true⟩ "file.txt" := by
  let one : Spelling := ⟨⟨.ok none, fun _ => true⟩, "./sub//file.txt"⟩
  let other : Spelling := ⟨⟨.ok (some "sub"), fun _ => true⟩, "file.txt"⟩
  have named : one.Names ["sub", "file.txt"] := ⟨none, rfl, nofun, by decide, by decide +kernel⟩
  have named' : other.Names ["sub", "file.txt"] := by
    refine ⟨some "sub", rfl, ?_, by decide, by decide +kernel⟩
    rintro dir ⟨⟩
    exact ⟨by decide, by decide +kernel⟩
  have coincide := (@spellings_coincide_iff _ plainGix _ one other ["sub", "file.txt"] named named').mpr
    ⟨by decide +kernel, by decide +kernel⟩
  exact coincide.1.1.trans coincide.2.1.1.symm

def spelledAnchor (path : String) : Anchor Plain :=
  { identity := { genesisRev := .commit [("file.txt", taggedFile)], path := path, span := ⟨0, 3⟩ }
    hints := hintsFor taggedFile ⟨0, 3⟩ }

/-- The same file as `file.txt` and as `a/../file.txt`, captured from disk as it is. -/
theorem parent_component_recorded :
    Spelling.Names ⟨atRoot, "file.txt"⟩ ["file.txt"] ∧ Spelling.Names ⟨atRoot, "a/../file.txt"⟩ ["file.txt"] ∧
      (cwdRelativePath atRoot "a/../file.txt" : Except (CreateError Plain) String) = .ok "a/../file.txt" ∧
      (∃ left, buildBinding spelledRepo atRoot none (some "file.txt") none true =
        .ok (.position (spelledAnchor "file.txt"), left)) ∧
      (∃ left, buildBinding spelledRepo atRoot none (some "a/../file.txt") none true =
        .ok (.position (spelledAnchor "a/../file.txt"), left)) ∧
      onDisk spelledRepo "file.txt" = onDisk spelledRepo "a/../file.txt" ∧
      ¬ (Binding.position (spelledAnchor "file.txt")).SameIdentity (.position (spelledAnchor "a/../file.txt")) := by
  refine ⟨⟨none, rfl, nofun, by decide, by decide +kernel⟩, ⟨none, rfl, nofun, by decide, by decide +kernel⟩,
    by decide +kernel, ⟨_, rfl⟩, ⟨_, rfl⟩, by decide, ?_⟩
  rintro ⟨_, path, _⟩
  exact absurd path (by decide)

end Sample

end GitAnchor.Anchoring
