import GitAnchor.Attest.SignedBytes

/-! Embedding a signature in a commit: a `gpgsig` header goes in at a boundary between
header groups, and the signed bytes are the commit as it was before. -/

namespace GitAnchor.Attest.SignedBytes
open GitAnchor.Foundation GitAnchor.Foundation.Lines GitAnchor.Foundation.Blocks GitAnchor.Substrate

/-- A header value folded over lines: each newline becomes a newline and a space. -/
def folded (signature : Bytes) : Bytes :=
  signature.flatMap (fun b => if b = NEWLINE then [NEWLINE, SPACE] else [b])

def gpgsigHeader (signature : Bytes) : Bytes :=
  GPGSIG ++ [SPACE] ++ folded signature ++ [NEWLINE]

/-- A boundary between header groups. The ends of the header count where a header can
stand: before a line that continues nothing, after a line that is ended. -/
structure Boundary (commit : Bytes) (before after : List (List Bytes)) : Prop where
  groups : headerGroups commit = before ++ after
  start : before = [] → ∀ line ∈ after.flatten.head?, startsWithSpace line = false
  stop : after = [] → body commit = [] → Ended NEWLINE commit

theorem folded_cons (b : UInt8) (signature : Bytes) :
    folded (b :: signature) = (if b = NEWLINE then [NEWLINE, SPACE] else [b]) ++ folded signature :=
  List.flatMap_cons

/-- A folded value is one line and continuation lines after it. -/
theorem lines_folded (signature : Bytes) :
    ∃ first more, lines NEWLINE (folded signature ++ [NEWLINE]) = first :: more ∧
      ∀ line ∈ more, startsWithSpace line = true := by
  induction signature with
  | nil => exact ⟨[NEWLINE], [], rfl, by simp⟩
  | cons b rest ih =>
    obtain ⟨first, more, split, spaces⟩ := ih
    rw [folded_cons]
    by_cases ends : b = NEWLINE
    · refine ⟨[NEWLINE], (SPACE :: first) :: more, ?_, ?_⟩
      · rw [if_pos ends, List.append_assoc]
        change lines NEWLINE (NEWLINE :: SPACE :: (folded rest ++ [NEWLINE])) = _
        rw [lines_terminator, lines_cons_of_ne NEWLINE SPACE _ _ _ (by decide) split]
      · intro line member
        rcases List.mem_cons.mp member with same | later
        · rw [same]
          simp [startsWithSpace]
        · exact spaces line later
    · refine ⟨b :: first, more, ?_, spaces⟩
      rw [if_neg ends, List.append_assoc]
      exact lines_cons_of_ne NEWLINE b _ _ _ ends split

/-- The header is a single group, and one that opens with `gpgsig`. -/
theorem lines_gpgsigHeader (signature : Bytes) :
    ∃ first more, lines NEWLINE (gpgsigHeader signature) = first :: more ∧
      opensGpgsig first = true ∧ startsWithSpace first = false ∧
      ∀ line ∈ more, startsWithSpace line = true := by
  obtain ⟨first, more, split, spaces⟩ := lines_folded signature
  refine ⟨GPGSIG ++ [SPACE] ++ first, more, ?_, ?_, ?_, spaces⟩
  · unfold gpgsigHeader
    rw [List.append_assoc]
    exact lines_prefix NEWLINE _ _ first more (by decide) split
  · simp [opensGpgsig, GPGSIG, List.isPrefixOf]
  · simp [startsWithSpace, GPGSIG, SPACE, List.isPrefixOf]

theorem gpgsigHeader_ended (signature : Bytes) : Ended NEWLINE (gpgsigHeader signature) :=
  .inr List.getLast?_concat

theorem Boundary.lines_eq {commit : Bytes} {before after : List (List Bytes)}
    (boundary : Boundary commit before after) :
    lines NEWLINE commit = before.flatten ++ (after.flatten ++ bodyLines commit) := by
  rw [← header_split, ← headerGroups_flatten, boundary.groups, List.flatten_append, List.append_assoc]

/-- The text before a boundary is ended, so the header lands on lines of its own. -/
theorem Boundary.ended {commit : Bytes} {before after : List (List Bytes)}
    (boundary : Boundary commit before after) : Ended NEWLINE before.flatten.flatten := by
  by_cases more : after.flatten ++ bodyLines commit = []
  · obtain ⟨no_lines, no_body⟩ := List.append_eq_nil_iff.mp more
    have whole := congrArg List.flatten boundary.lines_eq
    rw [more, List.append_nil, lines_flatten] at whole
    rw [← whole]
    apply boundary.stop
    · by_contra nonempty
      obtain ⟨group, member⟩ := List.exists_mem_of_ne_nil after nonempty
      have located : group ∈ headerGroups commit := by
        rw [boundary.groups]
        exact List.mem_append_right before member
      exact ne_nil_of_mem_blocks _ _ group located (List.flatten_eq_nil_iff.mp no_lines group member)
    · simp only [body, no_body, List.flatten_nil]
  · have cut := cut_lines NEWLINE commit
    rw [boundary.lines_eq] at cut
    exact cut.ended NEWLINE more

/-- The groups after a boundary open with a header of their own. -/
theorem Boundary.opens {commit : Bytes} {before after : List (List Bytes)}
    (boundary : Boundary commit before after) :
    ∀ group ∈ after, ∀ line ∈ group.head?, startsWithSpace line = false := by
  have later := opens_of_mem_tail startsWithSpace (headerLines commit)
  change ∀ group ∈ (headerGroups commit).tail, _ at later
  rw [boundary.groups] at later
  cases before with
  | cons first others =>
    exact fun group member => later group (List.mem_append_right others member)
  | nil =>
    intro group member line opening
    cases after with
    | nil => cases member
    | cons first others =>
      rcases List.mem_cons.mp member with same | tail
      · subst same
        apply boundary.start rfl line
        rw [List.flatten_cons, List.head?_append]
        simp [Option.mem_def.mp opening]
      · exact later group tail line opening

/-- The header inserted at a boundary is one more group there, and nothing else changes. -/
theorem groups_insert {commit : Bytes} {before after : List (List Bytes)}
    (boundary : Boundary commit before after) (signature : Bytes) :
    ∃ group, isGpgsig group = true ∧
      headerGroups (before.flatten.flatten ++ gpgsigHeader signature ++ after.flatten.flatten ++ body commit) =
        before ++ [group] ++ after ∧
      bodyLines (before.flatten.flatten ++ gpgsigHeader signature ++ after.flatten.flatten ++ body commit) =
        bodyLines commit := by
  obtain ⟨first, more, split, opening, header, spaces⟩ := lines_gpgsigHeader signature
  have member : ∀ group ∈ before ++ after, group ∈ headerGroups commit := by
    rw [boundary.groups]
    exact fun group member => member
  have either : ∀ group ∈ before ++ [first :: more] ++ after,
      group = first :: more ∨ group ∈ before ++ after := by
    intro group member
    simp only [List.mem_append, List.mem_singleton] at member ⊢
    tauto
  refine ⟨first :: more, opening, ?_⟩
  apply groups_of_layout
  · apply blocks_flatten_of_opens
    · intro group located
      rcases either group located with same | old
      · simp [same]
      · exact ne_nil_of_mem_blocks _ _ group (member group old)
    · intro group located
      rcases either group located with same | old
      · rw [same]
        exact spaces
      · exact continues_of_mem_tail _ _ group (member group old)
    · intro group located line head
      cases before with
      | nil => exact boundary.opens group located line head
      | cons start others =>
        simp only [List.cons_append, List.tail_cons, List.mem_append, List.mem_singleton] at located
        rcases located with (old | same) | old
        · apply opens_of_mem_tail startsWithSpace (headerLines commit) group _ line head
          change group ∈ (headerGroups commit).tail
          rw [boundary.groups]
          exact List.mem_append_left after old
        · rw [same] at head
          have same_line : first = line := by simpa using head
          rw [← same_line]
          exact header
        · exact boundary.opens group old line head
  · intro line inside
    obtain ⟨group, located, within⟩ := List.mem_flatten.mp inside
    rcases either group located with same | old
    · rw [same] at within
      rcases List.mem_cons.mp within with rfl | later
      · apply decide_eq_true
        rintro rfl
        exact absurd opening (by decide)
      · exact isHeader_of_space line (spaces line later)
    · exact headerGroups_line commit line group (member group old) within
  · exact bodyLines_blank commit
  · have rest : lines NEWLINE (after.flatten.flatten ++ body commit) = after.flatten ++ bodyLines commit := by
      unfold body
      rw [← List.flatten_append]
      apply lines_flatten_of_sublist NEWLINE commit
      rw [boundary.lines_eq]
      exact List.sublist_append_right _ _
    have start : lines NEWLINE before.flatten.flatten = before.flatten := by
      apply lines_flatten_of_sublist NEWLINE commit
      rw [boundary.lines_eq]
      exact List.sublist_append_left _ _
    rw [List.append_assoc, List.append_assoc, lines_append NEWLINE _ _ boundary.ended, start,
      lines_append NEWLINE _ _ (gpgsigHeader_ended signature), rest, split]
    simp only [List.flatten_append, List.flatten_cons, List.flatten_nil, List.append_nil, List.append_assoc]

/-- Inserting a `gpgsig` header and taking the signed bytes gives the commit back. -/
theorem withoutGpgsig_insert (commit signature : Bytes) (before after : List (List Bytes))
    (unsigned : ∀ group ∈ headerGroups commit, isGpgsig group = false)
    (boundary : Boundary commit before after) :
    withoutGpgsig (before.flatten.flatten ++ gpgsigHeader signature ++ after.flatten.flatten ++ body commit) =
      commit := by
  obtain ⟨group, inserted, groups, rest⟩ := groups_insert boundary signature
  have kept : (before ++ [group] ++ after).filter (fun group => !isGpgsig group) = before ++ after := by
    rw [boundary.groups] at unsigned
    rw [List.filter_append, List.filter_append, List.filter_singleton, inserted]
    rw [List.filter_eq_self.mpr (fun old member => by
      simp [unsigned old (List.mem_append_left after member)])]
    rw [List.filter_eq_self.mpr (fun old member => by
      simp [unsigned old (List.mem_append_right before member)])]
    simp
  unfold withoutGpgsig body
  change (List.filter _ (headerGroups (_ ++ (body commit)))).flatten.flatten ++
    (bodyLines (_ ++ (body commit))).flatten = commit
  rw [groups, kept, rest, ← boundary.groups]
  exact groups_body commit

/-- The exact inverse of embedding a `gpgsig` header, covering everything else. -/
theorem signedBytes_inverse :
    (∀ commit, signedBytes commit = withoutGpgsig commit) ∧
    (∀ commit signature before after, (∀ group ∈ headerGroups commit, isGpgsig group = false) →
      Boundary commit before after →
      signedBytes (before.flatten.flatten ++ gpgsigHeader signature ++ after.flatten.flatten ++ body commit) =
        commit) ∧
    (∀ commit, signedBytes (signedBytes commit) = signedBytes commit) := by
  refine ⟨signedBytes_eq, ?_, ?_⟩
  · intro commit signature before after unsigned boundary
    rw [signedBytes_eq]
    exact withoutGpgsig_insert commit signature before after unsigned boundary
  · intro commit
    rw [signedBytes_eq, signedBytes_eq]
    exact withoutGpgsig_idempotent commit

/-- A header `t 0`, a folded header `a x`, the message `m`: a signature of three lines,
the second empty, goes in between the two headers and out again. -/
theorem signedBytes_inverse_between :
    signedBytes ([116, 32, 48, 10] ++ gpgsigHeader [65, 10, 10, 66] ++
      [97, 32, 120, 10, 32, 121, 10] ++ [10, 109]) =
      [116, 32, 48, 10, 97, 32, 120, 10, 32, 121, 10, 10, 109] := by
  have boundary : Boundary [116, 32, 48, 10, 97, 32, 120, 10, 32, 121, 10, 10, 109]
      [[[116, 32, 48, 10]]] [[[97, 32, 120, 10], [32, 121, 10]]] :=
    ⟨by decide, by simp, by simp⟩
  exact signedBytes_inverse.2.1 _ [65, 10, 10, 66] _ _ (by decide) boundary

end GitAnchor.Attest.SignedBytes
