import GitAnchor.Foundation.Lines
import GitAnchor.Foundation.Blocks
import GitAnchor.Substrate.NormalForm

/-! The bytes a commit's signature covers. The scanner walks the header line by line;
what it computes is the commit without its `gpgsig` header groups. -/

namespace GitAnchor.Attest.SignedBytes
open GitAnchor.Foundation GitAnchor.Foundation.Lines GitAnchor.Foundation.Blocks GitAnchor.Substrate

def NEWLINE : UInt8 := 10
def SPACE : UInt8 := 32

/-- The header name `gpgsig`. -/
def GPGSIG : Bytes := [103, 112, 103, 115, 105, 103]

/-- The first line of `rest`, newline included, and what follows it. -/
def nextLine (rest : Bytes) : Bytes × Bytes :=
  match rest.findIdx? (· = NEWLINE) with
  | some stop => (rest.take (stop + 1), rest.drop (stop + 1))
  | none => (rest, [])

def startsWithSpace (line : Bytes) : Bool := [SPACE].isPrefixOf line

def opensGpgsig (line : Bytes) : Bool :=
  (GPGSIG ++ [SPACE]).isPrefixOf line || line = GPGSIG ++ [NEWLINE]

theorem nextLine_append (rest : Bytes) : (nextLine rest).1 ++ (nextLine rest).2 = rest := by
  unfold nextLine
  cases rest.findIdx? (· = NEWLINE) with
  | none => simp
  | some stop => simp

theorem nextLine_shorter (rest : Bytes) (some : (nextLine rest).1 ≠ []) :
    (nextLine rest).2.length < rest.length := by
  have whole := congrArg List.length (nextLine_append rest)
  have positive := List.length_pos_iff.mpr some
  rw [List.length_append] at whole
  omega

/-- The loop of `signed_bytes`, from one iteration on. -/
def signedBytesFrom (out rest : Bytes) (dropping : Bool) : Bytes :=
  let line := (nextLine rest).1
  let next := (nextLine rest).2
  if _stop : line = [NEWLINE] ∨ line = [] then out ++ line ++ next
  else if startsWithSpace line then
    signedBytesFrom (if dropping then out else out ++ line) next dropping
  else
    signedBytesFrom (if opensGpgsig line then out else out ++ line) next (opensGpgsig line)
termination_by rest.length
decreasing_by all_goals exact nextLine_shorter rest (fun empty => _stop (.inr empty))

def signedBytes (commit : Bytes) : Bytes := signedBytesFrom [] commit false

/-! The commit as header groups and a body. -/

def isHeader (line : Bytes) : Bool := line ≠ [NEWLINE]

def headerLines (commit : Bytes) : List Bytes := (lines NEWLINE commit).takeWhile isHeader

/-- The blank line that ends the header, and the lines after it. -/
def bodyLines (commit : Bytes) : List Bytes := (lines NEWLINE commit).dropWhile isHeader

/-- A header line with the continuation lines after it, for each header. -/
def headerGroups (commit : Bytes) : List (List Bytes) :=
  blocks startsWithSpace (headerLines commit)

def body (commit : Bytes) : Bytes := (bodyLines commit).flatten

def isGpgsig (group : List Bytes) : Bool := group.head?.any opensGpgsig

@[simp] theorem isGpgsig_cons (line : Bytes) (continued : List Bytes) :
    isGpgsig (line :: continued) = opensGpgsig line := rfl

def withoutGpgsig (commit : Bytes) : Bytes :=
  ((headerGroups commit).filter (fun group => !isGpgsig group)).flatten.flatten ++ body commit

/-! The scanner as a pass over lines. -/

def keptLines (dropping : Bool) : List Bytes → List Bytes
  | [] => []
  | line :: rest =>
      if !isHeader line then line :: rest
      else if startsWithSpace line then
        (if dropping then [] else [line]) ++ keptLines dropping rest
      else (if opensGpgsig line then [] else [line]) ++ keptLines (opensGpgsig line) rest

theorem nextLine_lines (rest line : Bytes) (more : List Bytes)
    (split : lines NEWLINE rest = line :: more) : nextLine rest = (line, more.flatten) := by
  induction rest generalizing line more with
  | nil => simp at split
  | cons b tail ih =>
    by_cases ends : b = NEWLINE
    · subst ends
      rw [lines_terminator] at split
      obtain ⟨rfl, rfl⟩ := List.cons.inj split
      simp [nextLine, List.findIdx?_cons, lines_flatten]
    · cases later : lines NEWLINE tail with
      | nil =>
        have empty := (lines_eq_nil_iff NEWLINE tail).mp later
        subst empty
        simp only [lines, if_neg ends] at split
        obtain ⟨rfl, rfl⟩ := List.cons.inj split
        simp [nextLine, ends]
      | cons first others =>
        rw [lines_cons_of_ne NEWLINE b tail first others ends later] at split
        obtain ⟨rfl, rfl⟩ := List.cons.inj split
        have inner := ih first others later
        unfold nextLine at inner ⊢
        rw [List.findIdx?_cons]
        simp only [ends, decide_false, Bool.false_eq_true, if_false]
        cases position : tail.findIdx? (· = NEWLINE) with
        | none =>
          simp only [position, Prod.mk.injEq] at inner
          simp only [Option.map_none, inner.1, ← inner.2]
        | some stop =>
          simp only [position, Prod.mk.injEq] at inner
          simp only [Option.map_some, List.take_succ_cons, List.drop_succ_cons, inner.1, inner.2]

theorem signedBytesFrom_lines (out rest : Bytes) (dropping : Bool) :
    signedBytesFrom out rest dropping =
      out ++ (keptLines dropping (lines NEWLINE rest)).flatten := by
  generalize split : lines NEWLINE rest = all
  induction all generalizing out rest dropping with
  | nil =>
    have empty := (lines_eq_nil_iff NEWLINE rest).mp split
    subst empty
    unfold signedBytesFrom
    simp [nextLine, keptLines]
  | cons line more ih =>
    have tail : lines NEWLINE more.flatten = more := by
      apply lines_flatten_of_sublist NEWLINE rest
      rw [split]
      exact List.sublist_cons_self line more
    have nonempty : line ≠ [] := ne_nil_of_mem_lines NEWLINE rest line (by simp [split])
    unfold signedBytesFrom
    simp only [nextLine_lines rest line more split, keptLines]
    by_cases blank : line = [NEWLINE]
    · simp [blank, isHeader]
    · have inside : isHeader line = true := decide_eq_true blank
      rw [dif_neg (by simp [blank, nonempty])]
      by_cases continued : startsWithSpace line = true
      · rw [if_pos continued, ih _ _ _ tail]
        cases dropping <;> simp [inside, continued]
      · rw [if_neg continued, ih _ _ _ tail]
        cases opensGpgsig line <;> simp [inside, continued]

theorem isHeader_of_space (line : Bytes) (space : startsWithSpace line = true) : isHeader line = true := by
  apply decide_eq_true
  rintro rfl
  exact absurd space (by decide)

/-- Continuation lines share the fate of the header they continue. -/
theorem keptLines_continued (dropping : Bool) (continued rest : List Bytes)
    (spaces : ∀ line ∈ continued, startsWithSpace line = true) :
    keptLines dropping (continued ++ rest) =
      (if dropping then [] else continued) ++ keptLines dropping rest := by
  induction continued with
  | nil => cases dropping <;> simp
  | cons line more ih =>
    have first := spaces line List.mem_cons_self
    have inside := isHeader_of_space line first
    have later := ih (fun other member => spaces other (List.mem_cons_of_mem _ member))
    simp only [List.cons_append, keptLines, inside, if_pos first, later]
    cases dropping <;> simp

theorem not_opensGpgsig_of_space (line : Bytes) (space : startsWithSpace line = true) :
    opensGpgsig line = false := by
  cases line with
  | nil => cases space
  | cons b rest =>
    have first : SPACE = b := by simpa [startsWithSpace] using space
    subst first
    simp [opensGpgsig, GPGSIG, SPACE, NEWLINE, List.isPrefixOf]

/-- The pass drops exactly the groups that open with `gpgsig`; the state it carries from
one group to the next is overwritten before it is read. -/
theorem keptLines_groups (dropping : Bool) (groups : List (List Bytes)) (rest : List Bytes)
    (nonempty : ∀ group ∈ groups, group ≠ [])
    (headers : ∀ group ∈ groups, ∀ line ∈ group, isHeader line = true)
    (inner : ∀ group ∈ groups, ∀ line ∈ group.tail, startsWithSpace line = true)
    (opens : ∀ group ∈ groups.tail, ∀ line ∈ group.head?, startsWithSpace line = false)
    (first : dropping = true → ∀ group ∈ groups.head?, ∀ line ∈ group.head?, startsWithSpace line = false)
    (blank : ∀ line ∈ rest.head?, isHeader line = false) :
    keptLines dropping (groups.flatten ++ rest) =
      (groups.filter (fun group => !isGpgsig group)).flatten ++ rest := by
  induction groups generalizing dropping with
  | nil =>
    cases rest with
    | nil => rfl
    | cons line more => simp [keptLines, blank line rfl]
  | cons group more ih =>
    cases group with
    | nil => exact absurd rfl (nonempty [] List.mem_cons_self)
    | cons line continued =>
      have inside := headers _ List.mem_cons_self line List.mem_cons_self
      have spaces := inner _ List.mem_cons_self
      have later (state : Bool) := ih state
        (fun other member => nonempty other (List.mem_cons_of_mem _ member))
        (fun other member => headers other (List.mem_cons_of_mem _ member))
        (fun other member => inner other (List.mem_cons_of_mem _ member))
        (fun other member => opens other (List.mem_of_mem_tail member))
        (fun _ other member => opens other (List.mem_of_mem_head? member))
      rw [List.flatten_cons, List.append_assoc, List.cons_append]
      simp only [keptLines, inside]
      by_cases space : startsWithSpace line = true
      · have keeping : dropping = false := by
          cases state : dropping with
          | false => rfl
          | true =>
            have stops := first state _ rfl line rfl
            rw [stops] at space
            cases space
        subst keeping
        have keeps := not_opensGpgsig_of_space line space
        rw [if_pos space, keptLines_continued false continued _ spaces, later false,
          List.filter_cons_of_pos (by simp [keeps])]
        simp
      · rw [if_neg space, keptLines_continued _ continued _ spaces, later (opensGpgsig line)]
        cases fate : opensGpgsig line with
        | true =>
          rw [List.filter_cons_of_neg (by simp [fate])]
          simp
        | false =>
          rw [List.filter_cons_of_pos (by simp [fate])]
          simp

theorem header_split (commit : Bytes) :
    headerLines commit ++ bodyLines commit = lines NEWLINE commit := List.takeWhile_append_dropWhile

theorem headerGroups_flatten (commit : Bytes) :
    (headerGroups commit).flatten = headerLines commit := blocks_flatten _ _

theorem groups_body (commit : Bytes) :
    (headerGroups commit).flatten.flatten ++ body commit = commit := by
  rw [headerGroups_flatten, body, ← List.flatten_append, header_split, lines_flatten]

theorem headerGroups_line (commit line : Bytes) (group : List Bytes)
    (member : group ∈ headerGroups commit) (inside : line ∈ group) : isHeader line = true := by
  have located : line ∈ headerLines commit := by
    rw [← headerGroups_flatten]
    exact List.mem_flatten.mpr ⟨group, member, inside⟩
  exact List.all_eq_true.mp (List.all_takeWhile (l := lines NEWLINE commit)) line located

theorem bodyLines_blank (commit : Bytes) : ∀ line ∈ (bodyLines commit).head?, isHeader line = false := by
  intro line first
  have stops := List.head?_dropWhile_not isHeader (lines NEWLINE commit)
  change (bodyLines commit).head? = some line at first
  rw [← bodyLines, first] at stops
  simpa using stops

/-- The scanner computes the commit without its `gpgsig` header groups. -/
theorem signedBytes_eq (commit : Bytes) : signedBytes commit = withoutGpgsig commit := by
  unfold signedBytes
  rw [signedBytesFrom_lines, ← header_split, ← headerGroups_flatten, keptLines_groups]
  · rw [List.nil_append, List.flatten_append]
    rfl
  · exact ne_nil_of_mem_blocks _ _
  · exact fun group member line inside => headerGroups_line commit line group member inside
  · exact continues_of_mem_tail _ _
  · exact opens_of_mem_tail _ _
  · intro never
    cases never
  · exact bodyLines_blank commit

/-! Reading a commit put together from header groups. -/

private theorem headers_append (header rest : List Bytes) (headers : ∀ line ∈ header, isHeader line = true)
    (blank : ∀ line ∈ rest.head?, isHeader line = false) :
    (header ++ rest).takeWhile isHeader = header ∧ (header ++ rest).dropWhile isHeader = rest := by
  rw [List.takeWhile_append_of_pos headers, List.dropWhile_append_of_pos headers]
  cases rest with
  | nil => simp
  | cons line more =>
    have stops := blank line rfl
    simp [stops]

/-- Header groups laid out before a body are found again, and so is the body. -/
theorem groups_of_layout (commit : Bytes) (groups : List (List Bytes)) (rest : List Bytes)
    (separate : blocks startsWithSpace groups.flatten = groups)
    (headers : ∀ line ∈ groups.flatten, isHeader line = true)
    (blank : ∀ line ∈ rest.head?, isHeader line = false)
    (cut : lines NEWLINE commit = groups.flatten ++ rest) :
    headerGroups commit = groups ∧ bodyLines commit = rest := by
  have split := headers_append groups.flatten rest headers blank
  unfold headerGroups headerLines bodyLines
  rw [cut, split.1, split.2, separate]
  exact ⟨rfl, rfl⟩

/-- What is left without the `gpgsig` groups has no such group, and the same body. -/
theorem groups_withoutGpgsig (commit : Bytes) :
    headerGroups (withoutGpgsig commit) = (headerGroups commit).filter (fun group => !isGpgsig group) ∧
      bodyLines (withoutGpgsig commit) = bodyLines commit := by
  have kept : ((headerGroups commit).filter (fun group => !isGpgsig group)).Sublist (headerGroups commit) :=
    List.filter_sublist
  apply groups_of_layout
  · exact blocks_flatten_of_sublist _ _ _ kept
  · intro line member
    obtain ⟨group, located, inside⟩ := List.mem_flatten.mp member
    exact headerGroups_line commit line group (kept.subset located) inside
  · exact bodyLines_blank commit
  · unfold withoutGpgsig body
    rw [← List.flatten_append]
    apply lines_flatten_of_sublist NEWLINE commit
    rw [← header_split, ← headerGroups_flatten]
    exact kept.flatten.append_right _

theorem withoutGpgsig_idempotent (commit : Bytes) :
    withoutGpgsig (withoutGpgsig commit) = withoutGpgsig commit := by
  have again := groups_withoutGpgsig commit
  calc withoutGpgsig (withoutGpgsig commit)
      = ((headerGroups (withoutGpgsig commit)).filter (fun group => !isGpgsig group)).flatten.flatten ++
          (bodyLines (withoutGpgsig commit)).flatten := rfl
    _ = withoutGpgsig commit := by
      rw [again.1, again.2, List.filter_filter]
      simp only [Bool.and_self]
      rfl

end GitAnchor.Attest.SignedBytes
