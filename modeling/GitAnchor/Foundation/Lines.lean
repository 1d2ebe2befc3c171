import Mathlib.Data.List.Basic
import Mathlib.Data.List.SplitBy

/-! Cutting a text into lines that keep their terminator. Joining the lines gives the
text back; a last line without a terminator counts as a line, an empty text has none. -/

namespace GitAnchor.Foundation.Lines
variable {α : Type} [DecidableEq α]

def lines (terminator : α) : List α → List (List α)
  | [] => []
  | b :: rest =>
      if b = terminator then [b] :: lines terminator rest
      else match lines terminator rest with
        | [] => [[b]]
        | line :: more => (b :: line) :: more

/-- A text after which a new line starts: empty, or ended by a terminator. -/
def Ended (terminator : α) (text : List α) : Prop :=
  text = [] ∨ text.getLast? = some terminator

variable (terminator : α)

@[simp] theorem lines_nil : lines terminator [] = [] := rfl

theorem lines_terminator (rest : List α) :
    lines terminator (terminator :: rest) = [terminator] :: lines terminator rest := by
  simp only [lines, if_true]

theorem lines_eq_nil_iff (text : List α) : lines terminator text = [] ↔ text = [] := by
  cases text with
  | nil => simp
  | cons b rest =>
    by_cases ends : b = terminator
    · simp [lines, ends]
    · cases tail : lines terminator rest <;> simp [lines, ends, tail]

theorem lines_cons_of_ne (b : α) (rest line : List α) (more : List (List α))
    (inside : b ≠ terminator) (tail : lines terminator rest = line :: more) :
    lines terminator (b :: rest) = (b :: line) :: more := by
  simp only [lines, if_neg inside, tail]

theorem lines_flatten (text : List α) : (lines terminator text).flatten = text := by
  induction text with
  | nil => rfl
  | cons b rest ih =>
    by_cases ends : b = terminator
    · simp only [lines, if_pos ends, List.flatten_cons, ih, List.singleton_append]
    · cases tail : lines terminator rest with
      | nil =>
        have empty := (lines_eq_nil_iff terminator rest).mp tail
        subst empty
        simp [lines, ends]
      | cons line more =>
        rw [lines_cons_of_ne terminator b rest line more ends tail]
        rw [tail] at ih
        simp only [List.flatten_cons, List.cons_append] at ih ⊢
        rw [ih]

theorem ne_nil_of_mem_lines (text line : List α) (member : line ∈ lines terminator text) : line ≠ [] := by
  induction text generalizing line with
  | nil => simp at member
  | cons b rest ih =>
    by_cases ends : b = terminator
    · simp only [lines, if_pos ends, List.mem_cons] at member
      rcases member with same | later
      · simp [same]
      · exact ih line later
    · cases tail : lines terminator rest with
      | nil => simp_all [lines]
      | cons first more =>
        rw [lines_cons_of_ne terminator b rest first more ends tail] at member
        rcases List.mem_cons.mp member with same | later
        · simp [same]
        · exact ih line (by rw [tail]; exact List.mem_cons_of_mem _ later)

/-- Lines split independently on either side of a line end. -/
theorem lines_append (before after : List α) (ended : Ended terminator before) :
    lines terminator (before ++ after) = lines terminator before ++ lines terminator after := by
  induction before with
  | nil => rfl
  | cons b rest ih =>
    have rest_ended : Ended terminator rest := by
      rcases ended with empty | last
      · cases empty
      · cases rest with
        | nil => exact .inl rfl
        | cons second tail => exact .inr (by simpa using last)
    by_cases ends : b = terminator
    · simp only [List.cons_append, lines, if_pos ends, ih rest_ended]
    · cases tail : lines terminator rest with
      | nil =>
        have empty := (lines_eq_nil_iff terminator rest).mp tail
        subst empty
        rcases ended with none | last
        · cases none
        · simp only [List.getLast?_singleton, Option.some.injEq] at last
          exact absurd last ends
      | cons line more =>
        have whole := ih rest_ended
        rw [tail, List.cons_append] at whole
        rw [List.cons_append, lines_cons_of_ne terminator b _ _ _ ends whole,
          lines_cons_of_ne terminator b rest line more ends tail, List.cons_append]

/-- Text without a terminator goes to the front of the first line that follows it. -/
theorem lines_prefix (before text line : List α) (more : List (List α)) (inside : terminator ∉ before)
    (split : lines terminator text = line :: more) :
    lines terminator (before ++ text) = (before ++ line) :: more := by
  induction before with
  | nil => exact split
  | cons b rest ih =>
    have different : b ≠ terminator := fun same => inside (same ▸ List.mem_cons_self)
    have later : terminator ∉ rest := fun member => inside (List.mem_cons_of_mem _ member)
    exact lines_cons_of_ne terminator b _ _ _ different (ih later)

/-- The shape of a text cut into lines: every line but the last is ended by its one
terminator, and a last line without one is not empty. -/
inductive Cut : List (List α) → Prop where
  | nil : Cut []
  | last (line : List α) (some : line ≠ []) (inside : terminator ∉ line) : Cut [line]
  | line (body : List α) (rest : List (List α)) (inside : terminator ∉ body) (tail : Cut rest) :
      Cut ((body ++ [terminator]) :: rest)

theorem cut_lines (text : List α) : Cut terminator (lines terminator text) := by
  induction text with
  | nil => exact .nil
  | cons b rest ih =>
    by_cases ends : b = terminator
    · subst ends
      rw [lines_terminator]
      exact .line [] _ List.not_mem_nil ih
    · cases tail : lines terminator rest with
      | nil =>
        simp only [lines, if_neg ends, tail]
        exact .last [b] (by simp) (by simpa using fun same => ends same.symm)
      | cons line more =>
        rw [lines_cons_of_ne terminator b rest line more ends tail]
        rw [tail] at ih
        cases ih with
        | last _ some inside =>
          exact .last _ (by simp) (by simpa [inside] using fun same => ends same.symm)
        | line body _ inside tail =>
          exact .line (b :: body) more (by simpa [inside] using fun same => ends same.symm) tail

omit [DecidableEq α] in
theorem Cut.sublist {all some : List (List α)} (cut : Cut terminator all) (part : some.Sublist all) :
    Cut terminator some := by
  induction cut generalizing some with
  | nil =>
    rw [List.sublist_nil.mp part]
    exact .nil
  | last line nonempty inside =>
    rcases List.sublist_singleton.mp part with rfl | rfl
    · exact .nil
    · exact .last line nonempty inside
  | line body rest inside _ ih =>
    cases part with
    | cons _ later => exact ih later
    | cons_cons _ later => exact .line body _ inside (ih later)

theorem Cut.lines_flatten {all : List (List α)} (cut : Cut terminator all) :
    lines terminator all.flatten = all := by
  induction cut with
  | nil => rfl
  | last line nonempty inside =>
    have last := List.dropLast_append_getLast nonempty
    rw [List.flatten_singleton, ← last]
    apply lines_prefix
    · exact fun member => inside ((List.dropLast_subset _) member)
    · have different : line.getLast nonempty ≠ terminator :=
        fun same => inside (same ▸ List.getLast_mem nonempty)
      simp [lines, different]
  | line body rest inside _ ih =>
    rw [List.flatten_cons, List.append_assoc]
    apply lines_prefix terminator body _ [terminator] rest inside
    rw [List.singleton_append, lines_terminator, ih]

/-- Any selection of the lines of a text is itself a text cut into lines. -/
theorem lines_flatten_of_sublist (text : List α) (some : List (List α))
    (part : some.Sublist (lines terminator text)) : lines terminator some.flatten = some :=
  ((cut_lines terminator text).sublist terminator part).lines_flatten terminator

omit [DecidableEq α] in
/-- Every line but the last ends with a terminator. -/
theorem Cut.ended {before after : List (List α)} (cut : Cut terminator (before ++ after))
    (more : after ≠ []) : Ended terminator before.flatten := by
  generalize whole : before ++ after = all at cut
  induction cut generalizing before with
  | nil => simp_all
  | last line _ _ =>
    cases before with
    | nil => exact .inl rfl
    | cons first rest => simp_all
  | line body rest _ _ ih =>
    cases before with
    | nil => exact .inl rfl
    | cons first others =>
      simp only [List.cons_append, List.cons.injEq] at whole
      obtain ⟨rfl, later⟩ := whole
      refine .inr ?_
      rcases ih later with empty | last
      · simp [empty]
      · rw [List.flatten_cons, List.getLast?_append, last]
        rfl

end GitAnchor.Foundation.Lines
