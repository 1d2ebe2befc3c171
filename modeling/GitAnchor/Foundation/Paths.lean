import Mathlib.Data.List.Basic

/-! Paths as text: components between slashes, joined by slashes, and what a path names when
`.` stays where it is and `..` goes back by one component. -/

namespace GitAnchor.Foundation.Paths

def components (path : String) : List String := (path.toList.splitOn '/').map String.ofList

def join (parts : List String) : String := "/".intercalate parts

/-- A component that names something below: neither empty nor a dot or two, and without a slash. -/
structure Normal (part : String) : Prop where
  nonempty : part ≠ ""
  notHere : part ≠ "."
  notParent : part ≠ ".."
  whole : '/' ∉ part.toList

/-- A component that stays where it is. -/
def Stays (part : String) : Prop := part = "" ∨ part = "."

instance (part : String) : Decidable (Stays part) := inferInstanceAs (Decidable (_ ∨ _))

/-- Where components lead from a place below the root, if they never go above it. -/
def resolve (place : List String) : List String → Option (List String)
  | [] => some place
  | part :: rest =>
      if Stays part then resolve place rest
      else if part = ".." then if place = [] then none else resolve place.dropLast rest
      else resolve (place ++ [part]) rest

/-- No piece of a split has the separator in it. -/
theorem not_mem_of_mem_splitOn {α : Type} [BEq α] [LawfulBEq α] (a : α) (xs : List α) :
    ∀ piece ∈ xs.splitOn a, a ∉ piece := by
  induction xs with
  | nil =>
    intro piece member
    rw [List.splitOn_nil] at member
    rw [List.mem_singleton.mp member]
    exact List.not_mem_nil
  | cons x rest ih =>
    intro piece member
    rw [List.splitOn_cons_eq_if_modifyHead] at member
    split at member
    · rcases List.mem_cons.mp member with rfl | later
      · exact List.not_mem_nil
      · exact ih piece later
    · next differs =>
      cases pieces : rest.splitOn a with
      | nil =>
        rw [pieces] at member
        cases member
      | cons first others =>
        rw [pieces, List.modifyHead_cons] at member
        rw [pieces] at ih
        rcases List.mem_cons.mp member with rfl | later
        · intro inside
          rcases List.mem_cons.mp inside with same | deeper
          · exact differs (beq_iff_eq.mpr same.symm)
          · exact ih first List.mem_cons_self deeper
        · exact ih piece (List.mem_cons_of_mem _ later)

theorem slash_not_mem_of_mem_components (path part : String) (member : part ∈ components path) :
    '/' ∉ part.toList := by
  obtain ⟨letters, piece, rfl⟩ := List.mem_map.mp member
  rw [String.toList_ofList]
  exact not_mem_of_mem_splitOn '/' path.toList letters piece

theorem components_join (parts : List String) (some_part : parts ≠ []) (whole : ∀ part ∈ parts, '/' ∉ part.toList) :
    components (join parts) = parts := by
  have letters : ∀ piece ∈ parts.map String.toList, '/' ∉ piece := by
    intro piece member
    obtain ⟨part, inside, rfl⟩ := List.mem_map.mp member
    exact whole part inside
  have nonempty : parts.map String.toList ≠ [] := fun none => some_part (List.map_eq_nil_iff.mp none)
  have same : String.ofList ∘ String.toList = id := by
    funext part
    exact String.ofList_toList
  rw [components, join, String.toList_intercalate]
  change (([('/' : Char)].intercalate (parts.map String.toList)).splitOn '/').map String.ofList = parts
  rw [List.splitOn_intercalate '/' letters nonempty, List.map_map, same, List.map_id]

/-- Components that are not empty are told by the text they make. -/
theorem join_injective (one other : List String) (whole : ∀ part ∈ one, part ≠ "" ∧ '/' ∉ part.toList)
    (whole' : ∀ part ∈ other, part ≠ "" ∧ '/' ∉ part.toList) (same : join one = join other) : one = other := by
  have empty (parts : List String) (solid : ∀ part ∈ parts, part ≠ "" ∧ '/' ∉ part.toList)
      (none : join parts = join []) : parts = [] := by
    by_contra some_part
    have back := components_join parts some_part (fun part member => (solid part member).2)
    rw [none] at back
    have blank : "" ∈ parts := by
      rw [← back]
      exact List.mem_cons_self
    exact (solid "" blank).1 rfl
  by_cases none : one = []
  · rw [none] at same ⊢
    exact (empty other whole' same.symm).symm
  · by_cases none' : other = []
    · rw [none'] at same ⊢
      exact empty one whole same
    · rw [← components_join one none (fun part member => (whole part member).2), same,
        components_join other none' (fun part member => (whole' part member).2)]

/-- Components that never go back only add to the place. -/
theorem resolve_forward (place parts : List String) (forward : ".." ∉ parts) :
    resolve place parts = some (place ++ parts.filter (fun part => decide (¬ Stays part))) := by
  induction parts generalizing place with
  | nil => rw [resolve, List.filter_nil, List.append_nil]
  | cons part rest ih =>
    rw [List.mem_cons, not_or] at forward
    rw [resolve, List.filter_cons]
    by_cases stays : Stays part
    · rw [if_pos stays, ih place forward.2, if_neg (by simpa using stays)]
    · rw [if_neg stays, if_neg (fun back => forward.1 back.symm), ih _ forward.2, if_pos (by simpa using stays),
        List.append_assoc, List.singleton_append]

/-- Wherever components lead, the way there is of normal components. -/
theorem resolve_normal (place parts found : List String) (start : ∀ part ∈ place, Normal part)
    (whole : ∀ part ∈ parts, '/' ∉ part.toList) (resolved : resolve place parts = some found) :
    ∀ part ∈ found, Normal part := by
  induction parts generalizing place with
  | nil =>
    rw [← Option.some.inj resolved]
    exact start
  | cons part rest ih =>
    have later (other : String) (member : other ∈ rest) := whole other (List.mem_cons_of_mem part member)
    rw [resolve] at resolved
    split at resolved
    · exact ih place start later resolved
    · next moves =>
      split at resolved
      · split at resolved
        · cases resolved
        · exact ih place.dropLast (fun other member => start other (List.dropLast_subset place member)) later resolved
      · next forward =>
        apply ih (place ++ [part]) _ later resolved
        intro other member
        rcases List.mem_append.mp member with before | here
        · exact start other before
        · rw [List.mem_singleton.mp here]
          exact ⟨fun empty => moves (.inl empty), fun dot => moves (.inr dot), forward,
            whole part List.mem_cons_self⟩

end GitAnchor.Foundation.Paths
