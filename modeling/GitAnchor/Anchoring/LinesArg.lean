import GitAnchor.Anchoring.Coordinates
import GitAnchor.Anchoring.Create
import GitAnchor.Foundation.Text

/-! The value of `-L`. A count is added with saturation, which is off only for ranges that no
file is long enough to have. -/

namespace GitAnchor.Anchoring
open GitAnchor.Foundation GitAnchor.Substrate

def saturatingSub (a b : Nat) : Nat := a - b

def parseU64 (letters : List Char) : Option Nat := Text.parseUnsigned U64_MAX letters

def invalid (what : String) (letters : List Char) : String := "invalid line " ++ what ++ " " ++ (String.ofList letters).quote

/-- The last line that the part after the comma asks for. -/
def parseEnd (start : Nat) : Option (List Char) → Except String Nat
  | none => .ok start
  | some ('+' :: count) =>
      match parseU64 count with
      | some count => .ok (max (saturatingSub (saturatingAdd start count) 1) start)
      | none => .error (invalid "count" count)
  | some letters =>
      match parseU64 letters with
      | some stop => .ok stop
      | none => .error (invalid "number" letters)

/-- `start,end`, `start,+count` or a single line, and `:path` after it where there is one. -/
def parseLinesArg (raw : String) : Except String LinesArg :=
  let (rangePart, path) := Text.cutAt ':' raw.toList
  let (startPart, endPart) := Text.cutAt ',' rangePart
  let startLetters := Text.trim startPart
  match parseU64 startLetters with
  | none => .error (invalid "number" startLetters)
  | some start =>
      match parseEnd start (endPart.map Text.trim) with
      | .error failure => .error failure
      | .ok stop => .ok ⟨⟨start, stop⟩, path.map String.ofList⟩

/-- A value of `-L`: a range as it is written, and `:path` where there is one. -/
def linesText (written : String) (path : Option String) : String :=
  written ++ (path.map (fun path => ":" ++ path)).getD ""

/-- What follows the range has no part in it, whatever is in the path. -/
theorem cutAt_linesText (written : String) (path : Option String) (plain : ':' ∉ written.toList) :
    Text.cutAt ':' (linesText written path).toList = (written.toList, path.map String.toList) := by
  unfold linesText
  cases path with
  | none =>
    rw [Option.map_none, Option.getD_none, String.append_empty]
    exact Text.cutAt_of_not_mem ':' written.toList plain
  | some path =>
    rw [Option.map_some, Option.getD_some, String.toList_append, String.toList_append]
    exact Text.cutAt_append ':' written.toList path.toList plain

theorem trim_digits (number : Nat) : Text.trim (Nat.toDigits 10 number) = Nat.toDigits 10 number := by
  apply Text.trim_eq_self
  intro letter member
  exact Text.digit_not_white letter (Text.digits_isDigit number letter member)

theorem trim_plus_digits (number : Nat) : Text.trim ('+' :: Nat.toDigits 10 number) = '+' :: Nat.toDigits 10 number := by
  apply Text.trim_eq_self
  intro letter member
  rcases List.mem_cons.mp member with rfl | digit
  · decide
  · exact Text.digit_not_white letter (Text.digits_isDigit number letter digit)

theorem parseU64_digits (number : Nat) (fits : number ≤ U64_MAX) :
    parseU64 (Nat.toDigits 10 number) = some number := Text.parseUnsigned_digits U64_MAX number fits

theorem path_map_ofList (path : Option String) : (path.map String.toList).map String.ofList = path := by
  cases path with
  | none => rfl
  | some path => rw [Option.map_some, Option.map_some, String.ofList_toList]

/-- A single line. -/
theorem parseLinesArg_line (start : Nat) (fits : start ≤ U64_MAX) (path : Option String) :
    parseLinesArg (linesText start.repr path) = .ok ⟨⟨start, start⟩, path⟩ := by
  have digits : start.repr.toList = Nat.toDigits 10 start := Nat.toList_repr
  have plain : ':' ∉ start.repr.toList := digits ▸ Text.not_mem_digits start ':' (by decide)
  have single := Text.cutAt_of_not_mem ',' (Nat.toDigits 10 start) (Text.not_mem_digits start ',' (by decide))
  unfold parseLinesArg
  simp only [cutAt_linesText _ path plain, digits, single, trim_digits, parseU64_digits start fits, Option.map_none,
    parseEnd, path_map_ofList]

/-- A first line, a comma, and what is read after it. -/
theorem parseLinesArg_comma (start stop : Nat) (fits : start ≤ U64_MAX) (rest : List Char) (path : Option String)
    (plain : ':' ∉ rest) (solid : Text.trim rest = rest) (read : parseEnd start (some rest) = .ok stop) :
    parseLinesArg (linesText (start.repr ++ "," ++ String.ofList rest) path) = .ok ⟨⟨start, stop⟩, path⟩ := by
  have digits : (start.repr ++ "," ++ String.ofList rest).toList = Nat.toDigits 10 start ++ ',' :: rest := by
    rw [String.toList_append, String.toList_append, Nat.toList_repr, List.append_assoc, String.toList_ofList,
      String.toList_ofList]
    rfl
  have no_colon : ':' ∉ (start.repr ++ "," ++ String.ofList rest).toList := by
    rw [digits, List.mem_append, List.mem_cons]
    rintro (first | comma | later)
    · exact Text.not_mem_digits start ':' (by decide) first
    · exact absurd comma (by decide)
    · exact plain later
  have two := Text.cutAt_append ',' (Nat.toDigits 10 start) rest (Text.not_mem_digits start ',' (by decide))
  unfold parseLinesArg
  simp only [cutAt_linesText _ path no_colon, digits, two, trim_digits, parseU64_digits start fits, Option.map_some,
    solid, read, path_map_ofList]

theorem parseEnd_digits (start stop : Nat) (fits : stop ≤ U64_MAX) :
    parseEnd start (some (Nat.toDigits 10 stop)) = .ok stop := by
  have unsigned : ∀ count, Nat.toDigits 10 stop ≠ '+' :: count := by
    intro count same
    have plus := Text.not_mem_digits stop '+' (by decide)
    rw [same] at plus
    exact plus List.mem_cons_self
  unfold parseEnd
  split
  · next none => cases none
  · next count same => exact absurd (Option.some.inj same) (unsigned count)
  · next letters _ same =>
    rw [← Option.some.inj same, parseU64_digits stop fits]

/-- The last line of `count` lines from `start` on, as it is computed. -/
def saturatedEnd (start count : Nat) : Nat := max (saturatingSub (saturatingAdd start count) 1) start

theorem parseEnd_count (start count : Nat) (fits : count ≤ U64_MAX) :
    parseEnd start (some ('+' :: Nat.toDigits 10 count)) = .ok (saturatedEnd start count) := by
  rw [parseEnd, parseU64_digits count fits]
  rfl

/-- Where a file could have the lines, their end is exact; where it is not, it is past the
end of every file. -/
theorem saturatedEnd_fits_iff (data : Data) (start count : Nat) (some_line : 1 ≤ count) :
    (saturatedEnd start count ≤ data.lineCount ↔ start + count - 1 ≤ data.lineCount) ∧
      (saturatedEnd start count ≤ data.lineCount → saturatedEnd start count = start + count - 1) := by
  have bound := data.fits
  have lines := lineCount_le data
  have small : data.lineCount < U64_MAX - 1 := by
    unfold ISIZE_MAX at bound
    unfold U64_MAX
    omega
  unfold saturatedEnd saturatingSub saturatingAdd
  omega

/-- A value of `-L` is read as the range it writes, whatever its path. Counted lines are
found exactly where the file has them all, and are then those lines. -/
theorem parseLinesArg_means (start : Nat) (fits : start ≤ U64_MAX) (path : Option String) :
    parseLinesArg (linesText start.repr path) = .ok ⟨⟨start, start⟩, path⟩ ∧
      (∀ stop, stop ≤ U64_MAX →
        parseLinesArg (linesText (start.repr ++ "," ++ stop.repr) path) = .ok ⟨⟨start, stop⟩, path⟩) ∧
      (∀ count, 1 ≤ count → count ≤ U64_MAX →
        ∃ range, parseLinesArg (linesText (start.repr ++ ",+" ++ count.repr) path) = .ok ⟨range, path⟩ ∧
          ∀ (ObjectId : Type) (data : Data) (file : String),
            ((∃ span, (byteSpanOf data file range : Result ObjectId Span) = .ok span) ↔
              1 ≤ start ∧ start + count - 1 ≤ data.lineCount) ∧
            ∀ span, (byteSpanOf data file range : Result ObjectId Span) = .ok span →
              span.slice data = some (data.lineText (start - 1) (start + count - 1))) := by
  have written (number : Nat) : number.repr = String.ofList (Nat.toDigits 10 number) := Nat.repr_eq_ofList_toDigits
  refine ⟨parseLinesArg_line start fits path, ?_, ?_⟩
  · intro stop stopFits
    rw [written stop]
    exact parseLinesArg_comma start stop fits _ path (Text.not_mem_digits stop ':' (by decide)) (trim_digits stop)
      (parseEnd_digits start stop stopFits)
  · intro count some_line countFits
    refine ⟨⟨start, saturatedEnd start count⟩, ?_, ?_⟩
    · have plus : start.repr ++ ",+" ++ count.repr =
          start.repr ++ "," ++ String.ofList ('+' :: Nat.toDigits 10 count) := by
        rw [← String.toList_inj]
        simp only [String.toList_append, String.toList_ofList, Nat.toList_repr, List.append_assoc]
        rfl
      have no_colon : ':' ∉ '+' :: Nat.toDigits 10 count :=
        List.not_mem_cons_of_ne_of_not_mem (by decide) (Text.not_mem_digits count ':' (by decide))
      rw [plus]
      exact parseLinesArg_comma start _ fits _ path no_colon (trim_plus_digits count)
        (parseEnd_count start count countFits)
    · intro ObjectId data file
      obtain ⟨reaches, exactly⟩ := saturatedEnd_fits_iff data start count some_line
      have after : start ≤ saturatedEnd start count := Nat.le_max_right _ _
      rw [byteSpanOf_eq]
      dsimp only
      constructor
      · rw [← reaches]
        split
        · next fit => exact iff_of_true ⟨_, rfl⟩ ⟨fit.1, fit.2.2⟩
        · next unfit => exact iff_of_false nofun (fun found => unfit ⟨found.1, by omega, found.2⟩)
      · intro span ok
        split at ok
        · next fit =>
          rw [← Except.ok.inj ok, exactly fit.2.2]
          exact slice_lineSpan data _ _ (by omega)
        · cases ok

/-- The path may have a colon and a comma in it. -/
theorem parseLinesArg_means_path :
    parseLinesArg (linesText ((2 : Nat).repr ++ "," ++ (3 : Nat).repr) (some "a:b,c")) = .ok ⟨⟨2, 3⟩, some "a:b,c"⟩ :=
  (parseLinesArg_means 2 (by decide) (some "a:b,c")).2.1 3 (by decide)

end GitAnchor.Anchoring
