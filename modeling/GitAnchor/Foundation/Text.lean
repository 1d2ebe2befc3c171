import Mathlib.Data.List.Basic

/-! Reading text: cutting it at a separator, the first or the last, trimming white space off it, and decimal numbers
up to a limit. -/

namespace GitAnchor.Foundation.Text

/-- What stands before the first separator, and after it if there is one. -/
def cutAt (separator : Char) : List Char → List Char × Option (List Char)
  | [] => ([], none)
  | letter :: rest =>
      if letter = separator then ([], some rest)
      else
        let (before, after) := cutAt separator rest
        (letter :: before, after)

/-- The letters with the Unicode property `White_Space`. -/
def isWhite (letter : Char) : Bool :=
  (9 ≤ letter.toNat ∧ letter.toNat ≤ 13) ∨ (0x2000 ≤ letter.toNat ∧ letter.toNat ≤ 0x200A) ∨
    letter.toNat ∈ [0x20, 0x85, 0xA0, 0x1680, 0x2028, 0x2029, 0x202F, 0x205F, 0x3000]

def trim (letters : List Char) : List Char :=
  ((letters.dropWhile isWhite).reverse.dropWhile isWhite).reverse

/-- Without the line ends that stand last. -/
def trimLineEnds (letters : List Char) : List Char :=
  (letters.reverse.dropWhile (fun letter => letter = '\n' ∨ letter = '\r')).reverse

/-- A decimal number, with one `+` before it at most; none where it exceeds the limit. -/
def parseUnsigned (limit : Nat) (letters : List Char) : Option Nat :=
  let digits := match letters with
    | '+' :: rest => rest
    | letters => letters
  if digits = [] ∨ ¬ digits.all Char.isDigit then none
  else
    let number := Nat.ofDigitChars 10 digits 0
    if number ≤ limit then some number else none

theorem cutAt_of_not_mem (separator : Char) (letters : List Char) (fresh : separator ∉ letters) :
    cutAt separator letters = (letters, none) := by
  induction letters with
  | nil => rfl
  | cons letter rest ih =>
    rw [List.mem_cons, not_or] at fresh
    rw [cutAt, if_neg (Ne.symm fresh.1), ih fresh.2]

theorem cutAt_append (separator : Char) (before after : List Char) (fresh : separator ∉ before) :
    cutAt separator (before ++ separator :: after) = (before, some after) := by
  induction before with
  | nil => rw [List.nil_append, cutAt, if_pos rfl]
  | cons letter rest ih =>
    rw [List.mem_cons, not_or] at fresh
    rw [List.cons_append, cutAt, if_neg (Ne.symm fresh.1), ih fresh.2]

theorem cutAt_eq_some (separator : Char) (letters before after : List Char) :
    cutAt separator letters = (before, some after) ↔ letters = before ++ separator :: after ∧ separator ∉ before := by
  constructor
  · intro cut
    induction letters generalizing before with
    | nil => cases cut
    | cons letter rest ih =>
      rw [cutAt] at cut
      split at cut
      · next same =>
        cases cut
        exact ⟨congrArg (· :: after) same, List.not_mem_nil⟩
      · next other =>
        obtain ⟨rfl, further⟩ := Prod.mk.inj cut
        obtain ⟨split, fresh⟩ := ih _ (Prod.ext rfl further)
        rw [List.mem_cons, not_or]
        exact ⟨congrArg (letter :: ·) split, Ne.symm other, fresh⟩
  · rintro ⟨rfl, fresh⟩
    exact cutAt_append separator before after fresh

/-- What stands before the last separator and after it, if there is one. -/
def cutLast (separator : Char) (letters : List Char) : Option (List Char × List Char) :=
  match cutAt separator letters.reverse with
  | (_, none) => none
  | (after, some before) => some (before.reverse, after.reverse)

theorem cutLast_eq_some (separator : Char) (letters before after : List Char) :
    cutLast separator letters = some (before, after) ↔ letters = before ++ separator :: after ∧ separator ∉ after := by
  have mirrored : letters.reverse = after.reverse ++ separator :: before.reverse ↔ letters = before ++ separator :: after := by
    rw [← List.reverse_inj, List.reverse_reverse]
    simp
  rw [← mirrored, ← List.mem_reverse, ← cutAt_eq_some]
  unfold cutLast
  split
  · next uncut =>
    rw [uncut]
    exact iff_of_false nofun nofun
  · next front back cut =>
    rw [cut, Option.some.injEq, Prod.mk.injEq, Prod.mk.injEq, Option.some.injEq, List.reverse_eq_iff, List.reverse_eq_iff,
      and_comm]

theorem dropWhile_eq_self (letters : List Char) (solid : ∀ letter ∈ letters, isWhite letter = false) :
    letters.dropWhile isWhite = letters := by
  cases letters with
  | nil => rfl
  | cons letter rest => rw [List.dropWhile_cons, solid letter List.mem_cons_self, if_neg Bool.false_ne_true]

theorem trim_eq_self (letters : List Char) (solid : ∀ letter ∈ letters, isWhite letter = false) :
    trim letters = letters := by
  have backwards : ∀ letter ∈ letters.reverse, isWhite letter = false :=
    fun letter member => solid letter (List.mem_reverse.mp member)
  rw [trim, dropWhile_eq_self letters solid, dropWhile_eq_self _ backwards, List.reverse_reverse]

/-! Digits are no separators, and numbers come back as they were written. -/

theorem digit_toNat (letter : Char) (digit : letter.isDigit = true) : 48 ≤ letter.toNat ∧ letter.toNat ≤ 57 := by
  simpa [Char.isDigit, UInt32.le_iff_toNat_le] using digit

theorem digit_not_white (letter : Char) (digit : letter.isDigit = true) : isWhite letter = false := by
  obtain ⟨low, high⟩ := digit_toNat letter digit
  simp only [isWhite, decide_eq_false_iff_not, List.mem_cons, List.not_mem_nil, or_false]
  omega

theorem digits_isDigit (number : Nat) : ∀ letter ∈ Nat.toDigits 10 number, letter.isDigit = true :=
  fun _ member => Nat.isDigit_of_mem_toDigits (by decide) (by decide) member

theorem not_mem_digits (number : Nat) (letter : Char) (other : letter.isDigit = false) :
    letter ∉ Nat.toDigits 10 number := by
  intro member
  rw [digits_isDigit number letter member] at other
  cases other

theorem parseUnsigned_digits (limit number : Nat) (fits : number ≤ limit) :
    parseUnsigned limit (Nat.toDigits 10 number) = some number := by
  have nonempty : Nat.toDigits 10 number ≠ [] := Nat.toDigits_ne_nil
  have all : (Nat.toDigits 10 number).all Char.isDigit = true := List.all_eq_true.mpr (digits_isDigit number)
  have unsigned : (match Nat.toDigits 10 number with
      | '+' :: rest => rest
      | letters => letters) = Nat.toDigits 10 number := by
    split
    · next rest same =>
      have plus := not_mem_digits number '+' (by decide)
      rw [same] at plus
      exact absurd List.mem_cons_self plus
    · rfl
  unfold parseUnsigned
  rw [unsigned, if_neg (not_or.mpr ⟨nonempty, not_not_intro all⟩), Nat.ofDigitChars_ten_toDigits]
  exact if_pos fits

end GitAnchor.Foundation.Text
