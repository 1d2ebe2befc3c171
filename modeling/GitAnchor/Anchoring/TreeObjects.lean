import GitAnchor.Anchoring.Repository
import GitAnchor.Anchoring.TreeDiff

/-! Tree objects as repositories with ids of 20 bytes store them: for each entry its mode in
octal, a space, its name, a zero byte and its id. Reading what was written gives it back. -/

namespace GitAnchor.Anchoring
open GitAnchor.Substrate

def SPACE : UInt8 := 32
def NUL : UInt8 := 0

def EntryMode.octal : EntryMode → Bytes
  | .tree => [52, 48, 48, 48, 48]
  | .blob => [49, 48, 48, 54, 52, 52]
  | .blobExecutable => [49, 48, 48, 55, 53, 53]
  | .link => [49, 50, 48, 48, 48, 48]
  | .commit => [49, 54, 48, 48, 48, 48]

def EntryMode.ofOctal (digits : Bytes) : Option EntryMode :=
  [EntryMode.tree, .blob, .blobExecutable, .link, .commit].find? (fun mode => mode.octal = digits)

def readEntries : Nat → Bytes → Except String (List (TreeEntry Bytes EntryMode))
  | _, [] => .ok []
  | 0, _ => .error "tree too long"
  | fuel + 1, bytes =>
      let named := (bytes.dropWhile (fun byte => byte ≠ SPACE)).drop 1
      let stored := (named.dropWhile (fun byte => byte ≠ NUL)).drop 1
      match EntryMode.ofOctal (bytes.takeWhile (fun byte => byte ≠ SPACE)) with
      | none => .error "invalid entry mode"
      | some mode =>
          if stored.length < 20 then .error "entry without an id"
          else do
            let later ← readEntries fuel (stored.drop 20)
            return ⟨named.takeWhile (fun byte => byte ≠ NUL), stored.take 20, mode⟩ :: later

def writeEntries (entries : List (TreeEntry Bytes EntryMode)) : Bytes :=
  entries.flatMap (fun entry => entry.mode.octal ++ SPACE :: entry.filename ++ NUL :: entry.oid)

/-- Trees with ids of 20 bytes. -/
def sha1Trees : ObjectFormat Bytes EntryMode where
  hex id := String.ofList (id.flatMap (fun byte => [Nat.digitChar (byte.toNat / 16), Nat.digitChar (byte.toNat % 16)]))
  emptyTree := [0x4b, 0x82, 0x5d, 0xc6, 0x42, 0xcb, 0x6e, 0xb9, 0xa0, 0x60, 0xe5, 0x4b, 0xf8, 0xd6, 0x92, 0x88, 0xfb,
    0xee, 0x49, 0x04]
  treeFromBytes bytes := readEntries bytes.length bytes
  isTree mode := decide (mode = .tree)

theorem ofOctal_octal (mode : EntryMode) : EntryMode.ofOctal mode.octal = some mode := by
  cases mode <;> decide

theorem space_not_mem_octal (mode : EntryMode) : ∀ byte ∈ mode.octal, byte ≠ SPACE := by
  have clear : mode.octal.all (fun byte => byte ≠ SPACE) = true := by
    cases mode <;> rfl
  simpa using clear

/-- A word that does not have the byte after it is read up to that byte. -/
theorem word_and_rest (word rest : Bytes) (stop : UInt8) (inside : ∀ byte ∈ word, byte ≠ stop) :
    (word ++ stop :: rest).takeWhile (fun byte => byte ≠ stop) = word ∧
      ((word ++ stop :: rest).dropWhile (fun byte => byte ≠ stop)).drop 1 = rest := by
  have within : ∀ byte ∈ word, decide (byte ≠ stop) = true := fun byte member => decide_eq_true (inside byte member)
  rw [List.takeWhile_append_of_pos within, List.dropWhile_append_of_pos within]
  simp

/-- Reading what was written gives it back. -/
theorem readEntries_writeEntries (entries : List (TreeEntry Bytes EntryMode)) (fuel : Nat)
    (enough : entries.length ≤ fuel) (names : ∀ entry ∈ entries, NUL ∉ entry.filename)
    (ids : ∀ entry ∈ entries, entry.oid.length = 20) : readEntries fuel (writeEntries entries) = .ok entries := by
  induction entries generalizing fuel with
  | nil => cases fuel <;> rfl
  | cons entry rest ih =>
    obtain ⟨fuel, rfl⟩ : ∃ more, fuel = more + 1 := ⟨fuel - 1, by rw [List.length_cons] at enough; omega⟩
    have later := ih fuel (by rw [List.length_cons] at enough; omega)
      (fun other member => names other (List.mem_cons_of_mem _ member))
      (fun other member => ids other (List.mem_cons_of_mem _ member))
    have wide := ids entry List.mem_cons_self
    have written : writeEntries (entry :: rest) =
        entry.mode.octal ++ SPACE :: (entry.filename ++ NUL :: (entry.oid ++ writeEntries rest)) := by
      simp [writeEntries]
    obtain ⟨mode, named⟩ := word_and_rest entry.mode.octal (entry.filename ++ NUL :: (entry.oid ++ writeEntries rest))
      SPACE (space_not_mem_octal entry.mode)
    obtain ⟨name, stored⟩ := word_and_rest entry.filename (entry.oid ++ writeEntries rest) NUL (by
      intro byte member same
      exact names entry List.mem_cons_self (same ▸ member))
    have some_bytes : entry.mode.octal ++ SPACE :: (entry.filename ++ NUL :: (entry.oid ++ writeEntries rest)) ≠ [] := by
      simp
    rw [written, readEntries.eq_3 _ _ some_bytes, mode, named, name, stored, ofOctal_octal]
    dsimp only
    rw [if_neg (by rw [List.length_append]; omega), List.drop_left' wide, List.take_left' wide, later]
    rfl

/-- A source that holds trees only. -/
def treesOf (held : List (Bytes × List (TreeEntry Bytes EntryMode))) : Find Bytes where
  tryFind id := .ok ((held.lookup id).map (fun found => (.tree, writeEntries found)))

/-- A held tree is read as it was written. -/
theorem entries_treesOf (held : List (Bytes × List (TreeEntry Bytes EntryMode))) (id : Bytes)
    (found : List (TreeEntry Bytes EntryMode)) (some_tree : id ≠ sha1Trees.emptyTree) (there : held.lookup id = some found)
    (names : ∀ entry ∈ found, NUL ∉ entry.filename) (ids : ∀ entry ∈ found, entry.oid.length = 20) :
    entries sha1Trees (treesOf held) (some id) = namedEntries sha1Trees id found := by
  have long : found.length ≤ (writeEntries found).length := by
    clear there names ids
    induction found with
    | nil => simp
    | cons entry rest ih =>
      rw [writeEntries] at ih ⊢
      rw [List.flatMap_cons, List.length_append, List.length_append, List.length_append, List.length_cons, List.length_cons]
      simp only [List.length_cons]
      omega
  have read : sha1Trees.treeFromBytes (writeEntries found) = .ok found :=
    readEntries_writeEntries found _ long names ids
  have held_there : (treesOf held).tryFind id = .ok (some (.tree, writeEntries found)) := by
    simp only [treesOf, there, Option.map_some]
  simp only [entries, if_neg some_tree, held_there, if_true, read]

theorem read_treesOf (held : List (Bytes × List (TreeEntry Bytes EntryMode))) (id : Bytes)
    (found : List (TreeEntry Bytes EntryMode)) (named : List (Named Bytes EntryMode))
    (some_tree : id ≠ sha1Trees.emptyTree) (there : held.lookup id = some found)
    (names : ∀ entry ∈ found, NUL ∉ entry.filename) (ids : ∀ entry ∈ found, entry.oid.length = 20)
    (read : namedEntries sha1Trees id found = .ok named) : entries sha1Trees (treesOf held) (some id) = .ok named :=
  (entries_treesOf held id found some_tree there names ids).trans read

/-- A short way to write an id. -/
def sha1 (byte : UInt8) : Bytes := List.replicate 20 byte

end GitAnchor.Anchoring
