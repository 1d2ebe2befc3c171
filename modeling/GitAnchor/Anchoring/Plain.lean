import GitAnchor.Anchoring.Repository

/-! A git library over objects that are their own ids, with flat trees and a line diff of one
hunk: the texts without the lines they begin and end with in common. It keeps every law, so
what is proved of all libraries holds of some, and runs on it can be evaluated. -/

namespace GitAnchor.Anchoring
open GitAnchor.Foundation GitAnchor.Substrate

/-- Files by path, in a tree or a commit of it. -/
abbrev Files := List (String × Data)

inductive Plain where
  | blob (data : Data)
  | tree (files : Files)
  | commit (files : Files)
deriving DecidableEq

/-! The line diff. -/

/-- What two sequences begin with in common, and what is left of each. -/
def splitCommon : List Bytes → List Bytes → List Bytes × List Bytes × List Bytes
  | old :: olds, new :: news =>
      if old = new then
        let (shared, cut, put) := splitCommon olds news
        (old :: shared, cut, put)
      else ([], old :: olds, new :: news)
  | olds, news => ([], olds, news)

theorem splitCommon_eq (olds news : List Bytes) :
    olds = (splitCommon olds news).1 ++ (splitCommon olds news).2.1 ∧
      news = (splitCommon olds news).1 ++ (splitCommon olds news).2.2 := by
  fun_induction splitCommon olds news with
  | case1 olds new news shared cut put split ih =>
    rw [split] at ih
    simp only [List.cons_append]
    exact ⟨congrArg _ ih.1, congrArg _ ih.2⟩
  | case2 => exact ⟨rfl, rfl⟩
  | case3 => exact ⟨rfl, rfl⟩

/-- The hunk between what two sequences begin and end with in common. -/
def trimmedHunks (olds news : List Bytes) : List Hunk :=
  let (head, olds, news) := splitCommon olds news
  let (_, cut, put) := splitCommon olds.reverse news.reverse
  if cut = [] ∧ put = [] then []
  else [⟨⟨head.length, head.length + cut.length⟩, ⟨head.length, head.length + put.length⟩⟩]

theorem trimmedHunks_script (olds news : List Bytes) : Script 0 0 olds news (trimmedHunks olds news) := by
  obtain ⟨begins, begins'⟩ := splitCommon_eq olds news
  unfold trimmedHunks
  generalize splitCommon olds news = front at begins begins' ⊢
  obtain ⟨head, olds', news'⟩ := front
  obtain ⟨ends, ends'⟩ := splitCommon_eq olds'.reverse news'.reverse
  simp only at begins begins' ⊢
  generalize splitCommon olds'.reverse news'.reverse = back at ends ends' ⊢
  obtain ⟨tail, cut, put⟩ := back
  simp only at ends ends' ⊢
  have olds_eq : olds = head ++ cut.reverse ++ tail.reverse := by
    rw [begins, List.append_assoc, ← List.reverse_append, ← ends, List.reverse_reverse]
  have news_eq : news = head ++ put.reverse ++ tail.reverse := by
    rw [begins', List.append_assoc, ← List.reverse_append, ← ends', List.reverse_reverse]
  split
  · next none =>
    rw [olds_eq, news_eq, none.1, none.2]
    exact .rest 0 0 _
  · have script : Script 0 0 (head ++ cut.reverse ++ tail.reverse) (head ++ put.reverse ++ tail.reverse) _ :=
      .hunk 0 0 head cut.reverse put.reverse tail.reverse tail.reverse [] (.rest _ _ _)
    simp only [Nat.zero_add, List.length_reverse] at script
    rw [olds_eq, news_eq]
    exact script

/-! Trees. -/

def plainFiles : Plain → Files
  | .tree files => files
  | _ => []

def plainEntry (root : Plain) (path : String) : Option (Entry Plain) :=
  ((plainFiles root).lookup path).map (fun data => ⟨.blob, .blob data⟩)

/-- What becomes of the file at `path`: kept, modified, moved to a new path, or removed. -/
def plainChange (source target : Files) (path : String) (data : Data) : Option (Change Plain) :=
  match target.lookup path with
  | some found => if found = data then none else some (.modification path (.blob found) .blob)
  | none =>
      match target.find? (fun file => file.2 = data ∧ source.lookup file.1 = none) with
      | none => some (.deletion path)
      | some file => (target.lookup file.1).map (fun found => .rewrite path file.1 (.blob found) .blob false)

def plainChanges (source target : Plain) : List (Change Plain) :=
  (plainFiles source).filterMap (fun file => plainChange (plainFiles source) (plainFiles target) file.1 file.2)

theorem plainChanges_entry (source target : Plain) (change : Change Plain)
    (member : change ∈ plainChanges source target) (location : String) (id : Plain)
    (leads : change.destination = some (location, id)) :
    ∃ entry, plainEntry target location = some entry ∧ entry.oid = id := by
  obtain ⟨⟨path, data⟩, _, became⟩ := List.mem_filterMap.mp member
  have found_there (there : String) (found : Data) (located : (plainFiles target).lookup there = some found) :
      plainEntry target there = some ⟨.blob, .blob found⟩ := by
    rw [plainEntry, located]
    rfl
  unfold plainChange at became
  split at became
  · next found located =>
    split at became
    · cases became
    · obtain rfl := Option.some.inj became
      obtain ⟨rfl, rfl⟩ := Prod.mk.inj (Option.some.inj leads)
      exact ⟨_, found_there path found located, rfl⟩
  · split at became
    · obtain rfl := Option.some.inj became
      cases leads
    · next file _ =>
      obtain ⟨found, located, rfl⟩ := Option.map_eq_some_iff.mp became
      obtain ⟨rfl, rfl⟩ := Prod.mk.inj (Option.some.inj leads)
      exact ⟨_, found_there file.1 found located, rfl⟩

def plainGix : Gix Plain :=
  { hex := fun _ => "object"
    rootTree := fun id => match id with
      | .commit files => some (.tree files)
      | _ => none
    entryAt := plainEntry
    content := fun id => match id with
      | .blob data => some data
      | _ => none
    blobId := .blob
    changes := plainChanges
    hunks := trimmedHunks
    content_blobId := fun _ => rfl
    hunks_script := trimmedHunks_script
    changes_entry := plainChanges_entry }

/-- The repository in which the revisions name commits, with a working tree of `files`. -/
def plainRepository (revisions : String → Option Files) (files : Files) : Repository plainGix :=
  { revParseSingle := fun revision => (revisions revision).map .commit
    hasObject := fun _ => true
    peelToCommit := fun id => match id with
      | .commit found => some (.commit found)
      | _ => none
    tree := fun id => match id with
      | .commit found => .ok (.tree found)
      | _ => .error "not a commit"
    lookupEntryByPath := fun root path => .ok (plainEntry root path)
    findBlob := fun id => match id with
      | .blob data => .ok data
      | _ => .error "not a blob"
    diffTreeToTree := fun source target => .ok (plainChanges source target)
    readOnly := none
    workdir := some { isFile := fun path => (files.lookup path).isSome, read := fun path => files.lookup path }
    peel_commit := by
      intro id commit peeled
      cases id with
      | commit found => rw [← Option.some.inj peeled]; rfl
      | _ => cases peeled
    peel_self := by
      intro id commit peeled _
      cases id with
      | commit found => exact (Option.some.inj peeled).symm
      | _ => cases peeled
    tree_rootTree := by
      intro commit root read
      cases commit with
      | commit found => rw [← Except.ok.inj read]; rfl
      | _ => cases read
    lookup_entryAt := fun root path found read => (Except.ok.inj read).symm
    findBlob_content := by
      intro id data read
      cases id with
      | blob found => rw [Except.ok.inj read]; rfl
      | _ => cases read
    diff_changes := fun source target found read => (Except.ok.inj read).symm }

end GitAnchor.Anchoring
