import Mathlib.Data.List.Basic
import Mathlib.Data.List.Nodup

/-! A content-addressed object store. An object is named by its address and links to
other objects by theirs; it is stored only after everything it links to, so following
first links always descends and needs no fuel. -/

namespace GitAnchor.Foundation

/-- How objects are named, and which names each one links to. -/
structure Addressing (Id Obj : Type) where
  address : Obj → Id
  links : Obj → List Id

/-- Newest first: addresses are distinct, and links point at older objects only. -/
def Addressing.Sound {Id Obj : Type} (A : Addressing Id Obj) : List Obj → Prop
  | [] => True
  | o :: older =>
      (A.address o ∉ older.map A.address ∧ ∀ id ∈ A.links o, id ∈ older.map A.address) ∧ A.Sound older

structure ContentStore {Id Obj : Type} (A : Addressing Id Obj) where
  objects : List Obj
  sound : A.Sound objects

namespace ContentStore
variable {Id Obj : Type} [DecidableEq Id] {A : Addressing Id Obj}

omit [DecidableEq Id] in
def ids (s : ContentStore A) : List Id := s.objects.map A.address

def find (s : ContentStore A) (id : Id) : Option Obj :=
  s.objects.find? (fun o => A.address o = id)

/-- An object already stored, or one with a link to nothing, leaves the store as it is. -/
def write (s : ContentStore A) (o : Obj) : ContentStore A :=
  if fresh : A.address o ∉ s.ids ∧ ∀ id ∈ A.links o, id ∈ s.ids then
    ⟨o :: s.objects, fresh, s.sound⟩
  else s

/-- The addresses met on following first links, from `id` down to an object with none. -/
def walkFrom (A : Addressing Id Obj) : List Obj → Id → Option (List Id)
  | [], _ => none
  | o :: older, id =>
      if A.address o = id then
        match A.links o with
        | [] => some [id]
        | next :: _ => (walkFrom A older next).map (id :: ·)
      else walkFrom A older id

def walk (s : ContentStore A) (id : Id) : Option (List Id) :=
  walkFrom A s.objects id

/-! Reading an object back. -/

theorem find_address (s : ContentStore A) (id : Id) (o : Obj) (found : s.find id = some o) :
    A.address o = id := by
  simpa using List.find?_some found

theorem mem_objects_of_find (s : ContentStore A) (id : Id) (o : Obj) (found : s.find id = some o) :
    o ∈ s.objects := List.mem_of_find?_eq_some found

theorem mem_ids_of_find (s : ContentStore A) (id : Id) (o : Obj) (found : s.find id = some o) :
    id ∈ s.ids := by
  rw [← find_address s id o found]
  exact List.mem_map_of_mem (mem_objects_of_find s id o found)

theorem exists_find_of_mem_ids (s : ContentStore A) (id : Id) (stored : id ∈ s.ids) :
    ∃ o, s.find id = some o := by
  obtain ⟨o, member, same⟩ := List.mem_map.mp stored
  have some : (s.find id).isSome := List.find?_isSome.mpr ⟨o, member, by simpa using same⟩
  exact Option.isSome_iff_exists.mp some

/-! Writing. -/

theorem write_of_stored (s : ContentStore A) (o : Obj) (stored : A.address o ∈ s.ids) :
    s.write o = s := by
  unfold write
  rw [dif_neg (fun fresh => fresh.1 stored)]

theorem write_objects_of_fresh (s : ContentStore A) (o : Obj) (fresh : A.address o ∉ s.ids)
    (closed : ∀ id ∈ A.links o, id ∈ s.ids) : (s.write o).objects = o :: s.objects := by
  unfold write
  rw [dif_pos ⟨fresh, closed⟩]

theorem write_cases (s : ContentStore A) (o : Obj) :
    s.write o = s ∨ (A.address o ∉ s.ids ∧ (s.write o).objects = o :: s.objects) := by
  unfold write
  by_cases fresh : A.address o ∉ s.ids ∧ ∀ id ∈ A.links o, id ∈ s.ids
  · exact .inr ⟨fresh.1, by rw [dif_pos fresh]⟩
  · exact .inl (by rw [dif_neg fresh])

theorem find_write (s : ContentStore A) (o found : Obj) (id : Id) (stored : s.find id = some found) :
    (s.write o).find id = some found := by
  rcases write_cases s o with same | ⟨fresh, objects⟩
  · rwa [same]
  · have different : A.address o ≠ id := fun same => fresh (same ▸ mem_ids_of_find s id found stored)
    unfold find
    rw [objects, List.find?_cons_of_neg (by simpa using different)]
    exact stored

/-- A write adds one object at most. -/
theorem find_of_write (s : ContentStore A) (o found : Obj) (id : Id) (stored : (s.write o).find id = some found) :
    s.find id = some found ∨ found = o := by
  rcases write_cases s o with same | ⟨_, objects⟩
  · exact .inl (same ▸ stored)
  · unfold find at stored
    rw [objects] at stored
    by_cases own : A.address o = id
    · rw [List.find?_cons_of_pos (by simpa using own)] at stored
      exact .inr (Option.some.inj stored).symm
    · rw [List.find?_cons_of_neg (by simpa using own)] at stored
      exact .inl stored

theorem mem_ids_write (s : ContentStore A) (o : Obj) (id : Id) (stored : id ∈ s.ids) :
    id ∈ (s.write o).ids := by
  obtain ⟨found, lookup⟩ := exists_find_of_mem_ids s id stored
  exact mem_ids_of_find _ _ _ (find_write s o found id lookup)

/-- Content addressing: what is read back under an object's address is that object. -/
theorem find_write_self (injective : Function.Injective A.address) (s : ContentStore A) (o : Obj)
    (closed : ∀ id ∈ A.links o, id ∈ s.ids) : (s.write o).find (A.address o) = some o := by
  by_cases stored : A.address o ∈ s.ids
  · rw [write_of_stored s o stored]
    obtain ⟨found, lookup⟩ := exists_find_of_mem_ids s _ stored
    rw [lookup, injective (find_address s _ _ lookup)]
  · unfold find
    rw [write_objects_of_fresh s o stored closed]
    simp

theorem mem_ids_write_self (injective : Function.Injective A.address) (s : ContentStore A) (o : Obj)
    (closed : ∀ id ∈ A.links o, id ∈ s.ids) : A.address o ∈ (s.write o).ids :=
  mem_ids_of_find _ _ _ (find_write_self injective s o closed)

/-! Walking first links. -/

private theorem walkFrom_stored (objects : List Obj) (id : Id) (ids : List Id)
    (walked : walkFrom A objects id = some ids) :
    ids.Sublist (objects.map A.address) ∧ ids.head? = some id := by
  induction objects generalizing id ids with
  | nil => simp [walkFrom] at walked
  | cons o older ih =>
    by_cases here : A.address o = id
    · simp only [walkFrom, if_pos here] at walked
      cases shape : A.links o with
      | nil =>
        simp only [shape, Option.some.injEq] at walked
        subst walked
        simp [here]
      | cons next rest =>
        simp only [shape, Option.map_eq_some_iff] at walked
        obtain ⟨tail, descended, rfl⟩ := walked
        refine ⟨?_, rfl⟩
        rw [List.map_cons, here]
        exact (ih next tail descended).1.cons_cons id
    · simp only [walkFrom, if_neg here] at walked
      exact ⟨(ih id ids walked).1.cons _, (ih id ids walked).2⟩

theorem walk_head (s : ContentStore A) (id : Id) (ids : List Id) (walked : s.walk id = some ids) :
    ids.head? = some id := (walkFrom_stored s.objects id ids walked).2

theorem mem_ids_of_walk (s : ContentStore A) (id : Id) (ids : List Id) (walked : s.walk id = some ids)
    (other : Id) (member : other ∈ ids) : other ∈ s.ids :=
  (walkFrom_stored s.objects id ids walked).1.subset member

omit [DecidableEq Id] in
private theorem sound_nodup (objects : List Obj) (sound : A.Sound objects) :
    (objects.map A.address).Nodup := by
  induction objects with
  | nil => simp
  | cons o older ih => exact List.nodup_cons.mpr ⟨sound.1.1, ih sound.2⟩

/-- A walk never meets an object twice. -/
theorem walk_nodup (s : ContentStore A) (id : Id) (ids : List Id) (walked : s.walk id = some ids) :
    ids.Nodup := (sound_nodup s.objects s.sound).sublist (walkFrom_stored s.objects id ids walked).1

/-- Writing an object changes no walk that was already possible. -/
theorem walk_write (s : ContentStore A) (o : Obj) (id : Id) (ids : List Id)
    (walked : s.walk id = some ids) : (s.write o).walk id = some ids := by
  rcases write_cases s o with same | ⟨fresh, objects⟩
  · rwa [same]
  · have stored : id ∈ s.ids := mem_ids_of_walk s id ids walked id (List.mem_of_mem_head? (walk_head s id ids walked))
    have different : A.address o ≠ id := fun same => fresh (same ▸ stored)
    unfold walk
    rw [objects]
    simp only [walkFrom, if_neg different]
    exact walked

private theorem walkFrom_cons (o : Obj) (older : List Obj) (id : Id)
    (fresh : A.address o ∉ older.map A.address) (stored : id ∈ older.map A.address) :
    walkFrom A (o :: older) id = walkFrom A older id := by
  have different : A.address o ≠ id := fun same => fresh (same ▸ stored)
  simp only [walkFrom, if_neg different]

omit [DecidableEq Id] in
private theorem sound_links (objects : List Obj) (sound : A.Sound objects) (o : Obj)
    (member : o ∈ objects) : ∀ id ∈ A.links o, id ∈ objects.map A.address := by
  induction objects with
  | nil => simp at member
  | cons first older ih =>
    intro id link
    rcases List.mem_cons.mp member with same | later
    · subst same
      exact List.mem_cons_of_mem _ (sound.1.2 id link)
    · exact List.mem_cons_of_mem _ (ih sound.2 later id link)

private theorem walkFrom_object (objects : List Obj) (sound : A.Sound objects) (o : Obj)
    (member : o ∈ objects) :
    walkFrom A objects (A.address o) = match A.links o with
      | [] => some [A.address o]
      | next :: _ => (walkFrom A objects next).map (A.address o :: ·) := by
  induction objects with
  | nil => simp at member
  | cons first older ih =>
    rcases List.mem_cons.mp member with same | later
    · subst same
      simp only [walkFrom, if_true]
      cases shape : A.links o with
      | nil => rfl
      | cons next rest =>
        have stored : next ∈ older.map A.address := sound.1.2 next (by simp [shape])
        have different : A.address o ≠ next := fun same => sound.1.1 (same ▸ stored)
        simp only [if_neg different]
    · rw [walkFrom_cons first older _ sound.1.1 (List.mem_map_of_mem later), ih sound.2 later]
      cases shape : A.links o with
      | nil => rfl
      | cons next rest =>
        simp only
        rw [walkFrom_cons first older next sound.1.1
          (sound_links older sound.2 o later next (by simp [shape]))]

/-- The walk from an object is that object, then the walk from its first link. -/
theorem walk_object (s : ContentStore A) (id : Id) (o : Obj) (found : s.find id = some o) :
    s.walk id = match A.links o with
      | [] => some [id]
      | next :: _ => (s.walk next).map (id :: ·) := by
  have unfolded := walkFrom_object s.objects s.sound o (mem_objects_of_find s id o found)
  rw [find_address s id o found] at unfolded
  exact unfolded

/-- A walk that meets an object goes on from it as the walk from that object does. -/
theorem walk_suffix (s : ContentStore A) (id other : Id) (newer older : List Id)
    (walked : s.walk id = some (newer ++ other :: older)) : s.walk other = some (other :: older) := by
  induction newer generalizing id with
  | nil =>
    have head := walk_head s id _ walked
    obtain rfl : other = id := by simpa using head
    exact walked
  | cons first rest ih =>
    have stored := mem_ids_of_walk s id _ walked id (List.mem_of_mem_head? (walk_head s id _ walked))
    obtain ⟨o, found⟩ := exists_find_of_mem_ids s id stored
    rw [walk_object s id o found] at walked
    cases linked : A.links o with
    | nil => simp [linked] at walked
    | cons next more =>
      simp only [linked, Option.map_eq_some_iff] at walked
      obtain ⟨tail, below, same⟩ := walked
      rw [List.cons_append] at same
      obtain rfl := (List.cons.inj same).2
      exact ih next below

/-- A store with every object of another walks wherever the other does. -/
theorem walk_of_find (s t : ContentStore A) (kept : ∀ id o, s.find id = some o → t.find id = some o)
    (id : Id) (ids : List Id) (walked : s.walk id = some ids) : t.walk id = some ids := by
  induction ids generalizing id with
  | nil =>
    have head := walk_head s id [] walked
    cases head
  | cons first rest ih =>
    have stored := mem_ids_of_walk s id _ walked id (List.mem_of_mem_head? (walk_head s id _ walked))
    obtain ⟨o, found⟩ := exists_find_of_mem_ids s id stored
    rw [walk_object s id o found] at walked
    rw [walk_object t id o (kept id o found)]
    cases linked : A.links o with
    | nil => simpa only [linked] using walked
    | cons next more =>
      simp only [linked, Option.map_eq_some_iff] at walked
      obtain ⟨tail, below, same⟩ := walked
      obtain ⟨rfl, rfl⟩ := List.cons.inj same
      simp only [ih next below, Option.map_some]

end ContentStore

end GitAnchor.Foundation
