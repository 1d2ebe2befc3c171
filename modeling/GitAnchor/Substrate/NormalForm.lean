import Mathlib.Logic.Function.Basic

/-! The identity normal form of `facet-git-tree`: the part of its closed universe that
target keys and anchor ids are written in, and its hash, taken as collision free. -/

namespace GitAnchor.Substrate

abbrev Bytes := List UInt8

inductive NormalForm (ObjectId : Type) where
  | struct (fields : List (String × NormalForm ObjectId))
  | list (items : List (NormalForm ObjectId))
  | str (value : String)
  | hash (id : ObjectId)
  | u64 (value : Nat)

structure NormalFormHash (ObjectId : Type) where
  hash : NormalForm ObjectId → ObjectId
  hash_injective : Function.Injective hash

end GitAnchor.Substrate
