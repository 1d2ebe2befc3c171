import Mathlib.Data.List.Nodup
import Mathlib.Logic.Function.Basic

/-! Partial maps that entries are written over, one after another: what was written last under
a key is what is there. -/

namespace GitAnchor.Foundation
variable {Key Value : Type} [DecidableEq Key]

def overlay : List (Key × Value) → (Key → Option Value) → Key → Option Value
  | [], before => before
  | (key, value) :: later, before => overlay later (Function.update before key (some value))

/-- A key that is not written keeps what it had. -/
theorem overlay_other (entries : List (Key × Value)) (before : Key → Option Value) (key : Key)
    (unwritten : key ∉ entries.map Prod.fst) : overlay entries before key = before key := by
  induction entries generalizing before with
  | nil => rfl
  | cons entry rest ih =>
    rw [List.map_cons, List.mem_cons, not_or] at unwritten
    calc
      overlay (entry :: rest) before key = Function.update before entry.1 (some entry.2) key := ih _ unwritten.2
      _ = before key := Function.update_of_ne unwritten.1 _ _

/-- A key that is written has something that was written under it. -/
theorem overlay_written (entries : List (Key × Value)) (before : Key → Option Value) (key : Key)
    (written : key ∈ entries.map Prod.fst) : ∃ value, (key, value) ∈ entries ∧ overlay entries before key = some value := by
  induction entries generalizing before with
  | nil => cases written
  | cons entry rest ih =>
    by_cases again : key ∈ rest.map Prod.fst
    · obtain ⟨value, member, there⟩ := ih (Function.update before entry.1 (some entry.2)) again
      exact ⟨value, List.mem_cons_of_mem _ member, there⟩
    · have same : key = entry.1 := (List.mem_cons.mp written).resolve_right again
      refine ⟨entry.2, same ▸ List.mem_cons_self, ?_⟩
      calc
        overlay (entry :: rest) before key = Function.update before entry.1 (some entry.2) key :=
          overlay_other rest _ key again
        _ = some entry.2 := same ▸ Function.update_self key _ before

/-- Where no key is written twice, each has what was written under it. -/
theorem overlay_of_mem (entries : List (Key × Value)) (before : Key → Option Value) (key : Key) (value : Value)
    (distinct : (entries.map Prod.fst).Nodup) (member : (key, value) ∈ entries) :
    overlay entries before key = some value := by
  obtain ⟨found, other, there⟩ := overlay_written entries before key (List.mem_map_of_mem member)
  have same := List.inj_on_of_nodup_map distinct member other rfl
  rw [there, (Prod.mk.inj same).2]

end GitAnchor.Foundation
