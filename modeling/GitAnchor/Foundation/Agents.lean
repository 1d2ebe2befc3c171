import Mathlib.Data.List.Perm.Basic
import Mathlib.Data.List.Nodup
import Mathlib.Algebra.BigOperators.Group.Finset.Piecewise
import Mathlib.Algebra.Order.BigOperators.Group.Finset

/-! A list of agents that change one at a time, and what they report: an agent that begins
to report adds one report, up to order, and reports without repetition tell agents apart. -/

namespace GitAnchor.Foundation.Agents
variable {Agent Report : Type} (report : Agent → Option Report)

/-- An agent that reported nothing is replaced: its new report joins the others. -/
theorem filterMap_set_perm (agents : List Agent) (i : Nat) (old new : Agent)
    (located : agents[i]? = some old) (silent : report old = none) :
    ((agents.set i new).filterMap report).Perm ((report new).toList ++ agents.filterMap report) := by
  induction agents generalizing i with
  | nil => simp at located
  | cons first rest ih =>
    cases i with
    | zero =>
      obtain rfl : first = old := by simpa using located
      rw [List.set_cons_zero, List.filterMap_cons_none silent]
      cases said : report new with
      | none => simp [said]
      | some value => simp [said]
    | succ i =>
      have later := ih i (by simpa using located)
      rw [List.set_cons_succ]
      cases said : report first with
      | none =>
        rw [List.filterMap_cons_none said, List.filterMap_cons_none said]
        exact later
      | some value =>
        rw [List.filterMap_cons_some said, List.filterMap_cons_some said]
        exact (later.cons value).trans List.perm_middle.symm

/-- Agents beside their jobs: replacing an agent leaves the job it does. -/
theorem zip_set {Job : Type} (agents : List Agent) (jobs : List Job) (i : Nat) (new : Agent) (job : Job)
    (located : jobs[i]? = some job) : (agents.set i new).zip jobs = (agents.zip jobs).set i (new, job) := by
  induction agents generalizing i jobs with
  | nil => rfl
  | cons first rest ih =>
    cases jobs with
    | nil => simp at located
    | cons own others =>
      cases i with
      | zero =>
        obtain rfl : own = job := by simpa using located
        rfl
      | succ i =>
        have later := ih others i (by simpa using located)
        rw [List.set_cons_succ, List.zip_cons_cons, later]
        rfl

theorem filterMap_set_silent (agents : List Agent) (i : Nat) (old new : Agent)
    (located : agents[i]? = some old) (before : report old = none) (after : report new = none) :
    ((agents.set i new).filterMap report).Perm (agents.filterMap report) := by
  have replaced := filterMap_set_perm report agents i old new located before
  rwa [after, Option.toList_none, List.nil_append] at replaced

theorem index_unique (agents : List Agent) (once : (agents.filterMap report).Nodup) (i j : Nat)
    (first second : Agent) (value : Report) (one : agents[i]? = some first)
    (other : agents[j]? = some second) (reported : report first = some value)
    (repeated : report second = some value) : i = j := by
  have split (k : Nat) (agent : Agent) (at_k : agents[k]? = some agent) :
      agents.filterMap report =
        (agents.take k).filterMap report ++ (agent :: agents.drop (k + 1)).filterMap report := by
    obtain ⟨bound, same⟩ := List.getElem?_eq_some_iff.mp at_k
    rw [← List.filterMap_append, ← same, List.getElem_cons_drop, List.take_append_drop]
  have absurd_of_lt (k l : Nat) (lower upper : Agent) (at_k : agents[k]? = some lower)
      (at_l : agents[l]? = some upper) (low : report lower = some value) (up : report upper = some value) :
      ¬ k < l := by
    intro lt
    rw [split l upper at_l, List.nodup_append] at once
    apply once.2.2 value _ value _ rfl
    · apply List.mem_filterMap.mpr
      refine ⟨lower, ?_, low⟩
      rw [List.mem_iff_getElem?]
      exact ⟨k, by rw [List.getElem?_take_of_lt lt, at_k]⟩
    · exact List.mem_filterMap.mpr ⟨upper, List.mem_cons_self, up⟩
  have below := absurd_of_lt i j first second one other reported repeated
  have above := absurd_of_lt j i second first other one repeated reported
  omega

/-- No two agents report the same. -/
def Apart (agents : List Agent) : Prop :=
  ∀ (i j : Nat) (one other : Agent) (value : Report), agents[i]? = some one → agents[j]? = some other →
    report one = some value → report other = some value → i = j

/-- An agent that joins and reports nothing. -/
theorem Apart.joined {agents : List Agent} (apart : Apart report agents) (new : Agent) (silent : report new = none) :
    Apart report (agents ++ [new]) := by
  have earlier (i : Nat) (agent : Agent) (value : Report) (located : (agents ++ [new])[i]? = some agent)
      (reported : report agent = some value) : agents[i]? = some agent := by
    rw [List.getElem?_append] at located
    split at located
    · exact located
    · rw [List.getElem?_singleton] at located
      split at located
      · rw [← Option.some.inj located, silent] at reported
        cases reported
      · cases located
  intro i j one other value first second reported repeated
  exact apart i j one other value (earlier i one value first reported) (earlier j other value second repeated) reported repeated

/-- An agent that changes, and reports what it did before or what none reports. -/
theorem Apart.changed {agents : List Agent} (apart : Apart report agents) (i : Nat) (old new : Agent)
    (located : agents[i]? = some old)
    (own : ∀ value, report new = some value → report old = some value ∨ ∀ agent ∈ agents, report agent ≠ some value) :
    Apart report (agents.set i new) := by
  have bound := (List.getElem?_eq_some_iff.mp located).1
  have alone (j : Nat) (agent : Agent) (value : Report) (there : (agents.set i new)[j]? = some agent)
      (reported : report agent = some value) (said : report new = some value) : i = j := by
    by_cases same : i = j
    · exact same
    · rw [List.getElem?_set_ne same] at there
      rcases own value said with before | unheard
      · exact apart i j old agent value located there before reported
      · exact absurd reported (unheard agent (List.mem_of_getElem? there))
  intro j k one other value first second reported repeated
  by_cases here : i = j
  · subst here
    rw [List.getElem?_set_self bound] at first
    rw [← Option.some.inj first] at reported
    exact alone k other value second repeated reported
  · by_cases there : i = k
    · subst there
      rw [List.getElem?_set_self bound] at second
      rw [← Option.some.inj second] at repeated
      exact (alone j one value first reported repeated).symm
    · rw [List.getElem?_set_ne here] at first
      rw [List.getElem?_set_ne there] at second
      exact apart j k one other value first second reported repeated

/-- Events that are each the turn of one of `n` agents, counted agent by agent. -/
theorem countP_turns {Event : Type} (turn : Event → Option ℕ) (n : ℕ) (events : List Event)
    (bound : ∀ event ∈ events, ∀ i, turn event = some i → i < n) :
    events.countP (fun event => (turn event).isSome) =
      ∑ i ∈ Finset.range n, events.countP (fun event => turn event = some i) := by
  induction events with
  | nil => simp
  | cons event rest ih =>
    have later := ih (fun other member => bound other (List.mem_cons_of_mem _ member))
    simp only [List.countP_cons, Finset.sum_add_distrib, ← later]
    congr 1
    cases said : turn event with
    | none => simp
    | some i =>
      have inside := bound event List.mem_cons_self i said
      simp [inside]

/-- Where each agent has at most `most` turns, `n` of them have at most `n * most`. -/
theorem countP_turns_le {Event : Type} (turn : Event → Option ℕ) (n most : ℕ) (events : List Event)
    (bound : ∀ event ∈ events, ∀ i, turn event = some i → i < n)
    (each : ∀ i < n, events.countP (fun event => turn event = some i) ≤ most) :
    events.countP (fun event => (turn event).isSome) ≤ n * most := by
  rw [countP_turns turn n events bound]
  have total := Finset.sum_le_card_nsmul (Finset.range n) _ most
    (fun i inside => each i (Finset.mem_range.mp inside))
  simpa using total

end GitAnchor.Foundation.Agents
