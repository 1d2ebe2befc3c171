import Mathlib.Data.List.Basic

/-! Runs of a labelled transition system. A run keeps, newest first, the state and label
of every step it took, so a condition on the steps of a run is a condition on a list. -/

namespace GitAnchor.Foundation

inductive Run {State Label : Type} (init : State → Prop) (step : State → Label → State → Prop) :
    List (State × Label) → State → Prop where
  | start {s : State} (initial : init s) : Run init step [] s
  | next {trace : List (State × Label)} {s t : State} {label : Label}
      (run : Run init step trace s) (taken : step s label t) : Run init step ((s, label) :: trace) t

namespace Run
variable {State Label : Type} {init : State → Prop} {step : State → Label → State → Prop}

/-- What the initial states have and every step under the guard keeps holds after any
run all of whose steps meet the guard. -/
theorem guarded {guard : State → Label → Prop} {inv : State → Prop}
    (start : ∀ s, init s → inv s)
    (keep : ∀ s label t, inv s → guard s label → step s label t → inv t)
    {trace : List (State × Label)} {s : State} (run : Run init step trace s)
    (met : ∀ taken ∈ trace, guard taken.1 taken.2) : inv s := by
  induction run with
  | start initial => exact start _ initial
  | next run taken ih =>
    have before := ih (fun earlier member => met earlier (List.mem_cons_of_mem _ member))
    exact keep _ _ _ before (met _ List.mem_cons_self) taken

theorem invariant {inv : State → Prop} (start : ∀ s, init s → inv s)
    (keep : ∀ s label t, inv s → step s label t → inv t)
    {trace : List (State × Label)} {s : State} (run : Run init step trace s) : inv s :=
  @guarded _ _ _ _ (fun _ _ => True) inv start (fun s label t before _ => keep s label t before) _ _
    run (fun _ _ => trivial)

/-- Where every step under the guard that counts lowers the rank and no other raises it, a run
takes no more steps that count than the rank it began with. -/
theorem ranked (guard : State → Label → Prop) (inv : State → Prop) (rank : State → Nat)
    (counts : State × Label → Bool) (bound : Nat)
    (start : ∀ s, init s → inv s ∧ rank s ≤ bound)
    (keep : ∀ s label t, inv s → guard s label → step s label t →
      inv t ∧ rank t + (if counts (s, label) then 1 else 0) ≤ rank s)
    {trace : List (State × Label)} {s : State} (run : Run init step trace s)
    (met : ∀ taken ∈ trace, guard taken.1 taken.2) : inv s ∧ rank s + trace.countP counts ≤ bound := by
  induction run with
  | start initial =>
    rw [List.countP_nil]
    exact start _ initial
  | @next trace s t label run taken ih =>
    obtain ⟨before, spent⟩ := ih (fun earlier member => met earlier (List.mem_cons_of_mem _ member))
    obtain ⟨after, lowered⟩ := keep _ _ _ before (met _ List.mem_cons_self) taken
    refine ⟨after, ?_⟩
    calc
      _ = rank t + (if counts (s, label) then 1 else 0) + trace.countP counts := by
        rw [List.countP_cons]
        omega
      _ ≤ rank s + trace.countP counts := Nat.add_le_add_right lowered _
      _ ≤ bound := spent

/-- A relation that is reflexive, transitive and holds across each step holds across a run. -/
theorem relates {rel : State → State → Prop} (refl : ∀ s, rel s s)
    (trans : ∀ s t u, rel s t → rel t u → rel s u)
    (across : ∀ s label t, step s label t → rel s t) {origin : State}
    {trace : List (State × Label)} {s : State} (run : Run (· = origin) step trace s) :
    rel origin s :=
  run.invariant (fun _ same => same ▸ refl _)
    (fun s label t before taken => trans _ _ _ before (across s label t taken))

/-- A step that a run took, and the run from there on. -/
theorem split {later earlier : List (State × Label)} {s t : State} {label : Label}
    (run : Run init step (later ++ (s, label) :: earlier) t) : ∃ u, step s label u ∧ Run (· = u) step later t := by
  induction later generalizing t with
  | nil =>
    cases run with
    | next run taken => exact ⟨t, taken, .start rfl⟩
  | cons first later ih =>
    cases run with
    | next run taken =>
      obtain ⟨u, before, after⟩ := ih run
      exact ⟨u, before, after.next taken⟩

/-- Where the step is a partial function, labels alone make a run. -/
def trail (fire : State → Label → Option State) :
    List (State × Label) → State → List Label → Option (List (State × Label) × State)
  | trace, s, [] => some (trace, s)
  | trace, s, label :: later =>
      match fire s label with
      | some t => trail fire ((s, label) :: trace) t later
      | none => none

theorem of_trail (fire : State → Label → Option State) (labels : List Label)
    {trace whole : List (State × Label)} {s last : State}
    (run : Run init (fun s label t => fire s label = some t) trace s)
    (done : trail fire trace s labels = some (whole, last)) :
    Run init (fun s label t => fire s label = some t) whole last := by
  induction labels generalizing trace s with
  | nil =>
    obtain ⟨rfl, rfl⟩ := Prod.mk.inj (Option.some.inj done)
    exact run
  | cons label later ih =>
    unfold trail at done
    split at done
    · next t taken => exact ih (run.next taken) done
    · cases done

/-- The run that labels make from the first state, where each of them can be taken. -/
theorem of_trail_getD (fire : State → Label → Option State) (s : State) (labels : List Label) (initial : init s)
    (done : (trail fire [] s labels).isSome = true) :
    Run init (fun s label t => fire s label = some t) ((trail fire [] s labels).getD ([], s)).1
      ((trail fire [] s labels).getD ([], s)).2 := by
  obtain ⟨⟨trace, last⟩, same⟩ := Option.isSome_iff_exists.mp done
  rw [same]
  exact of_trail fire labels (.start initial) same

end Run

end GitAnchor.Foundation
