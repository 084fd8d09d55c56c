import StackMachine.Proofs.Execution.Path

/-!
# Executions in lockstep

Two executions are compared by a relation `R` on their states and a relation `O` on their outcomes.
If related states take steps that are alike, which means that both go on to related states or both
end with related outcomes, then the two executions take the same number of steps and end alike
(`run_alike`), and if the steps report the same, so do the executions (`record_alike`).

Nothing is said about why the states are related.  The programs and the limits may differ.

* `Machine.Ends.exists_alike`, `Machine.runsForever_iff_of_alike`: both executions of two machines
  end, with related outcomes, or neither does.
-/

namespace StackMachine

/-! ### Steps that are alike -/

/-- Both transitions go on to related states, or both end with related outcomes. -/
inductive Transition.Alike (R : State → State → Prop) (O : Outcome → Outcome → Prop) :
    Transition → Transition → Prop where
  | next {s t : State} (related : R s t) : Alike R O (.next s) (.next t)
  | halt {outcome outcome' : Outcome} (related : O outcome outcome') :
      Alike R O (.halt outcome) (.halt outcome')

structure Step.Alike (R : State → State → Prop) (O : Outcome → Outcome → Prop) (x y : Step) :
    Prop where
  events_eq : x.events = y.events
  transition : x.transition.Alike R O y.transition

/-! ### Results that are alike -/

section Results

variable {α β : Type} {R : α → β → Prop} {x : Option α} {y : Option β}

theorem eq_none_iff_of_rel (h : Option.Rel R x y) : x = none ↔ y = none := by
  cases h <;> simp

theorem exists_of_rel (h : Option.Rel R x y) {a : α} (ha : x = some a) :
    ∃ b, R a b ∧ y = some b := by
  cases h with
  | none => cases ha
  | some hrelated =>
    cases ha
    exact ⟨_, hrelated, rfl⟩

theorem eq_of_rel {x y : Option α} (h : Option.Rel Eq x y) : x = y := by
  cases h with
  | none => rfl
  | some heq => rw [heq]

end Results

/-! ### Runs that are alike -/

section Runs

variable {program program' : Program} {limits limits' : Limits} {R : State → State → Prop}
  {O : Outcome → Outcome → Prop} {x y : Step}

/-- **Alike steps make alike runs.** -/
theorem run_alike
    (hstep : ∀ {s t}, R s t → (step program limits s).transition.Alike R O
      (step program' limits' t).transition)
    (h : x.transition.Alike R O y.transition) (fuel : Nat) :
    Option.Rel O (run program limits fuel x) (run program' limits' fuel y) := by
  obtain ⟨events, transition⟩ := x
  obtain ⟨events', transition'⟩ := y
  induction fuel generalizing events transition events' transition' with
  | zero =>
    cases h with
    | next => exact .none
    | halt hrelated => exact .some hrelated
  | succ fuel ih =>
    cases h with
    | next hrelated => exact ih _ _ _ _ (hstep hrelated)
    | halt hrelated => exact .some hrelated

/-- Runs that report the same step by step report the same. -/
theorem record_alike
    (hstep : ∀ {s t}, R s t → (step program limits s).Alike R O (step program' limits' t))
    (h : x.Alike R O y) (log : Array Event) (fuel : Nat) :
    (record program limits log fuel x).1 = (record program' limits' log fuel y).1 := by
  obtain ⟨events, transition⟩ := x
  obtain ⟨events', transition'⟩ := y
  induction fuel generalizing log events transition events' transition' with
  | zero =>
    obtain ⟨hevents, htransition⟩ := h
    obtain rfl : events = events' := hevents
    cases htransition <;> rfl
  | succ fuel ih =>
    obtain ⟨hevents, htransition⟩ := h
    obtain rfl : events = events' := hevents
    cases htransition with
    | next hrelated => exact ih _ _ _ _ _ (hstep hrelated)
    | halt => rfl

/-- Where alike outcomes are equal ones, nothing tells the two runs apart. -/
theorem record_eq_of_alike
    (hstep : ∀ {s t}, R s t → (step program limits s).Alike R Eq (step program' limits' t))
    (h : x.Alike R Eq y) (log : Array Event) (fuel : Nat) :
    record program limits log fuel x = record program' limits' log fuel y := by
  refine Prod.ext (record_alike hstep h log fuel) ?_
  rw [record_snd, record_snd]
  exact eq_of_rel (run_alike (fun hrelated => (hstep hrelated).transition) h.transition fuel)

/-- Where an invariant holds, two programs take the same steps; so they have the same run. -/
theorem run_eq_of_invariant {P : State → Prop}
    (hkeeps : ∀ {s t}, P s → Next program limits s t → P t)
    (hstep : ∀ {s}, P s →
      (step program' limits' s).transition = (step program limits s).transition)
    (hfirst : ∀ {s}, x.transition = .next s → P s) (h : y.transition = x.transition) (fuel : Nat) :
    run program' limits' fuel y = run program limits fuel x := by
  have hself : ∀ {z : Step}, (∀ {s}, z.transition = .next s → P s) →
      z.transition.Alike (fun s t => s = t ∧ P t) Eq z.transition := by
    intro z hz
    cases hnext : z.transition with
    | next s => exact .next ⟨rfl, hz hnext⟩
    | halt outcome => exact .halt rfl
  refine eq_of_rel (run_alike (R := fun s t => s = t ∧ P t) ?_ ?_ fuel)
  · rintro s t ⟨rfl, hs⟩
    rw [hstep hs]
    exact hself (hkeeps hs)
  · rw [h]
    exact hself hfirst

end Runs

/-! ### Executions of machines -/

namespace Machine

variable {m m' : Machine} {entry entry' : Nat} {arguments arguments' : List Value}
  {O : Outcome → Outcome → Prop} {outcome : Outcome}

theorem Ends.exists_alike
    (h : ∀ fuel, Option.Rel O (m.call fuel entry arguments) (m'.call fuel entry' arguments'))
    (hends : m.Ends entry arguments outcome) :
    ∃ outcome', O outcome outcome' ∧ m'.Ends entry' arguments' outcome' := by
  obtain ⟨fuel, hfuel⟩ := hends
  obtain ⟨outcome', hrelated, hfuel'⟩ := exists_of_rel (h fuel) hfuel
  exact ⟨outcome', hrelated, fuel, hfuel'⟩

theorem runsForever_iff_of_alike
    (h : ∀ fuel, Option.Rel O (m.call fuel entry arguments) (m'.call fuel entry' arguments')) :
    m.RunsForever entry arguments ↔ m'.RunsForever entry' arguments' :=
  forall_congr' fun fuel => eq_none_iff_of_rel (h fuel)

end Machine

end StackMachine
