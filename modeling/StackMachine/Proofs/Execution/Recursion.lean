import StackMachine.Proofs.Execution.Path

/-!
# Suspended frames and recursion agree

`step` keeps the callers of the running invocation as suspended frames.  `evaluate` has none: a
call evaluates the callee and then goes on with the caller.  This file proves that the two end
alike, or both not at all (`Machine.execution_agrees_with_recursion`).

One direction follows the evaluation (`path_of_evaluate`).  Whatever frames are suspended, as many
as the evaluation counts live invocations less one, an evaluation that ends has a path beside it
that leaves the same frame with the same stack, or fails in the same way.  A call puts two paths
end to end: the one of the callee, with the caller suspended, and the one of the caller after it.

The other direction (`evaluate_of_path`) is by induction on the length of a path that halts.  At a
call the induction applies twice, first to the path from the callee on, and then to what is left
of it once the callee has been left; the first direction says where that is.
-/

namespace StackMachine

variable {program : Program} {limits : Limits} {fuel fuel' live : Nat} {frame : Frame}
  {stack : Stack Value} {suspended : Stack Frame} {result : Except Failure (Stack Value)}

/-! ### From evaluations to paths -/

/-- Where an execution goes at the end of an invocation that others wait for. -/
def conclude (suspended : Stack Frame) : Except Failure (Stack Value) → Transition
  | .ok stack => resume suspended stack
  | .error failure => .halt (.failed failure)

theorem path_of_evaluate
    (h : evaluate program limits fuel (suspended.size + 1) frame stack = some result) :
    ∃ n t, Path program limits n ⟨stack, frame, suspended⟩ t ∧
      (step program limits t).transition = conclude suspended result := by
  induction fuel generalizing frame stack suspended result with
  | zero => cases h
  | succ fuel ih =>
    rw [evaluate_succ] at h
    have hstep := transition_step program limits ⟨stack, frame, suspended⟩
    cases hturn : turn program limits (suspended.size + 1) frame stack with
    | fail failure =>
      rw [hturn] at h hstep
      cases h
      exact ⟨0, _, .refl _, hstep⟩
    | leave =>
      rw [hturn] at h hstep
      cases h
      exact ⟨0, _, .refl _, hstep⟩
    | proceed frame' stack' =>
      rw [hturn] at h hstep
      obtain ⟨n, t, hpath, hend⟩ := ih h
      exact ⟨n + 1, t, .next hstep hpath, hend⟩
    | call inner =>
      rw [hturn] at h hstep
      simp only [Turn.result] at h
      cases hinner : evaluate program limits fuel (suspended.size + 1 + 1) inner stack with
      | none =>
        rw [hinner] at h
        cases h
      | some returned =>
        rw [hinner] at h
        have hcallee : evaluate program limits fuel ((suspended.push frame.advance).size + 1) inner
            stack = some returned := hinner
        obtain ⟨n, t, hpath, hend⟩ := ih hcallee
        cases returned with
        | error failure =>
          cases h
          exact ⟨n + 1, t, .next hstep hpath, hend⟩
        | ok stack' =>
          have hback : Next program limits t ⟨stack', frame.advance, suspended⟩ := hend
          obtain ⟨n', t', hpath', hend'⟩ := ih h
          exact ⟨n + (n' + 1) + 1, t', .next hstep (hpath.append (.next hback hpath')), hend'⟩

/-! ### From paths to evaluations -/

theorem evaluate_mono (h : evaluate program limits fuel live frame stack = some result)
    (hle : fuel ≤ fuel') : evaluate program limits fuel' live frame stack = some result := by
  induction fuel generalizing fuel' live frame stack result with
  | zero => cases h
  | succ fuel ih =>
    obtain ⟨more, rfl⟩ : ∃ more, fuel' = more + 1 := ⟨fuel' - 1, by omega⟩
    have hmore : fuel ≤ more := by omega
    rw [evaluate_succ] at h ⊢
    cases hturn : turn program limits live frame stack with
    | fail failure =>
      rw [hturn] at h
      exact h
    | leave =>
      rw [hturn] at h
      exact h
    | proceed frame' stack' =>
      rw [hturn] at h
      exact ih h hmore
    | call inner =>
      rw [hturn] at h
      simp only [Turn.result] at h ⊢
      cases hinner : evaluate program limits fuel (live + 1) inner stack with
      | none =>
        rw [hinner] at h
        cases h
      | some returned =>
        rw [hinner] at h
        rw [ih hinner hmore]
        cases returned with
        | error failure => exact h
        | ok stack' => exact ih h hmore

/-- A call has a result if the callee has one and, where it returns, the caller does after it. -/
theorem exists_evaluate_of_call {inner : Frame}
    (hturn : turn program limits live frame stack = .call inner)
    (hinner : evaluate program limits fuel (live + 1) inner stack = some result)
    (hcaller : ∀ stack', result = .ok stack' →
      ∃ fuel result, evaluate program limits fuel live frame.advance stack' = some result) :
    ∃ fuel result, evaluate program limits fuel live frame stack = some result := by
  cases result with
  | error failure =>
    refine ⟨fuel + 1, .error failure, ?_⟩
    rw [evaluate_succ, hturn]
    simp only [Turn.result, hinner]
  | ok stack' =>
    obtain ⟨fuel', result, hcaller⟩ := hcaller stack' rfl
    have hcallee := evaluate_mono hinner (Nat.le_max_left fuel fuel')
    refine ⟨max fuel fuel' + 1, result, ?_⟩
    rw [evaluate_succ, hturn]
    simp only [Turn.result, hcallee]
    exact evaluate_mono hcaller (Nat.le_max_right _ _)

theorem evaluate_of_path {n : Nat} {t : State} {outcome : Outcome}
    (h : Path program limits n ⟨stack, frame, suspended⟩ t)
    (halt : (step program limits t).transition = .halt outcome) :
    ∃ fuel result, evaluate program limits fuel (suspended.size + 1) frame stack = some result := by
  induction n using Nat.strongRecOn generalizing frame stack suspended with
  | ind n ih =>
    have hstep := transition_step program limits ⟨stack, frame, suspended⟩
    cases hturn : turn program limits (suspended.size + 1) frame stack with
    | fail failure => exact ⟨1, .error failure, by rw [evaluate_succ, hturn]; rfl⟩
    | leave => exact ⟨1, .ok stack, by rw [evaluate_succ, hturn]; rfl⟩
    | proceed frame' stack' =>
      rw [hturn] at hstep
      obtain ⟨k, rfl, hrest⟩ := (Path.single hstep).rest_of_halt h halt
      obtain ⟨fuel, result, hfuel⟩ := ih k (by omega) hrest
      exact ⟨fuel + 1, result, by rw [evaluate_succ, hturn]; exact hfuel⟩
    | call inner =>
      rw [hturn] at hstep
      obtain ⟨k, rfl, hrest⟩ := (Path.single hstep).rest_of_halt h halt
      obtain ⟨fuel, returned, hinner⟩ := ih k (by omega) hrest
      refine exists_evaluate_of_call hturn hinner ?_
      rintro stack' rfl
      obtain ⟨j, u, hpath, hend⟩ := path_of_evaluate hinner
      have hback : Next program limits u ⟨stack', frame.advance, suspended⟩ := hend
      obtain ⟨i, rfl, hlast⟩ := (hpath.append (.single hback)).rest_of_halt hrest halt
      exact ih i (by omega) hlast

/-! ### Whole executions -/

def Outcome.ofResult : Except Failure (Stack Value) → Outcome
  | .ok stack => .returned stack.toList
  | .error failure => .failed failure

theorem conclude_empty (result : Except Failure (Stack Value)) :
    conclude .empty result = .halt (.ofResult result) := by
  cases result <;> rfl

/-- An execution by recursion starts as the other does. -/
theorem executeByRecursion_eq (program : Program) (limits : Limits) (fuel entry : Nat)
    (arguments : List Value) :
    executeByRecursion program limits fuel entry arguments =
      match (start program limits entry arguments).transition with
      | .halt outcome => some outcome
      | .next s => (evaluate program limits fuel 1 s.frame s.stack).map .ofResult := by
  simp only [executeByRecursion, start]
  cases program[entry]? with
  | none => rfl
  | some routine =>
    simp only
    by_cases hstack : limits.stackDepth < arguments.length
    · simp only [hstack, if_true]
      rfl
    rw [if_neg hstack, if_neg hstack]
    by_cases hdepth : limits.callDepth = 0
    · simp only [hdepth, if_true, Nat.zero_lt_one]
      rfl
    rw [if_neg hdepth, if_neg (by omega)]
    cases routine.activate entry 0 (.ofList arguments) with
    | error failure => rfl
    | ok frame => rfl

theorem endsFrom_of_evaluate {s : State} (h : s.suspended = .empty)
    (hresult : evaluate program limits fuel 1 s.frame s.stack = some result) :
    EndsFrom program limits s (.ofResult result) := by
  obtain ⟨stack, frame, suspended⟩ := s
  obtain rfl : suspended = .empty := h
  obtain ⟨n, t, hpath, hend⟩ := path_of_evaluate (show evaluate program limits fuel
    ((Stack.empty : Stack Frame).size + 1) frame stack = some result from hresult)
  rw [conclude_empty] at hend
  exact ⟨n, t, hpath, hend⟩

theorem endsFrom_iff_evaluate {s : State} {outcome : Outcome} (h : s.suspended = .empty) :
    EndsFrom program limits s outcome ↔
      ∃ fuel, (evaluate program limits fuel 1 s.frame s.stack).map .ofResult = some outcome := by
  constructor
  · intro hends
    obtain ⟨n, t, hpath, halt⟩ := hends
    obtain ⟨fuel, result, hresult⟩ := evaluate_of_path hpath halt
    rw [h] at hresult
    refine ⟨fuel, Option.map_eq_some_iff.mpr ⟨result, hresult, ?_⟩⟩
    exact (endsFrom_of_evaluate h hresult).unique ⟨n, t, hpath, halt⟩
  · rintro ⟨fuel, hfuel⟩
    obtain ⟨result, hresult, rfl⟩ := Option.map_eq_some_iff.mp hfuel
    exact endsFrom_of_evaluate h hresult

theorem Machine.ends_iff_recursion (m : Machine) (entry : Nat) (arguments : List Value)
    (outcome : Outcome) :
    m.Ends entry arguments outcome ↔
      ∃ fuel, executeByRecursion m.program m.limits fuel entry arguments = some outcome := by
  simp only [executeByRecursion_eq]
  cases hstart : (start m.program m.limits entry arguments).transition with
  | halt o =>
    constructor
    · rintro ⟨fuel, hfuel⟩
      exact ⟨fuel, (run_halt fuel hstart).symm.trans hfuel⟩
    · rintro ⟨fuel, hfuel⟩
      exact ⟨fuel, (run_halt fuel hstart).trans hfuel⟩
  | next s =>
    obtain ⟨routine, -, -, -, -, -, -, rfl⟩ := start_eq_next_iff.mp hstart
    exact (ends_iff_of_start hstart).trans (endsFrom_iff_evaluate rfl)

/-- **Suspended frames and recursion agree.**  An execution with suspended frames and one by
recursion end with the same outcome, and one of them runs forever exactly if the other does. -/
theorem Machine.execution_agrees_with_recursion (m : Machine) (entry : Nat)
    (arguments : List Value) :
    (∀ outcome, m.Ends entry arguments outcome ↔
      ∃ fuel, executeByRecursion m.program m.limits fuel entry arguments = some outcome) ∧
    (m.RunsForever entry arguments ↔
      ∀ fuel, executeByRecursion m.program m.limits fuel entry arguments = none) := by
  refine ⟨m.ends_iff_recursion entry arguments, ?_⟩
  rw [runsForever_iff]
  constructor
  · intro h fuel
    cases hfuel : executeByRecursion m.program m.limits fuel entry arguments with
    | none => rfl
    | some outcome =>
      exact absurd ((m.ends_iff_recursion entry arguments outcome).mpr ⟨fuel, hfuel⟩) (h outcome)
  · intro h outcome hends
    obtain ⟨fuel, hfuel⟩ := (m.ends_iff_recursion entry arguments outcome).mp hends
    rw [h fuel] at hfuel
    cases hfuel

end StackMachine
