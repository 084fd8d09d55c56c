import StackMachine.Machine
import StackMachine.Proofs.Execution.Turn

/-!
# Paths

`run` counts its steps down and gives up when they are spent.  Here an execution is a path instead:
`Path program limits n s t` says that `n` steps lead from `s` to `t`.  What `run` computes is then
a statement about paths.

* `Next.cases`, `halt_cases`: what a step can do.
* `run_eq_none_iff`: a run gives up exactly if there is a path as long as its fuel.
* `run_eq_some_iff`: it ends exactly if a shorter path leads to a state that halts.

For whole executions of a machine, `Machine.Ends` and `Machine.RunsForever` say how they end, if
they do, and `Machine.Reaches` which states they pass through.
-/

namespace StackMachine

variable {program : Program} {limits : Limits} {s t u : State} {m n : Nat}

def Next (program : Program) (limits : Limits) (s t : State) : Prop :=
  (step program limits s).transition = .next t

inductive Path (program : Program) (limits : Limits) : Nat → State → State → Prop where
  | refl (s : State) : Path program limits 0 s s
  | next {n : Nat} {s t u : State} (first : Next program limits s t)
      (rest : Path program limits n t u) : Path program limits (n + 1) s u

def EndsFrom (program : Program) (limits : Limits) (s : State) (outcome : Outcome) : Prop :=
  ∃ n t, Path program limits n s t ∧ (step program limits t).transition = .halt outcome

/-! ### Steps -/

/-- The running frame goes on, suspends itself and calls, or leaves and lets its caller go on. -/
theorem Next.cases (h : Next program limits s t) :
    (∃ frame stack, turn program limits (s.suspended.size + 1) s.frame s.stack =
        .proceed frame stack ∧ t = ⟨stack, frame, s.suspended⟩) ∨
    (∃ inner, turn program limits (s.suspended.size + 1) s.frame s.stack = .call inner ∧
      t = ⟨s.stack, inner, s.suspended.push s.frame.advance⟩) ∨
    ∃ caller rest, turn program limits (s.suspended.size + 1) s.frame s.stack = .leave ∧
      s.suspended = rest.push caller ∧ t = ⟨s.stack, caller, rest⟩ := by
  rw [Next, transition_step] at h
  cases hturn : turn program limits (s.suspended.size + 1) s.frame s.stack with
  | fail failure =>
    rw [hturn] at h
    cases h
  | proceed frame stack =>
    rw [hturn] at h
    cases h
    exact .inl ⟨frame, stack, rfl, rfl⟩
  | call inner =>
    rw [hturn] at h
    cases h
    exact .inr (.inl ⟨inner, rfl, rfl⟩)
  | leave =>
    rw [hturn] at h
    rcases s.suspended.eq_empty_or_push with hempty | ⟨caller, rest, hpush⟩
    · simp only [Turn.apply, resume, hempty, Stack.pop?_empty] at h
      cases h
    · simp only [Turn.apply, resume, hpush, Stack.pop?_push] at h
      cases h
      exact .inr (.inr ⟨caller, rest, rfl, hpush, rfl⟩)

/-- An operation that proceeds is a step. -/
theorem Next.of_proceeds {frame : Frame} {stack : Stack Value} {routine : Routine} {op : Op}
    (hr : program[s.frame.function]? = some routine)
    (hop : routine.ops[s.frame.position]? = some op)
    (hp : Proceeds limits s.frame.advance op s.stack frame stack) :
    Next program limits s ⟨stack, frame, s.suspended⟩ := by
  rw [Next, transition_step, turn_eq_proceed_iff.mpr ⟨routine, op, hr, hop, hp⟩]
  rfl

/-- An execution halts because the running frame fails, or because it leaves and nobody waits. -/
theorem halt_cases {outcome : Outcome} (h : (step program limits s).transition = .halt outcome) :
    (∃ failure, turn program limits (s.suspended.size + 1) s.frame s.stack = .fail failure ∧
      outcome = .failed failure) ∨
    turn program limits (s.suspended.size + 1) s.frame s.stack = .leave ∧ s.suspended = .empty ∧
      outcome = .returned s.stack.toList := by
  rw [transition_step] at h
  cases hturn : turn program limits (s.suspended.size + 1) s.frame s.stack with
  | fail failure =>
    rw [hturn] at h
    cases h
    exact .inl ⟨failure, rfl, rfl⟩
  | proceed frame stack =>
    rw [hturn] at h
    cases h
  | call inner =>
    rw [hturn] at h
    cases h
  | leave =>
    rw [hturn] at h
    rcases s.suspended.eq_empty_or_push with hempty | ⟨caller, rest, hpush⟩
    · simp only [Turn.apply, resume, hempty, Stack.pop?_empty] at h
      cases h
      exact .inr ⟨rfl, hempty, rfl⟩
    · simp only [Turn.apply, resume, hpush, Stack.pop?_push] at h
      cases h

/-- Whoever leaves while nobody waits ends the execution. -/
theorem halt_of_leave
    (h : turn program limits (s.suspended.size + 1) s.frame s.stack = .leave)
    (halone : s.suspended = .empty) :
    (step program limits s).transition = .halt (.returned s.stack.toList) := by
  rw [transition_step, h]
  simp only [Turn.apply, resume, halone, Stack.pop?_empty]

/-! ### Paths -/

namespace Path

theorem single (h : Next program limits s t) : Path program limits 1 s t := .next h (.refl t)

theorem append (h : Path program limits m s t) (g : Path program limits n t u) :
    Path program limits (m + n) s u := by
  induction h with
  | refl =>
    rw [Nat.zero_add]
    exact g
  | next first _ ih =>
    rw [Nat.succ_add]
    exact .next first (ih g)

/-- Steps leave no choice, so the shorter of two paths is the beginning of the longer. -/
theorem exists_rest (h : Path program limits m s t) (g : Path program limits n s u) (hmn : m ≤ n) :
    ∃ k, n = m + k ∧ Path program limits k t u := by
  induction h generalizing n with
  | refl => exact ⟨n, (Nat.zero_add n).symm, g⟩
  | next first _ ih =>
    cases g with
    | refl => omega
    | next first' rest =>
      obtain rfl := Transition.next.inj (first.symm.trans first')
      obtain ⟨k, rfl, hk⟩ := ih rest (by omega)
      exact ⟨k, by omega, hk⟩

/-- What every step keeps, a path keeps. -/
theorem preserves {P : State → Prop} (hstep : ∀ {s t}, P s → Next program limits s t → P t)
    (h : Path program limits n s t) (hs : P s) : P t := by
  induction h with
  | refl => exact hs
  | next first _ ih => exact ih (hstep hs first)

/-- An execution ends as it does from any state on its way. -/
theorem endsFrom (h : Path program limits n s t) {outcome : Outcome}
    (ht : EndsFrom program limits t outcome) : EndsFrom program limits s outcome := by
  obtain ⟨k, u, hrest, halt⟩ := ht
  exact ⟨n + k, u, h.append hrest, halt⟩

/-- A path that goes on cannot have halted. -/
theorem le_of_halt (h : Path program limits m s t) {outcome : Outcome}
    (halt : (step program limits t).transition = .halt outcome)
    (g : Path program limits n s u) : n ≤ m := by
  refine Nat.le_of_not_lt fun hlt => ?_
  obtain ⟨k, rfl, hk⟩ := h.exists_rest g (Nat.le_of_lt hlt)
  cases hk with
  | refl => omega
  | next first _ => exact Transition.noConfusion (halt.symm.trans first)

/-- A path that ends leads through every state that is reached on the way. -/
theorem rest_of_halt (g : Path program limits n s u) (h : Path program limits m s t)
    {outcome : Outcome} (halt : (step program limits t).transition = .halt outcome) :
    ∃ k, m = n + k ∧ Path program limits k u t :=
  g.exists_rest h (h.le_of_halt halt g)

end Path

/-- An execution ends in one way only. -/
theorem EndsFrom.unique {outcome outcome' : Outcome} (h : EndsFrom program limits s outcome)
    (h' : EndsFrom program limits s outcome') : outcome = outcome' := by
  obtain ⟨n, t, hpath, halt⟩ := h
  obtain ⟨n', t', hpath', halt'⟩ := h'
  have hle := hpath'.le_of_halt halt' hpath
  obtain ⟨k, rfl, hrest⟩ := hpath'.rest_of_halt hpath halt
  obtain rfl : k = 0 := by omega
  cases hrest
  exact Transition.halt.inj (halt.symm.trans halt')

/-! ### Runs -/

theorem run_halt (fuel : Nat) {x : Step} {outcome : Outcome} (h : x.transition = .halt outcome) :
    run program limits fuel x = some outcome := by
  obtain ⟨events, transition⟩ := x
  obtain rfl : transition = .halt outcome := h
  cases fuel <;> rfl

theorem run_next (fuel : Nat) {x : Step} (h : x.transition = .next s) :
    run program limits (fuel + 1) x = run program limits fuel (step program limits s) := by
  obtain ⟨events, transition⟩ := x
  obtain rfl : transition = .next s := h
  rfl

/-- A run gives up at the end of a path as long as its fuel, or ends where a shorter path does. -/
theorem run_cases (fuel : Nat) {x : Step} (h : x.transition = .next s) :
    (run program limits fuel x = none ∧ ∃ t, Path program limits fuel s t) ∨
    ∃ n < fuel, ∃ t outcome, run program limits fuel x = some outcome ∧ Path program limits n s t ∧
      (step program limits t).transition = .halt outcome := by
  induction fuel generalizing x s with
  | zero =>
    obtain ⟨events, transition⟩ := x
    obtain rfl : transition = .next s := h
    exact .inl ⟨rfl, s, .refl s⟩
  | succ fuel ih =>
    rw [run_next fuel h]
    cases hs : (step program limits s).transition with
    | halt outcome => exact .inr ⟨0, by omega, s, outcome, run_halt fuel hs, .refl s, hs⟩
    | next s' =>
      rcases ih hs with ⟨hrun, t, ht⟩ | ⟨n, hn, t, outcome, hrun, ht, halt⟩
      · exact .inl ⟨hrun, t, .next hs ht⟩
      · exact .inr ⟨n + 1, by omega, t, outcome, hrun, .next hs ht, halt⟩

/-- A run gives up exactly if there is a path as long as its fuel. -/
theorem run_eq_none_iff {fuel : Nat} {x : Step} (h : x.transition = .next s) :
    run program limits fuel x = none ↔ ∃ t, Path program limits fuel s t := by
  rcases run_cases fuel h with ⟨hrun, hpath⟩ | ⟨n, hn, t, outcome, hrun, ht, halt⟩
  · exact ⟨fun _ => hpath, fun _ => hrun⟩
  · rw [hrun]
    refine ⟨?_, ?_⟩
    · intro hnone
      cases hnone
    · rintro ⟨u, hu⟩
      have hle := ht.le_of_halt halt hu
      omega

/-- A run ends exactly if a path shorter than its fuel leads to a state that halts. -/
theorem run_eq_some_iff {fuel : Nat} {x : Step} {outcome : Outcome} (h : x.transition = .next s) :
    run program limits fuel x = some outcome ↔
      ∃ n < fuel, ∃ t, Path program limits n s t ∧
        (step program limits t).transition = .halt outcome := by
  rcases run_cases fuel h with ⟨hrun, u, hu⟩ | ⟨n, hn, t, outcome', hrun, ht, halt⟩
  · rw [hrun]
    refine ⟨?_, ?_⟩
    · intro hsome
      cases hsome
    · rintro ⟨n, hn, t, ht, halt⟩
      have hle := ht.le_of_halt halt hu
      omega
  · rw [hrun, Option.some.injEq]
    refine ⟨?_, ?_⟩
    · intro heq
      subst heq
      exact ⟨n, hn, t, ht, halt⟩
    · rintro ⟨n', -, t', ht', halt'⟩
      exact EndsFrom.unique ⟨n, t, ht, halt⟩ ⟨n', t', ht', halt'⟩

/-- More fuel does not change an outcome. -/
theorem run_mono {fuel fuel' : Nat} {x : Step} {outcome : Outcome}
    (h : run program limits fuel x = some outcome) (hle : fuel ≤ fuel') :
    run program limits fuel' x = some outcome := by
  cases hx : x.transition with
  | halt outcome' =>
    obtain rfl := Option.some.inj ((run_halt fuel hx).symm.trans h)
    exact run_halt fuel' hx
  | next s =>
    obtain ⟨n, hn, t, hpath, halt⟩ := (run_eq_some_iff hx).mp h
    exact (run_eq_some_iff hx).mpr ⟨n, Nat.lt_of_lt_of_le hn hle, t, hpath, halt⟩

/-! ### The beginning -/

section Start

variable {entry : Nat} {arguments : List Value}

/-- An execution is refused at once, unless its function exists and the limits leave room. -/
theorem start_guard_cases (program : Program) (limits : Limits) (entry : Nat)
    (arguments : List Value) :
    (∃ fault, start program limits entry arguments = .fail (.fault fault)) ∨
      ∃ routine, program[entry]? = some routine ∧ arguments.length ≤ limits.stackDepth ∧
        0 < limits.callDepth := by
  simp only [start]
  split
  · exact .inl ⟨_, rfl⟩
  rename_i routine hr
  split
  · exact .inl ⟨_, rfl⟩
  rename_i hstack
  split
  · exact .inl ⟨_, rfl⟩
  rename_i hdepth
  exact .inr ⟨routine, hr, Nat.le_of_not_lt hstack, Nat.pos_of_ne_zero hdepth⟩

/-- Then the contract of the function and its slots decide. -/
theorem start_of_guards {routine : Routine} (hr : program[entry]? = some routine)
    (hstack : arguments.length ≤ limits.stackDepth) (hdepth : 0 < limits.callDepth) :
    start program limits entry arguments =
      ⟨routine.entryEvents entry 0 1 (.ofList arguments),
        match routine.activate entry 0 (.ofList arguments) with
        | .error failure => .halt (.failed failure)
        | .ok frame => .next ⟨.ofList arguments, { frame with base := 0 }, .empty⟩⟩ := by
  rw [start, hr]
  exact (if_neg (Nat.not_lt.mpr hstack)).trans (if_neg (Nat.ne_of_gt hdepth))

/-- An execution gets under way if its function exists, the limits leave room, the arguments on top
are those the function asks for, and its slots fit into memory.  Then all arguments belong to it. -/
theorem start_eq_next_iff :
    (start program limits entry arguments).transition = .next s ↔
      ∃ routine, program[entry]? = some routine ∧ arguments.length ≤ limits.stackDepth ∧
        0 < limits.callDepth ∧ routine.inputs.length ≤ arguments.length ∧
        ((Stack.ofList arguments).top routine.inputs.length).map Value.type = routine.inputs ∧
        routine.slots < Frame.slotLimit ∧
        s = ⟨.ofList arguments, .fresh entry 0 routine.slots, .empty⟩ := by
  constructor
  · intro h
    rcases start_guard_cases program limits entry arguments with
      ⟨fault, hs⟩ | ⟨routine, hr, hstack, hdepth⟩
    · rw [hs] at h
      cases h
    rw [start_of_guards hr hstack hdepth] at h
    split at h
    · cases h
    rename_i frame ha
    obtain ⟨hslots, hcount, htypes, rfl⟩ := Routine.activate_eq_ok_iff.mp ha
    cases h
    rw [Nat.zero_add, Stack.size_ofList] at hcount
    exact ⟨routine, hr, hstack, hdepth, hcount, htypes, hslots, rfl⟩
  · rintro ⟨routine, hr, hstack, hdepth, hcount, htypes, hslots, rfl⟩
    have hroom : 0 + routine.inputs.length ≤ (Stack.ofList arguments).size := by
      rw [Nat.zero_add, Stack.size_ofList]
      exact hcount
    have ha : routine.activate entry 0 (.ofList arguments) = .ok (.fresh entry _ routine.slots) :=
      Routine.activate_eq_ok_iff.mpr ⟨hslots, hroom, htypes, rfl⟩
    simp only [start_of_guards hr hstack hdepth, ha]
    rfl

/-- An execution that does not get under way fails. -/
theorem exists_failure_of_start_halt {outcome : Outcome}
    (h : (start program limits entry arguments).transition = .halt outcome) :
    ∃ failure, outcome = .failed failure := by
  rcases start_guard_cases program limits entry arguments with
    ⟨fault, hs⟩ | ⟨routine, hr, hstack, hdepth⟩
  · rw [hs] at h
    cases h
    exact ⟨_, rfl⟩
  · rw [start_of_guards hr hstack hdepth] at h
    split at h
    · cases h
      exact ⟨_, rfl⟩
    · cases h

/-- It gets stuck if nothing is missing but memory for the slots of its function. -/
theorem start_eq_stuck_iff :
    (start program limits entry arguments).transition = .halt (.failed .stuck) ↔
      ∃ routine, program[entry]? = some routine ∧ arguments.length ≤ limits.stackDepth ∧
        0 < limits.callDepth ∧ routine.activate entry 0 (.ofList arguments) = .error .stuck := by
  constructor
  · intro h
    rcases start_guard_cases program limits entry arguments with
      ⟨fault, hs⟩ | ⟨routine, hr, hstack, hdepth⟩
    · rw [hs] at h
      cases h
    rw [start_of_guards hr hstack hdepth] at h
    split at h
    · rename_i failure ha
      cases h
      exact ⟨routine, hr, hstack, hdepth, ha⟩
    · cases h
  · rintro ⟨routine, hr, hstack, hdepth, ha⟩
    simp only [start_of_guards hr hstack hdepth, ha]

end Start

/-! ### Executions of a machine -/

namespace Machine

variable {m : Machine} {entry : Nat} {arguments : List Value} {outcome : Outcome}

def Ends (m : Machine) (entry : Nat) (arguments : List Value) (outcome : Outcome) : Prop :=
  ∃ fuel, m.call fuel entry arguments = some outcome

def RunsForever (m : Machine) (entry : Nat) (arguments : List Value) : Prop :=
  ∀ fuel, m.call fuel entry arguments = none

/-- The execution of a function on arguments passes through `s`, after any number of steps. -/
def Reaches (m : Machine) (entry : Nat) (arguments : List Value) (s : State) : Prop :=
  ∃ first n, (start m.program m.limits entry arguments).transition = .next first ∧
    Path m.program m.limits n first s

theorem ends_iff_of_start
    (h : (start m.program m.limits entry arguments).transition = .next s) :
    m.Ends entry arguments outcome ↔ EndsFrom m.program m.limits s outcome := by
  constructor
  · rintro ⟨fuel, hfuel⟩
    obtain ⟨n, -, t, ht, halt⟩ := (run_eq_some_iff h).mp hfuel
    exact ⟨n, t, ht, halt⟩
  · rintro ⟨n, t, ht, halt⟩
    exact ⟨n + 1, (run_eq_some_iff h).mpr ⟨n, by omega, t, ht, halt⟩⟩

theorem ends_of_start_halt
    (h : (start m.program m.limits entry arguments).transition = .halt outcome) :
    m.Ends entry arguments outcome :=
  ⟨0, run_halt 0 h⟩

/-- An execution ends where it starts, or in a state that it passes through. -/
theorem Ends.cases (h : m.Ends entry arguments outcome) :
    (start m.program m.limits entry arguments).transition = .halt outcome ∨
      ∃ s, m.Reaches entry arguments s ∧
        (step m.program m.limits s).transition = .halt outcome := by
  cases hstart : (start m.program m.limits entry arguments).transition with
  | halt outcome' =>
    obtain ⟨fuel, hfuel⟩ := h
    obtain rfl := Option.some.inj ((run_halt fuel hstart).symm.trans hfuel)
    exact .inl rfl
  | next first =>
    obtain ⟨n, s, hpath, halt⟩ := (ends_iff_of_start hstart).mp h
    exact .inr ⟨s, ⟨first, n, hstart, hpath⟩, halt⟩

theorem Ends.unique {outcome' : Outcome} (h : m.Ends entry arguments outcome)
    (h' : m.Ends entry arguments outcome') : outcome = outcome' := by
  cases hstart : (start m.program m.limits entry arguments).transition with
  | halt outcome'' =>
    obtain ⟨fuel, hfuel⟩ := h
    obtain ⟨fuel', hfuel'⟩ := h'
    obtain rfl := Option.some.inj ((run_halt fuel hstart).symm.trans hfuel)
    exact Option.some.inj ((run_halt fuel' hstart).symm.trans hfuel')
  | next first =>
    exact ((ends_iff_of_start hstart).mp h).unique ((ends_iff_of_start hstart).mp h')

theorem runsForever_iff :
    m.RunsForever entry arguments ↔ ∀ outcome, ¬ m.Ends entry arguments outcome := by
  constructor
  · rintro h outcome ⟨fuel, hfuel⟩
    rw [h fuel] at hfuel
    cases hfuel
  · intro h fuel
    cases hfuel : m.call fuel entry arguments with
    | none => rfl
    | some outcome => exact absurd ⟨fuel, hfuel⟩ (h outcome)

theorem RunsForever.exists_path (h : m.RunsForever entry arguments)
    (hstart : (start m.program m.limits entry arguments).transition = .next s) (n : Nat) :
    ∃ t, Path m.program m.limits n s t :=
  (run_eq_none_iff hstart).mp (h n)

theorem Reaches.next (h : m.Reaches entry arguments s) (hnext : Next m.program m.limits s t) :
    m.Reaches entry arguments t := by
  obtain ⟨first, n, hstart, hpath⟩ := h
  exact ⟨first, n + 1, hstart, hpath.append (.single hnext)⟩

/-- How an execution ends can be seen from any state that it passes through. -/
theorem Reaches.ends (h : m.Reaches entry arguments s)
    (hs : EndsFrom m.program m.limits s outcome) : m.Ends entry arguments outcome := by
  obtain ⟨first, k, hstart, hpath⟩ := h
  exact (ends_iff_of_start hstart).mpr (hpath.endsFrom hs)

/-- So can that it does not end. -/
theorem Reaches.runsForever (h : m.Reaches entry arguments s)
    (hs : ∀ n, ∃ t, Path m.program m.limits n s t) : m.RunsForever entry arguments := by
  obtain ⟨first, k, hstart, hpath⟩ := h
  rw [runsForever_iff]
  intro outcome hends
  obtain ⟨n, t, ht, halt⟩ := (ends_iff_of_start hstart).mp hends
  -- from `s` on the execution outlives the path that is said to end it
  obtain ⟨u, hu⟩ := hs (n + 1)
  have hle := ht.le_of_halt halt (hpath.append hu)
  omega

end Machine

end StackMachine
