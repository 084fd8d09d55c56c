import StackMachine.Proofs.Execution.Invariant

/-!
# What an invocation leaves behind

An invocation completes when its frame is dropped: its caller is resumed, or the execution returns
(`State.Completes`).  Either way the contract of its function has just been checked, so the values
above its base are the outputs that the function declares (`State.Completes.outputs`).

What an execution returns is the whole stack.  This is no more than the outputs of the function it
started with: the last frame to be dropped is the one at the bottom, and by the invariant of
executions its base is zero.  Together this is `Machine.returns_declared_outputs`.
-/

namespace StackMachine

/-- The next step drops the running frame and leaves a stack behind. -/
inductive State.Completes (program : Program) (limits : Limits) (s : State) :
    Stack Value → Prop where
  /-- A frame that waited goes on. -/
  | resumes {t : State} (next : Next program limits s t)
      (fewer : t.suspended.size < s.suspended.size) : Completes program limits s t.stack
  /-- Nobody waits, and the execution is over. -/
  | returns {values : List Value}
      (halt : (step program limits s).transition = .halt (.returned values)) :
      Completes program limits s (.ofList values)

variable {program : Program} {limits : Limits} {entry : Nat} {s : State} {stack : Stack Value}

/-- To complete is to leave, with the stack as it stands. -/
theorem State.Completes.turn_eq_leave (h : s.Completes program limits stack) :
    turn program limits (s.suspended.size + 1) s.frame s.stack = .leave ∧ stack = s.stack := by
  cases h with
  | resumes hnext hfewer =>
    rcases hnext.cases with ⟨frame, stack, -, rfl⟩ | ⟨inner, -, rfl⟩ |
      ⟨caller, rest, hturn, -, rfl⟩
    · exact absurd hfewer (Nat.lt_irrefl _)
    · simp only [Stack.size_push] at hfewer
      omega
    · exact ⟨hturn, rfl⟩
  | returns halt =>
    rcases halt_cases halt with ⟨failure, -, houtcome⟩ | ⟨hturn, -, houtcome⟩
    · cases houtcome
    · cases houtcome
      exact ⟨hturn, s.stack.ofList_toList⟩

/-- **Outputs, and nothing else, lie above the base of an invocation that completes.** -/
theorem State.Completes.outputs (h : s.Completes program limits stack) :
    ∃ routine, program[s.frame.function]? = some routine ∧ s.frame.base ≤ stack.size ∧
      (stack.above s.frame.base).map Value.type = routine.outputs := by
  obtain ⟨hturn, rfl⟩ := h.turn_eq_leave
  obtain ⟨routine, hr, -, hl⟩ := turn_eq_leave_iff.mp hturn
  obtain ⟨hbase, htypes⟩ := Routine.leave_eq_ok_iff.mp hl
  exact ⟨routine, hr, hbase, htypes⟩

/-- The frame that nobody waits for belongs to the function an execution started with, and owns
the whole stack. -/
theorem State.Sound.of_alone (h : s.Sound program limits entry) (halone : s.suspended = .empty) :
    s.frame.function = entry ∧ s.frame.base = 0 := by
  obtain ⟨frame, hlast, hentry, hbase⟩ := h.first
  rw [frames, halone] at hlast
  obtain rfl : s.frame = frame := Option.some.inj hlast
  exact ⟨hentry, hbase⟩

namespace Machine

/-- An execution that returns completes the function it started with. -/
theorem Ends.completes {m : Machine} {arguments values : List Value}
    (h : m.Ends entry arguments (.returned values)) :
    ∃ s, m.Reaches entry arguments s ∧ s.Completes m.program m.limits (.ofList values) ∧
      s.frame.function = entry ∧ s.frame.base = 0 := by
  rcases h.cases with hstart | ⟨s, hs, halt⟩
  · obtain ⟨failure, hfailure⟩ := exists_failure_of_start_halt hstart
    cases hfailure
  · rcases halt_cases halt with ⟨failure, -, houtcome⟩ | ⟨-, halone, -⟩
    · cases houtcome
    · exact ⟨s, hs, .returns halt, hs.sound.of_alone halone⟩

/-- **Results are as declared.**  What an execution returns is not empty, and has the types of the
outputs of the function it started with, in order and in number.  In every execution, however it
ends, an invocation that completes leaves exactly the outputs of its function above its base. -/
theorem returns_declared_outputs (m : Machine) (entry : Nat) (arguments : List Value) :
    (∀ values, m.Ends entry arguments (.returned values) →
      values ≠ [] ∧ ∃ routine, m.program[entry]? = some routine ∧
        values.map Value.type = routine.outputs) ∧
    ∀ s stack, m.Reaches entry arguments s → s.Completes m.program m.limits stack →
      ∃ routine, m.program[s.frame.function]? = some routine ∧ s.frame.base ≤ stack.size ∧
        (stack.above s.frame.base).map Value.type = routine.outputs := by
  refine ⟨?_, ?_⟩
  · intro values h
    have hprogram : m.program.Sound := validate_sound m.validated
    obtain ⟨s, -, hcompletes, hentry, hbase⟩ := h.completes
    obtain ⟨routine, hr, -, htypes⟩ := hcompletes.outputs
    rw [hentry] at hr
    rw [hbase, Stack.above_eq_drop, List.drop_zero, Stack.toList_ofList] at htypes
    refine ⟨?_, routine, hr, htypes⟩
    rintro rfl
    exact (hprogram hr).1 htypes.symm
  · intro s stack _ hcompletes
    exact hcompletes.outputs

/-- The state in which the helper has squared 5, with a 7 below that is not its own. -/
def helperDone : State where
  stack := .ofList [.integer 7, .integer 25]
  frame := ⟨1, 4, #[some (.integer 5)], 1⟩
  suspended := Stack.empty.push (Frame.fresh 0 0 0).advance

theorem squaring_returns_integer :
    squaring.Ends 0 [.integer 5] (.returned [.integer 25]) ∧
      (∃ routine, squaring.program[0]? = some routine ∧
        [Value.integer 25].map Value.type = routine.outputs) ∧
      squaring.Reaches 0 [.integer 7, .integer 5] helperDone ∧
      helperDone.Completes squaring.program squaring.limits
        (.ofList [.integer 7, .integer 25]) ∧
      ∃ routine, squaring.program[1]? = some routine ∧
        [Value.integer 25].map Value.type = routine.outputs := by
  have hends : squaring.Ends 0 [.integer 5] (.returned [.integer 25]) := ⟨10, rfl⟩
  have hreaches : squaring.Reaches 0 [.integer 7, .integer 5] helperDone := by
    refine ⟨_, 5, rfl, ?_⟩
    -- the call, the store, two loads and the multiplication
    exact .next rfl (.next rfl (.next rfl (.next rfl (.single rfl))))
  have hnext : Next squaring.program squaring.limits helperDone
      ⟨.ofList [.integer 7, .integer 25], (Frame.fresh 0 0 0).advance, .empty⟩ := rfl
  have hcompletes : helperDone.Completes squaring.program squaring.limits
      (.ofList [.integer 7, .integer 25]) := .resumes hnext Nat.zero_lt_one
  obtain ⟨-, hresult⟩ := (squaring.returns_declared_outputs 0 [.integer 5]).1 _ hends
  obtain ⟨routine, hr, -, htypes⟩ :=
    (squaring.returns_declared_outputs 0 [.integer 7, .integer 5]).2 _ _ hreaches hcompletes
  exact ⟨hends, hresult, hreaches, hcompletes, routine, hr, htypes⟩

end Machine

end StackMachine
