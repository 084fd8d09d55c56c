import Mathlib.Order.Lattice.Nat
import StackMachine.Proofs.Execution.Fault
import StackMachine.Proofs.Execution.Invariant

/-!
# Limits are sharp, and otherwise invisible

The same execution under other limits goes through the same states until the limits stop it.  What
it needs of them can be read off the states: room for one more invocation where a call is
attempted, and room on the stack for every state it passes through (`State.Room`).

* With room, the next step is the same (`Next.of_room`, `halt_of_room`); without, it fails by a
  limit (`exists_halt_of_no_room`).
* Hence the whole execution is the same if there is room in all its states (`EndsFrom.of_room`),
  and fails by a limit if there is one without (`Path.exists_endsFrom_of_no_room`).

An execution has a greatest number of invocations that it asks for and a greatest size of its stack
(`Machine.depths`, `Machine.heights`).  Limits leave room exactly if they are not below these
(`Machine.roomFor_iff`), and so these two numbers say how the execution ends under any limits
(`Machine.limits_are_sharp`).
-/

namespace StackMachine

/-! ### Operations under other limits -/

def Fault.ExceedsLimit : Fault → Prop
  | .callDepthExceeded _ _ | .stackOverflow _ _ => True
  | _ => False

def Outcome.ExceedsLimit : Outcome → Prop
  | .failed (.fault fault) => fault.ExceedsLimit
  | _ => False

section Operations

variable {limits limits' : Limits} {site : Site} {frame frame' : Frame}
  {stack stack' : Stack Value} {op : Op} {fault : Fault}

theorem Proceeds.of_room (h : Proceeds limits frame op stack frame' stack')
    (hroom : stack'.size ≤ limits'.stackDepth) :
    Proceeds limits' frame op stack frame' stack' := by
  cases h with
  | load hset => exact .load hset hroom
  | store hslot hbase => exact .store hslot hbase
  | branch => exact .branch
  | branchIf hbase => exact .branchIf hbase
  | push => exact .push hroom
  | unary hbase => exact .unary hbase hroom
  | binary hbase => exact .binary hbase hroom

/-- Only a load or a push makes the stack larger, and these are refused when it is full. -/
theorem Proceeds.fails_of_no_room (h : Proceeds limits frame op stack frame' stack')
    (hsize : stack.size ≤ limits'.stackDepth) (hfull : limits'.stackDepth < stack'.size) :
    Fails limits' site frame op stack (.stackOverflow site limits'.stackDepth) := by
  cases h with
  | load hset => exact .loadFull hset (Nat.le_of_lt_succ hfull)
  | push => exact .pushFull (Nat.le_of_lt_succ hfull)
  | branch => exact absurd hsize (Nat.not_le.mpr hfull)
  | store | branchIf | unary | binary =>
    simp only [Stack.size_push] at hsize hfull
    omega

theorem Fails.of_limits (h : Fails limits site frame op stack fault)
    (hfault : ¬ fault.ExceedsLimit) : Fails limits' site frame op stack fault := by
  cases h with
  | loadUnset hunset => exact .loadUnset hunset
  | store hnone => exact .store hnone
  | branchIf pop => exact .branchIf pop
  | unary pop => exact .unary pop
  | binarySecond pop => exact .binarySecond pop
  | binaryFirst hbase pop => exact .binaryFirst hbase pop
  | loadFull | pushFull | unaryFull | binaryFull => exact absurd trivial hfault

end Operations

/-! ### Steps under other limits -/

/-- A state as it goes on under `limits` has room under other limits: for a function that it calls,
and for the stack it goes on with. -/
structure State.Room (program : Program) (limits limits' : Limits) (s : State) : Prop where
  call : ∀ callee, s.op? program = some (.call callee) →
    s.frames.length + 1 ≤ limits'.callDepth
  stack : ∀ t, Next program limits s t → t.stack.size ≤ limits'.stackDepth

section Steps

variable {program : Program} {limits limits' : Limits} {s t u : State} {outcome : Outcome}

theorem State.Room.depth (h : s.Room program limits limits') {routine : Routine} {callee : Nat}
    (hr : program[s.frame.function]? = some routine)
    (hop : routine.ops[s.frame.position]? = some (.call callee)) :
    s.suspended.size + 1 < limits'.callDepth := by
  have hcall := h.call callee (State.op?_eq_some_iff.mpr ⟨routine, hr, hop⟩)
  rw [State.length_frames] at hcall
  exact hcall

theorem TurnFails.of_room {fault : Fault}
    (h : TurnFails program limits (s.suspended.size + 1) s.frame s.stack fault)
    (hfault : ¬ fault.ExceedsLimit) (hroom : s.Room program limits limits') :
    TurnFails program limits' (s.suspended.size + 1) s.frame s.stack fault := by
  cases h with
  | operation hr hop hfails => exact .operation hr hop (hfails.of_limits hfault)
  | tooDeep => exact absurd trivial hfault
  | enter hr hop _ htarget he => exact .enter hr hop (hroom.depth hr hop) htarget he
  | leave hr hover hl => exact .leave hr hover hl

/-- Whether a function is left does not depend on the limits. -/
theorem turn_eq_leave_of_limits {live : Nat} {frame : Frame} {stack : Stack Value}
    (h : turn program limits live frame stack = .leave) :
    turn program limits' live frame stack = .leave :=
  turn_eq_leave_iff.mpr (turn_eq_leave_iff.mp h)

theorem Next.of_room (h : Next program limits s t) (hroom : s.Room program limits limits') :
    Next program limits' s t := by
  rcases h.cases with ⟨frame, stack, hturn, rfl⟩ | ⟨inner, hturn, rfl⟩ |
    ⟨caller, rest, hturn, hpush, rfl⟩
  · obtain ⟨routine, op, hr, hop, hp⟩ := turn_eq_proceed_iff.mp hturn
    exact .of_proceeds hr hop (hp.of_room (hroom.stack _ h))
  · obtain ⟨-, routine, callee, target, hr, hop, htarget, he⟩ := turn_eq_call_iff.mp hturn
    have hdepth := hroom.depth hr hop
    rw [Next, transition_step,
      turn_eq_call_iff.mpr ⟨hdepth, routine, callee, target, hr, hop, htarget, he⟩]
    rfl
  · rw [Next, transition_step, turn_eq_leave_of_limits hturn]
    simp only [Turn.apply, resume, hpush, Stack.pop?_push]

/-- Nor does whether a function that is called gets the execution stuck. -/
theorem stuck_of_room (hrange : s.InRange program)
    (h : turn program limits (s.suspended.size + 1) s.frame s.stack = .fail .stuck)
    (hroom : s.Room program limits limits') :
    (step program limits' s).transition = .halt (.failed .stuck) := by
  obtain ⟨-, callee, target, hop, htarget, ha⟩ := hrange.turn_eq_stuck_iff.mp h
  obtain ⟨routine, hr, hop'⟩ := State.op?_eq_some_iff.mp hop
  rw [transition_step, hrange.turn_eq_stuck_iff.mpr
    ⟨hroom.depth hr hop', callee, target, hop, htarget, ha⟩]
  rfl

/-- An outcome that is not due to the limits is the same under others. -/
theorem halt_of_room (halt : (step program limits s).transition = .halt outcome)
    (hrange : s.InRange program) (hlimit : ¬ outcome.ExceedsLimit)
    (hroom : s.Room program limits limits') :
    (step program limits' s).transition = .halt outcome := by
  rcases halt_cases halt with ⟨failure, hturn, rfl⟩ | ⟨hturn, hempty, rfl⟩
  · cases failure with
    | stuck => exact stuck_of_room hrange hturn hroom
    | fault fault => exact ((turn_eq_fault_iff.mp hturn).of_room hlimit hroom).halt
  · exact halt_of_leave (turn_eq_leave_of_limits hturn) hempty

theorem exists_turnFails_of_no_room (hsize : s.stack.size ≤ limits'.stackDepth)
    (hroom : ¬ s.Room program limits limits') :
    ∃ fault : Fault, fault.ExceedsLimit ∧
      TurnFails program limits' (s.suspended.size + 1) s.frame s.stack fault := by
  by_cases hcall : ∀ callee, s.op? program = some (.call callee) →
      s.frames.length + 1 ≤ limits'.callDepth
  · have hstack : ¬ ∀ t, Next program limits s t → t.stack.size ≤ limits'.stackDepth :=
      fun hstack => hroom ⟨hcall, hstack⟩
    push Not at hstack
    obtain ⟨t, hnext, hfull⟩ := hstack
    rcases hnext.cases with ⟨frame, stack, hturn, rfl⟩ | ⟨inner, -, rfl⟩ |
      ⟨caller, rest, -, -, rfl⟩
    · obtain ⟨routine, op, hr, hop, hp⟩ := turn_eq_proceed_iff.mp hturn
      exact ⟨.stackOverflow s.frame.site limits'.stackDepth, trivial,
        .operation hr hop (hp.fails_of_no_room hsize hfull)⟩
    -- a call and a return leave the stack as it is
    · exact absurd hsize (Nat.not_le.mpr hfull)
    · exact absurd hsize (Nat.not_le.mpr hfull)
  · push Not at hcall
    obtain ⟨callee, hop, hfull⟩ := hcall
    obtain ⟨routine, hr, hop⟩ := State.op?_eq_some_iff.mp hop
    rw [State.length_frames] at hfull
    exact ⟨.callDepthExceeded s.frame.site limits'.callDepth, trivial,
      .tooDeep hr hop (Nat.le_of_lt_succ hfull)⟩

theorem exists_halt_of_no_room (hsize : s.stack.size ≤ limits'.stackDepth)
    (hroom : ¬ s.Room program limits limits') :
    ∃ outcome : Outcome, outcome.ExceedsLimit ∧
      (step program limits' s).transition = .halt outcome := by
  obtain ⟨fault, hlimit, hfails⟩ := exists_turnFails_of_no_room hsize hroom
  exact ⟨.failed (.fault fault), hlimit, hfails.halt⟩

/-! ### Paths under other limits -/

/-- With room in every state on the way, an execution ends as it did. -/
theorem EndsFrom.of_room (h : EndsFrom program limits s outcome)
    (hlimit : ¬ outcome.ExceedsLimit)
    (hroom : ∀ n u, Path program limits n s u →
      u.InRange program ∧ u.Room program limits limits') :
    EndsFrom program limits' s outcome := by
  obtain ⟨n, t, hpath, halt⟩ := h
  induction hpath with
  | refl s =>
    obtain ⟨hrange, hs⟩ := hroom 0 s (.refl s)
    exact ⟨0, s, .refl s, halt_of_room halt hrange hlimit hs⟩
  | @next n s s' t first rest ih =>
    obtain ⟨k, u, hrest, hend⟩ := ih (fun j v hv => hroom (j + 1) v (.next first hv)) halt
    exact ⟨k + 1, u, .next (first.of_room (hroom 0 s (.refl s)).2) hrest, hend⟩

/-- At the first state without room, it fails by a limit. -/
theorem Path.exists_endsFrom_of_no_room {n : Nat} (h : Path program limits n s u)
    (hsize : s.stack.size ≤ limits'.stackDepth) (hroom : ¬ u.Room program limits limits') :
    ∃ outcome : Outcome, outcome.ExceedsLimit ∧ EndsFrom program limits' s outcome := by
  induction h with
  | refl s =>
    obtain ⟨outcome, hlimit, halt⟩ := exists_halt_of_no_room hsize hroom
    exact ⟨outcome, hlimit, 0, s, .refl s, halt⟩
  | @next n s s' u first _ ih =>
    by_cases hs : s.Room program limits limits'
    · obtain ⟨outcome, hlimit, k, t, hrest, halt⟩ := ih (hs.stack s' first) hroom
      exact ⟨outcome, hlimit, k + 1, t, .next (first.of_room hs) hrest, halt⟩
    · obtain ⟨outcome, hlimit, halt⟩ := exists_halt_of_no_room hsize hs
      exact ⟨outcome, hlimit, 0, s, .refl s, halt⟩

end Steps

/-! ### The beginning under other limits -/

section Start

variable {program : Program} {limits limits' : Limits} {entry : Nat} {arguments : List Value}

theorem start_next_of_room {s : State}
    (h : (start program limits entry arguments).transition = .next s)
    (hdepth : 0 < limits'.callDepth) (hstack : arguments.length ≤ limits'.stackDepth) :
    (start program limits' entry arguments).transition = .next s := by
  obtain ⟨routine, hr, -, -, hcount, htypes, hslots, rfl⟩ := start_eq_next_iff.mp h
  exact start_eq_next_iff.mpr ⟨routine, hr, hstack, hdepth, hcount, htypes, hslots, rfl⟩

theorem StartFails.of_room {fault : Fault} (h : StartFails program limits entry arguments fault)
    (hfault : ¬ fault.ExceedsLimit) (hdepth : 0 < limits'.callDepth)
    (hstack : arguments.length ≤ limits'.stackDepth) :
    StartFails program limits' entry arguments fault := by
  cases h with
  | noEntry hnone => exact .noEntry hnone
  | tooMany | tooDeep => exact absurd trivial hfault
  | enter hr _ _ he => exact .enter hr hstack hdepth he

theorem start_halt_of_room {outcome : Outcome}
    (h : (start program limits entry arguments).transition = .halt outcome)
    (hlimit : ¬ outcome.ExceedsLimit) (hdepth : 0 < limits'.callDepth)
    (hstack : arguments.length ≤ limits'.stackDepth) :
    (start program limits' entry arguments).transition = .halt outcome := by
  obtain ⟨failure, rfl⟩ := exists_failure_of_start_halt h
  cases failure with
  | fault fault =>
    exact start_eq_fault_iff.mpr ((start_eq_fault_iff.mp h).of_room hlimit hdepth hstack)
  | stuck =>
    obtain ⟨routine, hr, -, -, ha⟩ := start_eq_stuck_iff.mp h
    exact start_eq_stuck_iff.mpr ⟨routine, hr, hstack, hdepth, ha⟩

theorem exists_startFails_of_no_room (hentry : entry < program.size)
    (hroom : ¬ (0 < limits.callDepth ∧ arguments.length ≤ limits.stackDepth)) :
    ∃ fault : Fault, fault.ExceedsLimit ∧ StartFails program limits entry arguments fault := by
  have hr : program[entry]? = some program[entry] := Array.getElem?_eq_getElem hentry
  by_cases hstack : arguments.length ≤ limits.stackDepth
  · exact ⟨.callDepthExceeded ⟨entry, 0⟩ 0, trivial, .tooDeep hr hstack (by omega)⟩
  · exact ⟨.stackOverflow ⟨entry, 0⟩ limits.stackDepth, trivial,
      .tooMany hr (Nat.lt_of_not_le hstack)⟩

end Start

/-! ### Executions under other limits -/

namespace Machine

variable {m : Machine} {entry depth height : Nat} {arguments : List Value} {outcome : Outcome}
  {limits : Limits}

/-- How many invocations an execution asks for: the first one, and in each state it passes through
the live ones, with one more where a call is attempted. -/
def depths (m : Machine) (entry : Nat) (arguments : List Value) : Set Nat :=
  {d | d = 1 ∨ ∃ s, m.Reaches entry arguments s ∧ (d = s.frames.length ∨
    d = s.frames.length + 1 ∧ ∃ callee, s.op? m.program = some (.call callee))}

/-- How many values lie on the stack: the arguments at first, and then those of each state it
passes through. -/
def heights (m : Machine) (entry : Nat) (arguments : List Value) : Set Nat :=
  {n | n = arguments.length ∨ ∃ s, m.Reaches entry arguments s ∧ n = s.stack.size}

theorem exists_isGreatest_depths (m : Machine) (entry : Nat) (arguments : List Value) :
    ∃ depth, IsGreatest (m.depths entry arguments) depth := by
  have hbounded : BddAbove (m.depths entry arguments) := by
    refine ⟨m.limits.callDepth + 1, ?_⟩
    rintro d (rfl | ⟨s, hs, rfl | ⟨rfl, -⟩⟩)
    · omega
    · exact Nat.le_succ_of_le hs.sound.frames_le
    · exact Nat.succ_le_succ hs.sound.frames_le
  exact ⟨_, Nat.sSup_mem ⟨1, .inl rfl⟩ hbounded, fun d hd => le_csSup hbounded hd⟩

theorem exists_isGreatest_heights (m : Machine) (entry : Nat) (arguments : List Value) :
    ∃ height, IsGreatest (m.heights entry arguments) height := by
  have hbounded : BddAbove (m.heights entry arguments) := by
    refine ⟨max arguments.length m.limits.stackDepth, ?_⟩
    rintro n (rfl | ⟨s, hs, rfl⟩)
    · exact Nat.le_max_left _ _
    · exact Nat.le_trans hs.sound.stack_le (Nat.le_max_right _ _)
  exact ⟨_, Nat.sSup_mem ⟨_, .inl rfl⟩ hbounded, fun n hn => le_csSup hbounded hn⟩

/-- Limits under which the whole execution has room. -/
structure RoomFor (m : Machine) (entry : Nat) (arguments : List Value) (limits : Limits) :
    Prop where
  depth_pos : 0 < limits.callDepth
  arguments_le : arguments.length ≤ limits.stackDepth
  states : ∀ s, m.Reaches entry arguments s → s.Room m.program m.limits limits

/-- Where there is room for every step, every state keeps the limits. -/
theorem RoomFor.keeps (h : m.RoomFor entry arguments limits) {s : State}
    (hs : m.Reaches entry arguments s) :
    s.frames.length ≤ limits.callDepth ∧ s.stack.size ≤ limits.stackDepth := by
  obtain ⟨first, n, hstart, hpath⟩ := hs
  obtain ⟨routine, -, -, -, -, -, -, hfirst⟩ := start_eq_next_iff.mp hstart
  have hkept : m.Reaches entry arguments first ∧ first.frames.length ≤ limits.callDepth ∧
      first.stack.size ≤ limits.stackDepth := by
    refine ⟨⟨first, 0, hstart, .refl first⟩, ?_, ?_⟩
    · rw [hfirst]
      exact h.depth_pos
    · rw [hfirst]
      exact h.arguments_le
  refine (Path.preserves (P := fun s => m.Reaches entry arguments s ∧
    s.frames.length ≤ limits.callDepth ∧ s.stack.size ≤ limits.stackDepth) ?_ hpath hkept).2
  rintro s t ⟨hs, hframes, -⟩ hnext
  have hroom := h.states s hs
  refine ⟨hs.next hnext, ?_, hroom.stack t hnext⟩
  rcases hnext.cases with ⟨frame, stack, -, rfl⟩ | ⟨inner, hturn, rfl⟩ |
    ⟨caller, rest, -, hpush, rfl⟩
  · exact hframes
  · obtain ⟨-, routine, callee, -, hr, hop, -⟩ := turn_eq_call_iff.mp hturn
    exact hroom.call callee (State.op?_eq_some_iff.mpr ⟨routine, hr, hop⟩)
  · rw [State.length_frames, hpush, Stack.size_push] at hframes
    rw [State.length_frames]
    exact Nat.le_of_succ_le hframes

/-- Limits leave room exactly if they are not below what is asked for. -/
theorem roomFor_iff (hdepth : IsGreatest (m.depths entry arguments) depth)
    (hheight : IsGreatest (m.heights entry arguments) height) :
    m.RoomFor entry arguments limits ↔ depth ≤ limits.callDepth ∧ height ≤ limits.stackDepth := by
  rw [isLUB_le_iff hdepth.isLUB, isLUB_le_iff hheight.isLUB]
  constructor
  · intro h
    refine ⟨?_, ?_⟩
    · rintro d (rfl | ⟨s, hs, rfl | ⟨rfl, callee, hop⟩⟩)
      · exact h.depth_pos
      · exact (h.keeps hs).1
      · exact (h.states s hs).call callee hop
    · rintro n (rfl | ⟨s, hs, rfl⟩)
      · exact h.arguments_le
      · exact (h.keeps hs).2
  · rintro ⟨hdepths, hheights⟩
    refine ⟨hdepths (.inl rfl), hheights (.inl rfl), ?_⟩
    intro s hs
    refine ⟨?_, ?_⟩
    · intro callee hop
      exact hdepths (.inr ⟨s, hs, .inr ⟨rfl, callee, hop⟩⟩)
    · intro t hnext
      exact hheights (.inr ⟨t, hs.next hnext, rfl⟩)

theorem Ends.of_room (h : m.Ends entry arguments outcome) (hlimit : ¬ outcome.ExceedsLimit)
    (hroom : m.RoomFor entry arguments limits) :
    (m.withLimits limits).Ends entry arguments outcome := by
  cases hstart : (start m.program m.limits entry arguments).transition with
  | halt outcome' =>
    obtain rfl := (ends_of_start_halt hstart).unique h
    exact ends_of_start_halt
      (start_halt_of_room hstart hlimit hroom.depth_pos hroom.arguments_le)
  | next first =>
    have hends := (ends_iff_of_start hstart).mp h
    have hstart' := start_next_of_room hstart hroom.depth_pos hroom.arguments_le
    refine (ends_iff_of_start (m := m.withLimits limits) hstart').mpr ?_
    refine hends.of_room hlimit ?_
    intro n u hu
    have hreaches : m.Reaches entry arguments u := ⟨first, n, hstart, hu⟩
    exact ⟨hreaches.inRange, hroom.states u hreaches⟩

theorem exists_ends_of_no_room (hentry : entry < m.program.size)
    (hroom : ¬ m.RoomFor entry arguments limits) :
    ∃ outcome' : Outcome, outcome'.ExceedsLimit ∧
      (m.withLimits limits).Ends entry arguments outcome' := by
  by_cases hbegin : 0 < limits.callDepth ∧ arguments.length ≤ limits.stackDepth
  · have hstates : ¬ ∀ s, m.Reaches entry arguments s → s.Room m.program m.limits limits :=
      fun hstates => hroom ⟨hbegin.1, hbegin.2, hstates⟩
    push Not at hstates
    obtain ⟨s, ⟨first, n, hstart, hpath⟩, hs⟩ := hstates
    have hsize : first.stack.size ≤ limits.stackDepth := by
      obtain ⟨routine, -, -, -, -, -, -, rfl⟩ := start_eq_next_iff.mp hstart
      exact hbegin.2
    obtain ⟨outcome', hlimit, hends⟩ := hpath.exists_endsFrom_of_no_room hsize hs
    have hstart' := start_next_of_room hstart hbegin.1 hbegin.2
    exact ⟨outcome', hlimit, (ends_iff_of_start (m := m.withLimits limits) hstart').mpr hends⟩
  · obtain ⟨fault, hlimit, hfails⟩ := exists_startFails_of_no_room hentry hbegin
    exact ⟨.failed (.fault fault), hlimit, ends_of_start_halt (start_eq_fault_iff.mpr hfails)⟩

/-- **Limits are sharp, and otherwise invisible.**  Let an execution end, and not because of the
limits.  There is a greatest number of invocations that it asks for and a greatest size of its
stack, and they are within the limits.  Under any limits that are not below these two numbers the
execution ends in the same way, and under any others it fails because of the limits. -/
theorem limits_are_sharp (hentry : entry < m.program.size) (hends : m.Ends entry arguments outcome)
    (hlimit : ¬ outcome.ExceedsLimit) :
    ∃ depth height, IsGreatest (m.depths entry arguments) depth ∧
      IsGreatest (m.heights entry arguments) height ∧
      depth ≤ m.limits.callDepth ∧ height ≤ m.limits.stackDepth ∧
      ∀ limits : Limits,
        (depth ≤ limits.callDepth ∧ height ≤ limits.stackDepth →
          (m.withLimits limits).Ends entry arguments outcome) ∧
        (¬ (depth ≤ limits.callDepth ∧ height ≤ limits.stackDepth) →
          ∃ outcome' : Outcome, outcome'.ExceedsLimit ∧
            (m.withLimits limits).Ends entry arguments outcome') := by
  obtain ⟨depth, hdepth⟩ := m.exists_isGreatest_depths entry arguments
  obtain ⟨height, hheight⟩ := m.exists_isGreatest_heights entry arguments
  have hroom : m.RoomFor entry arguments m.limits := by
    by_contra hroom
    obtain ⟨outcome', hlimit', hends'⟩ := exists_ends_of_no_room hentry hroom
    obtain rfl := hends.unique hends'
    exact hlimit hlimit'
  obtain ⟨hdepth_le, hheight_le⟩ := (roomFor_iff hdepth hheight).mp hroom
  refine ⟨depth, height, hdepth, hheight, hdepth_le, hheight_le, ?_⟩
  intro limits
  rw [← roomFor_iff hdepth hheight]
  exact ⟨hends.of_room hlimit, exists_ends_of_no_room hentry⟩

/-- Squaring asks for two invocations, and with one it fails.  That it asks for no more is seen
from the execution that is allowed just two. -/
theorem squaring_needs_two_invocations :
    squaring.Ends 0 [.integer 5] (.returned [.integer 25]) ∧
      IsGreatest (squaring.depths 0 [.integer 5]) 2 ∧
      ∃ outcome : Outcome, outcome.ExceedsLimit ∧
        (squaring.withLimits ⟨1, 4096⟩).Ends 0 [.integer 5] outcome := by
  have hends : squaring.Ends 0 [.integer 5] (.returned [.integer 25]) := ⟨10, rfl⟩
  have hends_two : (squaring.withLimits ⟨2, 4096⟩).Ends 0 [.integer 5]
      (.returned [.integer 25]) := ⟨10, rfl⟩
  obtain ⟨depth, height, hdepth, -, -, -, hsharp⟩ :=
    limits_are_sharp (by decide : 0 < squaring.program.size) hends id
  have hcalls : 2 ≤ depth :=
    hdepth.2 (.inr ⟨_, ⟨_, 0, rfl, .refl _⟩, .inr ⟨rfl, 1, rfl⟩⟩)
  have hle : depth ≤ 2 := by
    by_contra hlt
    obtain ⟨outcome, hlimit, hends'⟩ := (hsharp ⟨2, 4096⟩).2 fun h => hlt h.1
    obtain rfl := hends_two.unique hends'
    exact hlimit
  obtain rfl : depth = 2 := Nat.le_antisymm hle hcalls
  exact ⟨hends, hdepth, (hsharp ⟨1, 4096⟩).2 fun h => absurd h.1 (by decide)⟩

end Machine

end StackMachine
