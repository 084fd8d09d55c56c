import StackMachine.Proofs.Execution.Invariant

/-!
# Calls are local

What a function does when it is called does not depend on who called it.  A call that has just
been entered, with `k` frames waiting and a base of `b`, goes on exactly as a fresh execution of
the function on its inputs would, under limits that are lower by `k` invocations and `b` values:
`Machine.call_is_local` says so for executions that return, that fail and that run forever.

The proof puts the states of the fresh execution on top of what the callers left behind.
`s.atop below waiting` is the state `s` with the values `below` under its own and the frames
`waiting` under its own, all its bases raised.  Every check of the engine commutes with this: the
sizes, bases, depths and limits that it compares are raised on both sides (`turn_atop`).  So the
two executions go in step (`Path.atop`) until the fresh one ends.  If it fails, so does the other
one, with the limits in the fault raised as well (`halt_atop`); if it returns, the other one
resumes the caller (`resume_atop`).
-/

namespace StackMachine

/-! ### States on top of others -/

def Limits.raise (k b : Nat) (limits : Limits) : Limits :=
  ⟨limits.callDepth + k, limits.stackDepth + b⟩

/-- The limits that are left when `k` invocations are live and `b` values on the stack. -/
def Limits.lower (k b : Nat) (limits : Limits) : Limits :=
  ⟨limits.callDepth - k, limits.stackDepth - b⟩

def Fault.raise (k b : Nat) : Fault → Fault
  | .callDepthExceeded site limit => .callDepthExceeded site (limit + k)
  | .stackOverflow site limit => .stackOverflow site (limit + b)
  | fault => fault

def Failure.raise (k b : Nat) : Failure → Failure
  | .fault f => .fault (f.raise k b)
  | .stuck => .stuck

def Frame.raise (b : Nat) (frame : Frame) : Frame := { frame with base := frame.base + b }

/-- A state whose invocations have been called by those that are `waiting`, with the values
`below` under its own. -/
def State.atop (s : State) (below : Stack Value) (waiting : Stack Frame) : State where
  stack := s.stack.atop below
  frame := s.frame.raise below.size
  suspended := (s.suspended.map (Frame.raise below.size)).atop waiting

def Flow.atop (below : Stack Value) : Flow → Flow
  | .proceed frame stack => .proceed (frame.raise below.size) (stack.atop below)
  | .call callee => .call callee
  | .exit => .exit

def Turn.atop (k : Nat) (below : Stack Value) : Turn → Turn
  | .fail failure => .fail (failure.raise k below.size)
  | .proceed frame stack => .proceed (frame.raise below.size) (stack.atop below)
  | .call inner => .call (inner.raise below.size)
  | .leave => .leave

/-- A check whose failure is raised, and whose result is changed by `g`. -/
def raised {α β : Type} (k b : Nat) (g : α → β) : Except Failure α → Except Failure β
  | .ok a => .ok (g a)
  | .error failure => .error (failure.raise k b)

namespace Frame

@[simp] theorem function_raise (b : Nat) (frame : Frame) :
    (frame.raise b).function = frame.function := rfl

@[simp] theorem position_raise (b : Nat) (frame : Frame) :
    (frame.raise b).position = frame.position := rfl

@[simp] theorem base_raise (b : Nat) (frame : Frame) : (frame.raise b).base = frame.base + b := rfl

@[simp] theorem site_raise (b : Nat) (frame : Frame) : (frame.raise b).site = frame.site := rfl

@[simp] theorem advance_raise (b : Nat) (frame : Frame) :
    (frame.raise b).advance = frame.advance.raise b := rfl

end Frame

theorem Limits.raise_lower {limits : Limits} {k b : Nat} (hk : k ≤ limits.callDepth)
    (hb : b ≤ limits.stackDepth) : (limits.lower k b).raise k b = limits := by
  simp only [lower, raise, Nat.sub_add_cancel hk, Nat.sub_add_cancel hb]

/-- Checks in sequence are raised one by one. -/
theorem raised_bind {α β γ δ : Type} {k b : Nat} {g : α → β} {h : γ → δ} {x : Except Failure α}
    {f : α → Except Failure γ} {f' : β → Except Failure δ}
    (hf : ∀ a, f' (g a) = raised k b h (f a)) :
    raised k b g x >>= f' = raised k b h (x >>= f) := by
  cases x with
  | error failure => rfl
  | ok a => exact hf a

/-! ### Checks commute with raising -/

variable {program : Program} {limits : Limits} {k live base : Nat} {site : Site} {frame : Frame}
  {stack below : Stack Value} {waiting : Stack Frame}

theorem popAbove_atop (k : Nat) :
    popAbove site (base + below.size) (stack.atop below) =
      raised k below.size (Prod.map id (·.atop below)) (popAbove site base stack) := by
  rcases stack.eq_empty_or_push with rfl | ⟨value, rest, rfl⟩
  · rw [Stack.empty_atop, popAbove_empty]
    rcases below.eq_empty_or_push with rfl | ⟨value, rest, rfl⟩
    · rfl
    · rw [popAbove_push, if_neg (by simp only [Stack.size_push]; omega)]
      rfl
  · rw [Stack.push_atop, popAbove_push, popAbove_push, Stack.size_atop]
    by_cases hbase : base ≤ rest.size
    · rw [if_pos hbase, if_pos (by omega)]
      rfl
    · rw [if_neg hbase, if_neg (by omega)]
      rfl

theorem popTyped_atop (k : Nat) {t : ValueType} :
    popTyped t site (base + below.size) (stack.atop below) =
      raised k below.size (Prod.map id (·.atop below)) (popTyped t site base stack) := by
  rw [popTyped, popTyped, popAbove_atop k]
  refine raised_bind ?_
  rintro ⟨value, rest⟩
  simp only [Prod.map, id]
  cases value.as? t <;> rfl

theorem pushBelow_atop {value : Value} :
    pushBelow (limits.raise k below.size).stackDepth site value (stack.atop below) =
      raised k below.size (·.atop below) (pushBelow limits.stackDepth site value stack) := by
  have hiff : (stack.atop below).size < (limits.raise k below.size).stackDepth ↔
      stack.size < limits.stackDepth := Nat.add_lt_add_iff_right
  unfold pushBelow
  by_cases hroom : stack.size < limits.stackDepth
  · rw [if_pos hroom, if_pos (hiff.mpr hroom)]
    simp only [raised, Stack.push_atop]
  · rw [if_neg hroom, if_neg (mt hiff.mp hroom)]
    rfl

theorem perform_atop (op : Op) :
    perform (limits.raise k below.size) site (frame.raise below.size) (stack.atop below) op =
      raised k below.size (Flow.atop below) (perform limits site frame stack op) := by
  cases op with
  | load slot =>
    simp only [perform, Frame.raise]
    cases frame.slots[slot]? with
    | none => rfl
    | some content =>
      cases content with
      | none => rfl
      | some value =>
        simp only [pushBelow_atop]
        exact raised_bind fun _ => rfl
  | store slot =>
    simp only [perform, Frame.raise, popAbove_atop k]
    refine raised_bind ?_
    rintro ⟨value, rest⟩
    by_cases hslot : slot < frame.slots.size
    · refine (dif_pos hslot).trans ?_
      rw [dif_pos hslot]
      rfl
    · refine (dif_neg hslot).trans ?_
      rw [dif_neg hslot]
      rfl
  | call callee => rfl
  | exit => rfl
  | branch target => rfl
  | branchIf flag target =>
    simp only [perform, Frame.raise, popTyped_atop k]
    refine raised_bind ?_
    rintro ⟨b, rest⟩
    by_cases hb : b = flag
    · simp only [Prod.map, id, if_pos hb]
      rfl
    · simp only [Prod.map, id, if_neg hb]
      rfl
  | push value =>
    simp only [perform, pushBelow_atop]
    exact raised_bind fun _ => rfl
  | unary o =>
    simp only [perform, Frame.raise, popTyped_atop k]
    refine raised_bind ?_
    rintro ⟨a, rest⟩
    simp only [Prod.map, pushBelow_atop]
    exact raised_bind fun _ => rfl
  | binary o =>
    simp only [perform, Frame.raise, popTyped_atop k]
    refine raised_bind ?_
    rintro ⟨b, upper⟩
    simp only [Prod.map, popTyped_atop k]
    refine raised_bind ?_
    rintro ⟨a, rest⟩
    simp only [Prod.map, pushBelow_atop]
    exact raised_bind fun _ => rfl

/-! ### Entering, leaving and turns commute with raising -/

theorem Routine.checkInputs_atop (r : Routine) (k function floor : Nat)
    (stack below : Stack Value) :
    r.checkInputs function (floor + below.size) (stack.atop below) =
      raised k below.size id (r.checkInputs function floor stack) := by
  have hsize : (stack.atop below).size - (floor + below.size) = stack.size - floor :=
    Nat.add_sub_add_right _ _ _
  have hfloor : (stack.atop below).size < floor + below.size ↔ stack.size < floor :=
    Nat.add_lt_add_iff_right
  simp only [checkInputs, hsize, hfloor]
  by_cases h : stack.size < floor
  · simp only [if_pos h]
    rfl
  simp only [if_neg h]
  by_cases hfew : stack.size - floor < r.inputs.length
  · simp only [if_pos hfew]
    rfl
  simp only [if_neg hfew]
  have hinputs : r.inputs.length ≤ stack.size := by omega
  rw [Stack.top_atop below hinputs]
  cases mismatchFrom? 0 r.inputs (stack.top r.inputs.length) <;> rfl

theorem Routine.activate_atop (r : Routine) (k function floor : Nat) (stack below : Stack Value) :
    r.activate function (floor + below.size) (stack.atop below) =
      raised k below.size (Frame.raise below.size) (r.activate function floor stack) := by
  simp only [activate_eq_bind, enter, r.checkInputs_atop k]
  cases hc : r.checkInputs function floor stack with
  | error failure => rfl
  | ok u =>
    have hinputs := (checkInputs_eq_ok_iff.mp hc).1
    have hbase : (stack.atop below).size - r.inputs.length =
        stack.size - r.inputs.length + below.size := by
      rw [Stack.size_atop]
      omega
    simp only [raised, Except.map, Except.bind, hbase]
    by_cases hslots : r.slots < Frame.slotLimit
    · simp only [if_pos hslots]
      rfl
    · simp only [if_neg hslots]
      rfl

theorem Routine.leave_atop (r : Routine) (k : Nat) :
    r.leave (frame.raise below.size) (stack.atop below) =
      raised k below.size id (r.leave frame stack) := by
  have hsize : (stack.atop below).size - (frame.base + below.size) = stack.size - frame.base :=
    Nat.add_sub_add_right _ _ _
  have hbase : (stack.atop below).size < frame.base + below.size ↔ stack.size < frame.base :=
    Nat.add_lt_add_iff_right
  simp only [leave, Frame.base_raise, Frame.function_raise, hsize, hbase, stack.above_atop below]
  by_cases h : stack.size < frame.base
  · simp only [if_pos h]
    rfl
  simp only [if_neg h]
  by_cases hcount : stack.size - frame.base ≠ r.outputs.length
  · simp only [if_pos hcount]
    rfl
  simp only [if_neg hcount]
  cases mismatchFrom? 0 r.outputs (stack.above frame.base) <;> rfl

theorem lastTurn_atop (r : Routine) :
    r.lastTurn (frame.raise below.size) (stack.atop below) =
      (r.lastTurn frame stack).atop k below := by
  simp only [Routine.lastTurn, Routine.leave_atop _ k]
  cases r.leave frame stack <;> rfl

theorem callTurn_atop (callee : Nat) :
    callTurn program (limits.raise k below.size) (live + k) (frame.raise below.size)
        (stack.atop below) callee =
      (callTurn program limits live frame stack callee).atop k below := by
  have hdepth : (limits.raise k below.size).callDepth < live + k + 1 ↔
      limits.callDepth < live + 1 := by
    simp only [Limits.raise]
    omega
  simp only [callTurn, hdepth]
  by_cases h : limits.callDepth < live + 1
  · simp only [if_pos h]
    rfl
  simp only [if_neg h]
  cases program[callee]? with
  | none => rfl
  | some target =>
    simp only [Frame.base_raise, target.activate_atop k]
    cases target.activate callee frame.base stack <;> rfl

/-- **A turn does not see who called.** -/
theorem turn_atop :
    turn program (limits.raise k below.size) (live + k) (frame.raise below.size)
        (stack.atop below) =
      (turn program limits live frame stack).atop k below := by
  unfold turn
  simp only [Frame.function_raise, Frame.position_raise]
  cases program[frame.function]? with
  | none => rfl
  | some routine =>
    simp only
    cases routine.ops[frame.position]? with
    | none => exact lastTurn_atop routine
    | some op =>
      simp only [Frame.site_raise, Frame.advance_raise, perform_atop]
      cases perform limits frame.site frame.advance stack op with
      | error failure => rfl
      | ok flow =>
        cases flow with
        | proceed frame stack => rfl
        | exit => exact lastTurn_atop routine
        | call callee => exact callTurn_atop callee

/-! ### Executions in step -/

section Lockstep

variable {s t v : State} {caller : Frame} {rest : Stack Frame} {n : Nat}

theorem turn_stateAtop (s : State) (below : Stack Value) (waiting : Stack Frame) :
    turn program (limits.raise waiting.size below.size)
        ((s.atop below waiting).suspended.size + 1) (s.atop below waiting).frame
        (s.atop below waiting).stack =
      (turn program limits (s.suspended.size + 1) s.frame s.stack).atop waiting.size below := by
  have hlive : (s.atop below waiting).suspended.size + 1 = s.suspended.size + 1 + waiting.size :=
    Nat.add_right_comm _ _ _
  rw [hlive]
  exact turn_atop

theorem Next.atop (h : Next program limits s t) (below : Stack Value) (waiting : Stack Frame) :
    Next program (limits.raise waiting.size below.size) (s.atop below waiting)
      (t.atop below waiting) := by
  rw [Next, transition_step, turn_stateAtop]
  rcases h.cases with ⟨frame, stack, hturn, rfl⟩ | ⟨inner, hturn, rfl⟩ |
    ⟨caller, rest, hturn, hpush, rfl⟩
  · rw [hturn]
    rfl
  · rw [hturn]
    simp only [Turn.atop, Turn.apply, State.atop, Stack.map_push, Stack.push_atop,
      Frame.advance_raise]
  · rw [hturn]
    simp only [Turn.atop, Turn.apply, resume, State.atop, hpush, Stack.map_push, Stack.push_atop,
      Stack.pop?_push]

theorem Path.atop (h : Path program limits n s t) (below : Stack Value) (waiting : Stack Frame) :
    Path program (limits.raise waiting.size below.size) n (s.atop below waiting)
      (t.atop below waiting) := by
  induction h with
  | refl s => exact .refl _
  | next first _ ih => exact .next (first.atop below waiting) ih

/-- Where the one fails, the other one does. -/
theorem halt_atop {failure : Failure}
    (h : (step program limits s).transition = .halt (.failed failure)) (below : Stack Value)
    (waiting : Stack Frame) :
    (step program (limits.raise waiting.size below.size) (s.atop below waiting)).transition =
      .halt (.failed (failure.raise waiting.size below.size)) := by
  rw [transition_step, turn_stateAtop]
  rcases halt_cases h with ⟨failure', hturn, houtcome⟩ | ⟨-, -, houtcome⟩
  · cases houtcome
    rw [hturn]
    rfl
  · cases houtcome

/-- Where the one returns, the other one resumes the caller. -/
theorem resume_atop {outputs : List Value}
    (h : (step program limits s).transition = .halt (.returned outputs)) (below : Stack Value)
    (caller : Frame) (rest : Stack Frame) :
    Next program (limits.raise (rest.push caller).size below.size)
      (s.atop below (rest.push caller)) ⟨.ofList (below.toList ++ outputs), caller, rest⟩ := by
  rw [Next, transition_step, turn_stateAtop]
  rcases halt_cases h with ⟨failure, -, houtcome⟩ | ⟨hturn, hempty, houtcome⟩
  · cases houtcome
  · cases houtcome
    rw [hturn, ← Stack.toList_atop, Stack.ofList_toList]
    simp only [Turn.atop, Turn.apply, resume, State.atop, hempty, Stack.map_empty,
      Stack.empty_atop, Stack.pop?_push]

theorem EndsFrom.atop_failed {failure : Failure}
    (h : EndsFrom program limits s (.failed failure)) (below : Stack Value)
    (waiting : Stack Frame) :
    EndsFrom program (limits.raise waiting.size below.size) (s.atop below waiting)
      (.failed (failure.raise waiting.size below.size)) := by
  obtain ⟨n, t, hpath, halt⟩ := h
  exact ⟨n, t.atop below waiting, hpath.atop below waiting, halt_atop halt below waiting⟩

theorem EndsFrom.atop_returned {outputs : List Value}
    (h : EndsFrom program limits s (.returned outputs)) (below : Stack Value) (caller : Frame)
    (rest : Stack Frame) :
    ∃ n, Path program (limits.raise (rest.push caller).size below.size) n
      (s.atop below (rest.push caller)) ⟨.ofList (below.toList ++ outputs), caller, rest⟩ := by
  obtain ⟨n, t, hpath, halt⟩ := h
  exact ⟨n + 1, (hpath.atop below _).append (.single (resume_atop halt below caller rest))⟩

/-- Until the one returns, the other one goes through the same states, and does nothing to what
lies below. -/
theorem Path.atop_cases
    (h : Path program (limits.raise (rest.push caller).size below.size) n
      (s.atop below (rest.push caller)) v) :
    (∃ u, Path program limits n s u ∧ v = u.atop below (rest.push caller)) ∨
    ∃ outputs j, EndsFrom program limits s (.returned outputs) ∧
      Path program (limits.raise (rest.push caller).size below.size) j
        ⟨.ofList (below.toList ++ outputs), caller, rest⟩ v := by
  induction n generalizing s with
  | zero =>
    cases h
    exact .inl ⟨s, .refl s, rfl⟩
  | succ n ih =>
    cases h with
    | next first path =>
      cases hs : (step program limits s).transition with
      | next s' =>
        have hatop := Next.atop hs below (rest.push caller)
        obtain rfl := Transition.next.inj (first.symm.trans hatop)
        rcases ih path with ⟨u, hu, rfl⟩ | ⟨outputs, j, ⟨i, u, hu, halt⟩, hj⟩
        · exact .inl ⟨u, .next hs hu, rfl⟩
        · exact .inr ⟨outputs, j, ⟨i + 1, u, .next hs hu, halt⟩, hj⟩
      | halt outcome =>
        cases outcome with
        | failed failure =>
          have hatop := halt_atop hs below (rest.push caller)
          exact Transition.noConfusion (first.symm.trans hatop)
        | returned outputs =>
          have hatop := resume_atop hs below caller rest
          obtain rfl := Transition.next.inj (first.symm.trans hatop)
          exact .inr ⟨outputs, n, ⟨0, s, .refl s, hs⟩, path⟩

end Lockstep

/-! ### Calls -/

section Calls

variable {s t : State} {entry callee : Nat}

/-- A function that is called is entered on the same stack, and its caller waits. -/
theorem Next.of_call (h : Next program limits s t)
    (hcall : s.op? program = some (.call callee)) :
    ∃ target, program[callee]? = some target ∧
      target.activate callee s.frame.base s.stack = .ok t.frame ∧ t.stack = s.stack ∧
      t.suspended = s.suspended.push s.frame.advance := by
  obtain ⟨routine, hr, hop⟩ := State.op?_eq_some_iff.mp hcall
  rcases h.cases with ⟨frame, stack, hturn, rfl⟩ | ⟨inner, hturn, rfl⟩ | ⟨caller, rest, hturn, -, -⟩
  · obtain ⟨routine', op, hr', hop', hproceeds⟩ := turn_eq_proceed_iff.mp hturn
    obtain rfl := Option.some.inj (hr'.symm.trans hr)
    obtain rfl := Option.some.inj (hop'.symm.trans hop)
    cases hproceeds
  · obtain ⟨-, routine', callee', target, hr', hop', htarget, ha⟩ := turn_eq_call_iff.mp hturn
    obtain rfl := Option.some.inj (hr'.symm.trans hr)
    obtain rfl := Op.call.inj (Option.some.inj (hop'.symm.trans hop))
    exact ⟨target, htarget, ha, rfl, rfl⟩
  · obtain ⟨routine', hr', hop', -⟩ := turn_eq_leave_iff.mp hturn
    obtain rfl := Option.some.inj (hr'.symm.trans hr)
    rw [hop] at hop'
    rcases hop' with hop' | hop' <;> cases hop'

/-- A call that has just been entered is the beginning of a fresh execution, on top of what the
callers left behind. -/
theorem exists_start_of_call (hsound : t.Sound program limits entry)
    (hnext : Next program limits s t) (hcall : s.op? program = some (.call callee)) :
    ∃ first, (start program (limits.lower t.suspended.size t.frame.base) callee
        (t.stack.above t.frame.base)).transition = .next first ∧
      t = first.atop (t.stack.bottom t.frame.base) t.suspended := by
  obtain ⟨target, htarget, ha, hstack, -⟩ := hnext.of_call hcall
  obtain ⟨hslots, hroom, htypes, hframe⟩ := Routine.activate_eq_ok_iff.mp ha
  rw [← hstack] at hroom htypes hframe
  have hbase : t.frame.base = t.stack.size - target.inputs.length := by rw [hframe]; rfl
  have hlength := t.stack.length_above t.frame.base
  have hframes : t.suspended.size + 1 ≤ limits.callDepth := by
    rw [← t.suspended.length_items]
    exact hsound.frames_le
  have hstack_le := hsound.stack_le
  have htop : (Stack.ofList (t.stack.above t.frame.base)).top target.inputs.length =
      t.stack.top target.inputs.length := by
    rw [← Stack.top_atop (t.stack.bottom t.frame.base) (by rw [Stack.size_ofList]; omega),
      Stack.atop_bottom]
  refine ⟨⟨.ofList (t.stack.above t.frame.base), .fresh callee 0 target.slots, .empty⟩,
    start_eq_next_iff.mpr ⟨target, htarget, ?_, ?_, ?_, ?_, hslots, rfl⟩, ?_⟩
  · show _ ≤ limits.stackDepth - t.frame.base
    omega
  · show 0 < limits.callDepth - t.suspended.size
    omega
  · omega
  · rw [htop]
    exact htypes
  · have hraise : (Frame.fresh callee 0 target.slots).raise (t.stack.bottom t.frame.base).size =
        t.frame := by
      rw [Stack.size_bottom hsound.base_le, Frame.raise, hbase, hframe]
      simp only [Frame.fresh, Nat.zero_add]
    rw [State.atop, Stack.atop_bottom, hraise, Stack.map_empty, Stack.empty_atop]

/-- What has been lowered for a sound state can be raised again. -/
theorem State.Sound.raise_lower (h : t.Sound program limits entry) :
    (limits.lower t.suspended.size t.frame.base).raise t.suspended.size
      (t.stack.bottom t.frame.base).size = limits := by
  have hframes : t.suspended.size ≤ limits.callDepth := by
    rw [← t.suspended.length_items]
    exact Nat.le_of_succ_le h.frames_le
  rw [Stack.size_bottom h.base_le]
  exact Limits.raise_lower hframes (Nat.le_trans h.base_le h.stack_le)

end Calls

namespace Machine

variable {m : Machine} {entry callee : Nat} {arguments : List Value} {s t : State}

/-- The machine under the limits that are left for the running frame of a state. -/
def alone (m : Machine) (t : State) : Machine :=
  m.withLimits (m.limits.lower t.suspended.size t.frame.base)

/-- **Calls are local.**  Let `s` call a function, and `t` be the state in which it has just been
entered.  Compare what follows with a fresh execution of the function on its inputs, under the
limits that the waiting frames and the values below its base leave.  If that returns, the caller
goes on after its call, with the outputs on top of what it had below the inputs.  If it fails, so
does the whole execution, in the same way but for the limits in the fault, and if it runs forever,
so does the whole execution.  Until it returns, every state after `t` is one of the fresh
execution, on top of the values and the frames that were there at `t`. -/
theorem call_is_local (hs : m.Reaches entry arguments s)
    (hcall : s.op? m.program = some (.call callee)) (hnext : Next m.program m.limits s t) :
    (∀ outputs, (m.alone t).Ends callee (t.stack.above t.frame.base) (.returned outputs) →
      ∃ n, Path m.program m.limits n t
        ⟨.ofList (t.stack.toList.take t.frame.base ++ outputs), s.frame.advance, s.suspended⟩) ∧
    (∀ failure, (m.alone t).Ends callee (t.stack.above t.frame.base) (.failed failure) →
      m.Ends entry arguments (.failed (failure.raise t.suspended.size t.frame.base))) ∧
    ((m.alone t).RunsForever callee (t.stack.above t.frame.base) →
      m.RunsForever entry arguments) ∧
    ∀ n v, Path m.program m.limits n t v →
      (∃ u, (m.alone t).Reaches callee (t.stack.above t.frame.base) u ∧
        v = u.atop (t.stack.bottom t.frame.base) t.suspended) ∨
      ∃ outputs j, (m.alone t).Ends callee (t.stack.above t.frame.base) (.returned outputs) ∧
        Path m.program m.limits j
          ⟨.ofList (t.stack.toList.take t.frame.base ++ outputs), s.frame.advance, s.suspended⟩
          v := by
  have ht := hs.next hnext
  obtain ⟨first, hstart, hatop⟩ := exists_start_of_call ht.sound hnext hcall
  obtain ⟨-, -, -, -, hsuspended⟩ := hnext.of_call hcall
  have hlimits : (m.alone t).limits.raise t.suspended.size (t.stack.bottom t.frame.base).size =
      m.limits := ht.sound.raise_lower
  rw [← Stack.toList_bottom]
  refine ⟨?_, ?_, ?_, ?_⟩
  · intro outputs hends
    obtain ⟨n, hpath⟩ := ((ends_iff_of_start hstart).mp hends).atop_returned
      (t.stack.bottom t.frame.base) s.frame.advance s.suspended
    rw [← hsuspended, ← hatop, hlimits] at hpath
    exact ⟨n, hpath⟩
  · intro failure hends
    have hfails := ((ends_iff_of_start hstart).mp hends).atop_failed
      (t.stack.bottom t.frame.base) t.suspended
    rw [← hatop, hlimits, Stack.size_bottom ht.sound.base_le] at hfails
    exact ht.ends hfails
  · intro hforever
    refine ht.runsForever ?_
    intro n
    obtain ⟨u, hu⟩ := hforever.exists_path hstart n
    have hpath := hu.atop (t.stack.bottom t.frame.base) t.suspended
    rw [← hatop, hlimits] at hpath
    exact ⟨_, hpath⟩
  · intro n v hv
    have hpath : Path (m.alone t).program
        ((m.alone t).limits.raise (s.suspended.push s.frame.advance).size
          (t.stack.bottom t.frame.base).size) n
        (first.atop (t.stack.bottom t.frame.base) (s.suspended.push s.frame.advance)) v := by
      rw [← hsuspended, ← hatop, hlimits]
      exact hv
    rcases hpath.atop_cases with ⟨u, hu, hvu⟩ | ⟨outputs, j, hends, hj⟩
    · rw [← hsuspended] at hvu
      exact .inl ⟨u, ⟨first, n, hstart, hu⟩, hvu⟩
    · rw [← hsuspended, hlimits] at hj
      exact .inr ⟨outputs, j, (ends_iff_of_start hstart).mpr hends, hj⟩

def helperCalled : State where
  stack := .ofList [.integer 7, .integer 5]
  frame := .fresh 0 0 0
  suspended := .empty

theorem helper_call_is_local :
    squaring.Reaches 0 [.integer 7, .integer 5] helperCalled ∧
      helperCalled.op? squaring.program = some (.call 1) ∧
      Next squaring.program squaring.limits helperCalled helperEntered ∧
      (squaring.alone helperEntered).Ends 1 [.integer 5] (.returned [.integer 25]) ∧
      ∃ n, Path squaring.program squaring.limits n helperEntered
        ⟨.ofList [.integer 7, .integer 25], (Frame.fresh 0 0 0).advance, .empty⟩ := by
  have hreaches : squaring.Reaches 0 [.integer 7, .integer 5] helperCalled :=
    ⟨_, 0, rfl, .refl _⟩
  have hcall : helperCalled.op? squaring.program = some (.call 1) := rfl
  have hnext : Next squaring.program squaring.limits helperCalled helperEntered := rfl
  have hends : (squaring.alone helperEntered).Ends 1 [.integer 5] (.returned [.integer 25]) :=
    ⟨10, rfl⟩
  obtain ⟨hreturns, -⟩ := call_is_local hreaches hcall hnext
  exact ⟨hreaches, hcall, hnext, hends, hreturns [.integer 25] hends⟩

end Machine

end StackMachine
