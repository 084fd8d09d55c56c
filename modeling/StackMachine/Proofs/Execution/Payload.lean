import StackMachine.Proofs.Execution.History
import StackMachine.Proofs.Execution.Lockstep

/-!
# Failures do not depend on payloads

The operators are total: there is a quotient for the divisor zero and a shift for every distance.
So nothing that an execution checks looks at a payload.  It looks at the number of values, at their
types, and at which slots have been set, and the one place where a payload makes a difference is a
branch that is taken or not.  In a program without such branches two executions on arguments of the
same types report the same, and both run forever, fail with the same fault, or return values of the
same types (`Machine.failure_ignores_payloads`).

The two executions go in lockstep.  Their states have the same shape, which is what remains of a
state without its payloads (`State.SameShape`), and each check is of one of two kinds.  Contracts
only see the shape, so they come to the same (`Routine.activate_congr`, `Routine.leave_congr`); an
operation that pops and pushes fails in the same way or ends in the same shape (`Parallel`,
`perform_parallel`).
-/

namespace StackMachine

/-! ### Shapes -/

/-- A frame without the payloads in its slots. -/
structure FrameShape where
  function : Nat
  position : Nat
  slots : Array (Option ValueType)
  base : Nat

def Frame.shape (frame : Frame) : FrameShape where
  function := frame.function
  position := frame.position
  slots := frame.slots.map (Option.map Value.type)
  base := frame.base

def Stack.SameShape (s t : Stack Value) : Prop := s.map Value.type = t.map Value.type

/-- Two states that differ in payloads only. -/
structure State.SameShape (s t : State) : Prop where
  stack : s.stack.SameShape t.stack
  frame : s.frame.shape = t.frame.shape
  suspended : s.suspended.map Frame.shape = t.suspended.map Frame.shape

/-- The same failure, or values of the same types. -/
def Outcome.SameShape : Outcome → Outcome → Prop
  | .returned values, .returned values' => values.map Value.type = values'.map Value.type
  | .failed failure, .failed failure' => failure = failure'
  | _, _ => False

namespace Stack.SameShape

variable {s t : Stack Value}

theorem size_eq (h : s.SameShape t) : s.size = t.size := by
  rw [← s.size_map Value.type, h, size_map]

theorem push (h : s.SameShape t) {v w : Value} (htype : v.type = w.type) :
    (s.push v).SameShape (t.push w) := by
  rw [SameShape, map_push, map_push, htype, h]

theorem top_eq (h : s.SameShape t) (n : Nat) :
    (s.top n).map Value.type = (t.top n).map Value.type := by
  rw [← top_map, h, top_map]

theorem above_eq (h : s.SameShape t) (base : Nat) :
    (s.above base).map Value.type = (t.above base).map Value.type := by
  rw [← above_map, h, above_map]

theorem toList_eq (h : s.SameShape t) :
    s.toList.map Value.type = t.toList.map Value.type := by
  rw [← toList_map, h, toList_map]

theorem ofList {values values' : List Value}
    (h : values.map Value.type = values'.map Value.type) :
    (Stack.ofList values).SameShape (.ofList values') := by
  apply Stack.ext
  rw [items_map, items_map, items_ofList, items_ofList, List.map_reverse, List.map_reverse, h]

end Stack.SameShape

namespace Frame

variable {frame frame' : Frame}

theorem function_eq_of_shape (h : frame.shape = frame'.shape) :
    frame.function = frame'.function :=
  congrArg FrameShape.function h

theorem position_eq_of_shape (h : frame.shape = frame'.shape) :
    frame.position = frame'.position :=
  congrArg FrameShape.position h

theorem base_eq_of_shape (h : frame.shape = frame'.shape) : frame.base = frame'.base :=
  congrArg FrameShape.base h

theorem site_eq_of_shape (h : frame.shape = frame'.shape) : frame.site = frame'.site :=
  congrArg (fun x : FrameShape => Site.mk x.function x.position) h

theorem shape_advance (h : frame.shape = frame'.shape) :
    frame.advance.shape = frame'.advance.shape :=
  congrArg (fun x : FrameShape => { x with position := x.position + 1 }) h

theorem shape_jump (h : frame.shape = frame'.shape) (target : Nat) :
    (frame.jump target).shape = (frame'.jump target).shape :=
  congrArg (fun x : FrameShape => { x with position := target }) h

theorem slots_size_eq_of_shape (h : frame.shape = frame'.shape) :
    frame.slots.size = frame'.slots.size := by
  have hsize := congrArg (fun x : FrameShape => x.slots.size) h
  simpa only [shape, Array.size_map] using hsize

/-- What is in a slot, but for the payload. -/
theorem slot_eq_of_shape (h : frame.shape = frame'.shape) (slot : Nat) :
    frame.slots[slot]?.map (Option.map Value.type) =
      frame'.slots[slot]?.map (Option.map Value.type) := by
  have hslot := congrArg (fun x : FrameShape => x.slots[slot]?) h
  simpa only [shape, Array.getElem?_map] using hslot

theorem shape_set (h : frame.shape = frame'.shape) {slot : Nat} (hslot : slot < frame.slots.size)
    (hslot' : slot < frame'.slots.size) {v w : Value} (htype : v.type = w.type) :
    ({ frame with slots := frame.slots.set slot (some v) hslot } : Frame).shape =
      ({ frame' with slots := frame'.slots.set slot (some w) hslot' } : Frame).shape := by
  simp only [shape, FrameShape.mk.injEq] at h
  obtain ⟨hfunction, hposition, hslots, hbase⟩ := h
  simp only [shape, Array.map_set, Option.map_some, hfunction, hposition, hslots, hbase, htype]

end Frame

/-! ### Contracts see types only -/

theorem mismatchFrom?_congr {values values' : List Value}
    (h : values.map Value.type = values'.map Value.type) (position : Nat)
    (types : List ValueType) :
    mismatchFrom? position types values = mismatchFrom? position types values' := by
  induction types generalizing position values values' with
  | nil => rfl
  | cons type types ih =>
    cases values with
    | nil =>
      obtain rfl := List.map_eq_nil_iff.mp h.symm
      rfl
    | cons v values =>
      cases values' with
      | nil => cases h
      | cons w values' =>
        obtain ⟨htype, hrest⟩ := List.cons.inj h
        rw [mismatchFrom?, mismatchFrom?, htype, ih hrest]

namespace Routine

variable {s t : Stack Value} (r : Routine)

theorem checkInputs_congr (h : s.SameShape t) (function floor : Nat) :
    r.checkInputs function floor s = r.checkInputs function floor t := by
  simp only [checkInputs, h.size_eq, mismatchFrom?_congr (h.top_eq r.inputs.length)]

theorem activate_congr (h : s.SameShape t) (function floor : Nat) :
    r.activate function floor s = r.activate function floor t := by
  simp only [activate, enter, r.checkInputs_congr h, h.size_eq]

theorem entryEvents_congr (h : s.SameShape t) (function floor depth : Nat) :
    r.entryEvents function floor depth s = r.entryEvents function floor depth t := by
  simp only [entryEvents, r.checkInputs_congr h, h.size_eq]

theorem leave_congr (h : s.SameShape t) {frame frame' : Frame}
    (hframe : frame.shape = frame'.shape) : r.leave frame s = r.leave frame' t := by
  simp only [leave, Frame.base_eq_of_shape hframe, Frame.function_eq_of_shape hframe, h.size_eq,
    mismatchFrom?_congr (h.above_eq frame'.base)]

end Routine

/-! ### Operations fail alike -/

/-- Both checks fail in the same way, or both succeed with related results. -/
inductive Parallel {α β : Type} (R : α → β → Prop) :
    Except Failure α → Except Failure β → Prop where
  | ok {a : α} {b : β} (related : R a b) : Parallel R (.ok a) (.ok b)
  | error (failure : Failure) : Parallel R (.error failure) (.error failure)

/-- Checks in sequence are parallel one by one. -/
theorem Parallel.bind {α β γ δ : Type} {R : α → β → Prop} {S : γ → δ → Prop}
    {x : Except Failure α} {y : Except Failure β} {f : α → Except Failure γ}
    {g : β → Except Failure δ} (h : Parallel R x y)
    (hfg : ∀ {a b}, R a b → Parallel S (f a) (g b)) : Parallel S (x >>= f) (y >>= g) := by
  cases h with
  | ok hrelated => exact hfg hrelated
  | error failure => exact .error failure

inductive Flow.SameShape : Flow → Flow → Prop where
  | proceed {frame frame' : Frame} {stack stack' : Stack Value}
      (frame_eq : frame.shape = frame'.shape) (stack_shape : stack.SameShape stack') :
      SameShape (.proceed frame stack) (.proceed frame' stack')
  | call (callee : Nat) : SameShape (.call callee) (.call callee)
  | exit : SameShape .exit .exit

/-- Whether it depends on a value which operation comes next. -/
def Op.isConditional : Op → Bool
  | .branchIf _ _ => true
  | _ => false

section Operations

variable {limits : Limits} {limit base base' : Nat} {site : Site} {s t : Stack Value}
  {frame frame' : Frame}

theorem popAbove_parallel (hbase : base = base') (h : s.SameShape t) :
    Parallel (fun x y => x.1.type = y.1.type ∧ x.2.SameShape y.2) (popAbove site base s)
      (popAbove site base' t) := by
  subst hbase
  rcases Stack.cases_of_map_eq h with ⟨rfl, rfl⟩ | ⟨v, w, s, t, rfl, rfl, htype, hrest⟩
  · exact .error _
  · have hsize : s.size = t.size := Stack.SameShape.size_eq hrest
    rw [popAbove_push, popAbove_push, hsize]
    by_cases hbase : base ≤ t.size
    · rw [if_pos hbase, if_pos hbase]
      exact .ok ⟨htype, hrest⟩
    · rw [if_neg hbase, if_neg hbase]
      exact .error _

/-- The payload that is popped may be any. -/
theorem popTyped_parallel (hbase : base = base') (h : s.SameShape t) (type : ValueType) :
    Parallel (fun x y => x.2.SameShape y.2) (popTyped type site base s)
      (popTyped type site base' t) := by
  refine (popAbove_parallel hbase h).bind ?_
  rintro ⟨v, s⟩ ⟨w, t⟩ ⟨htype, hrest⟩
  obtain htype : v.type = w.type := htype
  cases hv : v.as? type with
  | none =>
    have hw : w.as? type = none := by
      rw [Value.as?_eq_none_iff, ← htype]
      exact Value.as?_eq_none_iff.mp hv
    simp only [hv, hw, htype]
    exact .error _
  | some x =>
    obtain ⟨y, hy⟩ : ∃ y, w.as? type = some y := by
      rw [← Option.ne_none_iff_exists', Ne, Value.as?_eq_none_iff, ← htype,
        ← Value.as?_eq_none_iff, hv]
      exact Option.some_ne_none x
    simp only [hv, hy]
    exact .ok hrest

theorem pushBelow_parallel (h : s.SameShape t) {v w : Value} (htype : v.type = w.type) :
    Parallel Stack.SameShape (pushBelow limit site v s) (pushBelow limit site w t) := by
  unfold pushBelow
  rw [h.size_eq]
  by_cases hroom : t.size < limit
  · rw [if_pos hroom, if_pos hroom]
    exact .ok (h.push htype)
  · rw [if_neg hroom, if_neg hroom]
    exact .error _

/-- **An operation that does not branch on a value fails in the same way whatever the values, or
leads to the same shape.** -/
theorem perform_parallel {op : Op} (hop : op.isConditional = false)
    (hframe : frame.shape = frame'.shape) (h : s.SameShape t) :
    Parallel Flow.SameShape (perform limits site frame s op)
      (perform limits site frame' t op) := by
  have hbase := Frame.base_eq_of_shape hframe
  cases op with
  | load slot =>
    have hslot := Frame.slot_eq_of_shape hframe slot
    simp only [perform]
    cases hv : frame.slots[slot]? with
    | none =>
      rw [hv, Option.map_none, eq_comm, Option.map_eq_none_iff] at hslot
      simp only [hslot]
      exact .error _
    | some content =>
      rw [hv, Option.map_some, eq_comm, Option.map_eq_some_iff] at hslot
      obtain ⟨content', hw, htypes⟩ := hslot
      cases content with
      | none =>
        obtain rfl := Option.map_eq_none_iff.mp htypes
        simp only [hw]
        exact .error _
      | some v =>
        obtain ⟨w, rfl, htype⟩ := Option.map_eq_some_iff.mp htypes
        simp only [hw]
        exact (pushBelow_parallel h htype.symm).bind fun hpushed => .ok (.proceed hframe hpushed)
  | store slot =>
    refine (popAbove_parallel hbase h).bind ?_
    rintro ⟨v, s⟩ ⟨w, t⟩ ⟨htype, hrest⟩
    have hsize := Frame.slots_size_eq_of_shape hframe
    by_cases hslot : slot < frame.slots.size
    · have hslot' : slot < frame'.slots.size := hsize ▸ hslot
      simp only [dif_pos hslot, dif_pos hslot']
      exact .ok (.proceed (Frame.shape_set hframe hslot hslot' htype) hrest)
    · have hslot' : ¬ slot < frame'.slots.size := hsize ▸ hslot
      simp only [dif_neg hslot, dif_neg hslot']
      exact .error _
  | call callee => exact .ok (.call callee)
  | exit => exact .ok .exit
  | branch target => exact .ok (.proceed (Frame.shape_jump hframe target) h)
  | branchIf flag target => cases hop
  | push value =>
    exact (pushBelow_parallel h rfl).bind fun hpushed => .ok (.proceed hframe hpushed)
  | unary o =>
    refine (popTyped_parallel hbase h o.type).bind ?_
    rintro ⟨a, s⟩ ⟨b, t⟩ hrest
    -- an operator applies to every payload, and the type of its result is its own
    have htype : (Value.of o.type (o.apply a)).type = (Value.of o.type (o.apply b)).type := by
      rw [Value.type_of, Value.type_of]
    exact (pushBelow_parallel hrest htype).bind fun hpushed => .ok (.proceed hframe hpushed)
  | binary o =>
    refine (popTyped_parallel hbase h o.operandType).bind ?_
    rintro ⟨b, s⟩ ⟨b', t⟩ hupper
    refine (popTyped_parallel hbase hupper o.operandType).bind ?_
    rintro ⟨a, s⟩ ⟨a', t⟩ hrest
    have htype : (Value.of o.resultType (o.apply a b)).type =
        (Value.of o.resultType (o.apply a' b')).type := by
      rw [Value.type_of, Value.type_of]
    exact (pushBelow_parallel hrest htype).bind fun hpushed => .ok (.proceed hframe hpushed)

end Operations

/-! ### Executions in lockstep -/

def Program.Unconditional (program : Program) : Prop :=
  ∀ r ∈ program, ∀ op ∈ r.ops, op.isConditional = false

instance (program : Program) : Decidable program.Unconditional :=
  inferInstanceAs (Decidable (∀ r ∈ program, ∀ op ∈ r.ops, op.isConditional = false))

inductive Turn.SameShape : Turn → Turn → Prop where
  | fail (failure : Failure) : SameShape (.fail failure) (.fail failure)
  | proceed {frame frame' : Frame} {stack stack' : Stack Value}
      (frame_eq : frame.shape = frame'.shape) (stack_shape : stack.SameShape stack') :
      SameShape (.proceed frame stack) (.proceed frame' stack')
  | call (inner : Frame) : SameShape (.call inner) (.call inner)
  | leave : SameShape .leave .leave

theorem Turn.SameShape.refl (x : Turn) : x.SameShape x := by
  cases x with
  | fail failure => exact .fail failure
  | proceed frame stack => exact .proceed rfl rfl
  | call inner => exact .call inner
  | leave => exact .leave

section Steps

variable {program : Program} {limits : Limits} {live : Nat} {frame frame' : Frame}
  {stack stack' : Stack Value} {s t : State}

theorem lastTurn_congr (r : Routine) (hframe : frame.shape = frame'.shape)
    (h : stack.SameShape stack') : r.lastTurn frame stack = r.lastTurn frame' stack' := by
  rw [Routine.lastTurn, r.leave_congr h hframe, Routine.lastTurn]

theorem callTurn_congr (hframe : frame.shape = frame'.shape) (h : stack.SameShape stack')
    (callee : Nat) :
    callTurn program limits live frame stack callee =
      callTurn program limits live frame' stack' callee := by
  simp only [callTurn, Frame.base_eq_of_shape hframe, Frame.site_eq_of_shape hframe,
    Routine.activate_congr _ h]

theorem turn_sameShape (hprogram : program.Unconditional) (hframe : frame.shape = frame'.shape)
    (h : stack.SameShape stack') :
    (turn program limits live frame stack).SameShape (turn program limits live frame' stack') := by
  simp only [turn, Frame.function_eq_of_shape hframe, Frame.position_eq_of_shape hframe,
    Frame.site_eq_of_shape hframe]
  cases hr : program[frame'.function]? with
  | none => exact .fail _
  | some routine =>
    simp only
    cases hop : routine.ops[frame'.position]? with
    | none =>
      simp only [lastTurn_congr routine hframe h]
      exact .refl _
    | some op =>
      have hcond := hprogram routine (Array.mem_of_getElem? hr) op (Array.mem_of_getElem? hop)
      have hperform : Parallel Flow.SameShape (perform limits frame'.site frame.advance stack op)
          (perform limits frame'.site frame'.advance stack' op) :=
        perform_parallel hcond (Frame.shape_advance hframe) h
      simp only
      -- from here on only the relation between the two results counts
      generalize perform limits frame'.site frame.advance stack op = x at hperform ⊢
      generalize perform limits frame'.site frame'.advance stack' op = y at hperform ⊢
      cases hperform with
      | error failure => exact .fail failure
      | ok hflow =>
        cases hflow with
        | proceed hframe hstack => exact .proceed hframe hstack
        | exit =>
          simp only [lastTurn_congr routine hframe h]
          exact .refl _
        | call callee =>
          simp only [callTurn_congr hframe h]
          exact .refl _

theorem State.SameShape.depth_eq (h : s.SameShape t) : s.suspended.size = t.suspended.size := by
  rw [← s.suspended.size_map Frame.shape, h.suspended, Stack.size_map]

theorem State.SameShape.op?_eq (h : s.SameShape t) : s.op? program = t.op? program := by
  rw [op?, Frame.function_eq_of_shape h.frame, Frame.position_eq_of_shape h.frame, op?]

theorem State.SameShape.calleeEvents_eq (h : s.SameShape t) :
    s.calleeEvents program = t.calleeEvents program := by
  simp only [calleeEvents, h.op?_eq, h.depth_eq, Frame.base_eq_of_shape h.frame,
    Routine.entryEvents_congr _ h.stack]

namespace Turn.SameShape

variable {x y : Turn}

theorem report_eq (hturn : x.SameShape y) (h : s.SameShape t) :
    x.report program s = y.report program t := by
  cases hturn with
  | fail failure =>
    cases failure with
    | fault fault => rfl
    | stuck => exact h.calleeEvents_eq
  | proceed => rfl
  | call => simp only [report, h.depth_eq]
  | leave => simp only [report, Frame.function_eq_of_shape h.frame]

theorem apply_alike (hturn : x.SameShape y) (h : s.SameShape t) :
    (x.apply s).Alike State.SameShape Outcome.SameShape (y.apply t) := by
  cases hturn with
  | fail failure => exact .halt rfl
  | proceed hframe hstack => exact .next ⟨hstack, hframe, h.suspended⟩
  | call inner =>
    refine .next ⟨h.stack, rfl, ?_⟩
    rw [Stack.map_push, Stack.map_push, h.suspended, Frame.shape_advance h.frame]
  | leave =>
    simp only [Turn.apply, resume]
    rcases Stack.cases_of_map_eq h.suspended with
      ⟨hs, ht⟩ | ⟨caller, caller', rest, rest', hs, ht, hcaller, hrest⟩
    · rw [hs, ht]
      exact .halt h.stack.toList_eq
    · rw [hs, ht]
      exact .next ⟨h.stack, hcaller, hrest⟩

end Turn.SameShape

/-- **What a step keeps.** -/
theorem step_sameShape (hprogram : program.Unconditional) (h : s.SameShape t) :
    (step program limits s).Alike State.SameShape Outcome.SameShape (step program limits t) := by
  have hturn : (turn program limits (t.suspended.size + 1) s.frame s.stack).SameShape
      (turn program limits (t.suspended.size + 1) t.frame t.stack) :=
    turn_sameShape hprogram h.frame h.stack
  refine ⟨?_, ?_⟩
  · rw [events_step, events_step, h.op?_eq, Frame.site_eq_of_shape h.frame, h.depth_eq,
      hturn.report_eq h]
  · rw [transition_step, transition_step, h.depth_eq]
    exact hturn.apply_alike h

theorem start_sameShape {arguments arguments' : List Value}
    (h : arguments.map Value.type = arguments'.map Value.type) (entry : Nat) :
    (start program limits entry arguments).Alike State.SameShape Outcome.SameShape
      (start program limits entry arguments') := by
  have hlength : arguments.length = arguments'.length := by
    simpa only [List.length_map] using congrArg List.length h
  have hstack : (Stack.ofList arguments).SameShape (.ofList arguments') := .ofList h
  simp only [start, hlength, Routine.activate_congr _ hstack, Routine.entryEvents_congr _ hstack]
  cases program[entry]? with
  | none => exact ⟨rfl, .halt rfl⟩
  | some routine =>
    simp only
    split
    · exact ⟨rfl, .halt rfl⟩
    split
    · exact ⟨rfl, .halt rfl⟩
    cases routine.activate entry 0 (.ofList arguments') with
    | error failure => exact ⟨rfl, .halt rfl⟩
    | ok frame => exact ⟨rfl, .next ⟨hstack, rfl, rfl⟩⟩

end Steps

namespace Machine

variable {m : Machine} {arguments arguments' : List Value}

/-- **Failures do not depend on payloads.**  Let no operation of a program branch on a value.  Then
two executions of a function on arguments of the same types report the same, after any number of
steps, and both run forever, or both fail with the same fault, or both return values of the same
types.  If the slots of some function do not fit into memory, both may also get stuck over it. -/
theorem failure_ignores_payloads (hprogram : m.program.Unconditional) (entry : Nat)
    (htypes : arguments.map Value.type = arguments'.map Value.type) :
    (∀ fuel, (m.trace fuel entry arguments).1 = (m.trace fuel entry arguments').1) ∧
    ((m.RunsForever entry arguments ∧ m.RunsForever entry arguments') ∨
      (∃ fault, m.Ends entry arguments (.failed (.fault fault)) ∧
        m.Ends entry arguments' (.failed (.fault fault))) ∨
      ((∃ r ∈ m.program, Frame.slotLimit ≤ r.slots) ∧
        m.Ends entry arguments (.failed .stuck) ∧ m.Ends entry arguments' (.failed .stuck)) ∨
      ∃ values values', m.Ends entry arguments (.returned values) ∧
        m.Ends entry arguments' (.returned values') ∧
        values.map Value.type = values'.map Value.type) := by
  have hstart : (start m.program m.limits entry arguments).Alike State.SameShape
      Outcome.SameShape (start m.program m.limits entry arguments') :=
    start_sameShape htypes entry
  have hcall : ∀ fuel, Option.Rel Outcome.SameShape (m.call fuel entry arguments)
      (m.call fuel entry arguments') :=
    run_alike (fun h => (step_sameShape hprogram h).transition) hstart.transition
  refine ⟨record_alike (step_sameShape hprogram) hstart #[], ?_⟩
  by_cases hforever : m.RunsForever entry arguments
  · exact .inl ⟨hforever, (runsForever_iff_of_alike hcall).mp hforever⟩
  obtain ⟨outcome, hends⟩ : ∃ outcome, m.Ends entry arguments outcome := by
    rw [runsForever_iff] at hforever
    exact not_forall_not.mp hforever
  obtain ⟨outcome', hshape, hends'⟩ := hends.exists_alike hcall
  cases outcome with
  | failed failure =>
    cases outcome' with
    | returned values' => exact hshape.elim
    | failed failure' =>
      obtain rfl : failure = failure' := hshape
      cases failure with
      | fault fault => exact .inr (.inl ⟨fault, hends, hends'⟩)
      | stuck => exact .inr (.inr (.inl ⟨hends.exists_slotLimit_le, hends, hends'⟩))
  | returned values =>
    cases outcome' with
    | failed failure' => exact hshape.elim
    | returned values' => exact .inr (.inr (.inr ⟨values, values', hends, hends', hshape⟩))

/-- A machine that shifts its first argument by the quotient of the other two. -/
def shifting : Machine where
  definitions :=
    [.ofOps [.call 1, .binary (.integer .shiftLeft)] [.integer, .integer, .integer] [.integer] 0,
      .ofOps [.binary (.integer .divide)] [.integer, .integer] [.integer] 0]
  program :=
    #[{ ops := #[.call 1, .binary (.integer .shiftLeft)],
        inputs := [.integer, .integer, .integer], outputs := [.integer], slots := 0 },
      { ops := #[.binary (.integer .divide)],
        inputs := [.integer, .integer], outputs := [.integer], slots := 0 }]
  validated := rfl

/-- Neither a quotient that overflows nor a negative distance makes it fail. -/
theorem shifting_ignores_overflow :
    shifting.program.Unconditional ∧
      shifting.Ends 0 [.integer 1, .integer 6, .integer 2] (.returned [.integer 8]) ∧
      (∀ fuel, (shifting.trace fuel 0 [.integer 1, .integer 6, .integer 2]).1 =
        (shifting.trace fuel 0 [.integer 1, .integer Int64.minValue, .integer (-1)]).1) ∧
      ∃ values, shifting.Ends 0 [.integer 1, .integer Int64.minValue, .integer (-1)]
        (.returned values) ∧ values.map Value.type = [.integer] := by
  have hprogram : shifting.program.Unconditional := by decide
  have hends : shifting.Ends 0 [.integer 1, .integer 6, .integer 2] (.returned [.integer 8]) :=
    ⟨10, rfl⟩
  have htypes : [Value.integer 1, .integer 6, .integer 2].map Value.type =
      [Value.integer 1, .integer Int64.minValue, .integer (-1)].map Value.type := rfl
  obtain ⟨hlog, hcases⟩ := failure_ignores_payloads hprogram 0 htypes
  rcases hcases with ⟨hforever, -⟩ | ⟨fault, hfails, -⟩ | ⟨-, hstuck, -⟩ |
    ⟨values, values', hreturns, hreturns', hvalues⟩
  · exact absurd hends (runsForever_iff.mp hforever _)
  · cases hends.unique hfails
  · cases hends.unique hstuck
  · cases hends.unique hreturns
    exact ⟨hprogram, hends, hlog, values', hreturns', hvalues.symm⟩

end Machine

end StackMachine
