import Mathlib.Data.List.Chain
import StackMachine.Catalog.Programs
import StackMachine.Proofs.Execution.Path
import StackMachine.Proofs.Validation.Acceptance

/-!
# The invariant of an execution

The engine checks again nothing that validation has checked: it looks up functions, slots and the
values above a base as if they were there.  That they are follows from an invariant, `State.Sound`,
which holds when an execution starts and is kept by every step:

* each live frame has a function of the program, the slots of that function, and a position in its
  code or at its end;
* each suspended frame stands right after a call of the function of the frame above it;
* the frame at the bottom belongs to the function that the execution started with and has base
  zero, bases never decrease from there up, and the base of the running frame lies on the stack;
* the stack and the live frames keep the limits.

A sound state only refers to what is there (`State.Sound.inRange`).  The one thing that is missing
from the invariant is memory: validation does not count slots, so such a state can still get stuck,
but only where it calls a function whose slots do not fit (`State.InRange.turn_eq_stuck_iff`).  The
result for executions is `Machine.execution_stays_in_range`, and `Machine.hoarding_gets_stuck` is an
execution of the other kind.
-/

namespace StackMachine

/-! ### Sound states -/

def Frame.Fits (program : Program) (frame : Frame) : Prop :=
  ∃ routine, program[frame.function]? = some routine ∧ frame.slots.size = routine.slots ∧
    frame.position ≤ routine.ops.size

/-- A frame waits for the one above it. -/
structure Frame.Awaits (program : Program) (below above : Frame) : Prop where
  /-- It stands right after a call of the function of the other. -/
  call : ∃ routine position, program[below.function]? = some routine ∧
    below.position = position + 1 ∧ routine.ops[position]? = some (.call above.function)
  base_le : below.base ≤ above.base

namespace State

/-- The live frames, the running one first. -/
def frames (s : State) : List Frame := s.frame :: s.suspended.items

theorem length_frames (s : State) : s.frames.length = s.suspended.size + 1 :=
  congrArg (· + 1) s.suspended.length_items

/-- A state that an execution of the function `entry` may be in. -/
structure Sound (program : Program) (limits : Limits) (entry : Nat) (s : State) : Prop where
  fits : ∀ frame ∈ s.frames, frame.Fits program
  awaits : s.frames.IsChain fun above below => below.Awaits program above
  first : ∃ frame, s.frames.getLast? = some frame ∧ frame.function = entry ∧ frame.base = 0
  base_le : s.frame.base ≤ s.stack.size
  stack_le : s.stack.size ≤ limits.stackDepth
  frames_le : s.frames.length ≤ limits.callDepth

def op? (program : Program) (s : State) : Option Op :=
  program[s.frame.function]?.bind fun routine => routine.ops[s.frame.position]?

/-- Everything that the next step looks up without checking is there. -/
structure InRange (program : Program) (s : State) : Prop where
  function : s.frame.function < program.size
  slot : ∀ slot, s.op? program = some (.load slot) ∨ s.op? program = some (.store slot) →
    slot < s.frame.slots.size
  callee : ∀ callee, s.op? program = some (.call callee) → callee < program.size
  /-- The values of the running frame lie on the stack. -/
  base : s.frame.base ≤ s.stack.size
  /-- So do the inputs of a function that is called, once they have been counted. -/
  inputs : ∀ callee target, s.op? program = some (.call callee) →
    program[callee]? = some target → target.inputs.length ≤ s.stack.size - s.frame.base →
    target.inputs.length ≤ s.stack.size

theorem op?_eq_some_iff {program : Program} {s : State} {op : Op} :
    s.op? program = some op ↔ ∃ routine, program[s.frame.function]? = some routine ∧
      routine.ops[s.frame.position]? = some op :=
  Option.bind_eq_some_iff

end State

/-! ### One step keeps a state sound -/

variable {program : Program} {limits : Limits} {entry live : Nat} {s t : State}
  {frame caller inner : Frame} {stack : Stack Value} {suspended : Stack Frame}

/-- What a frame waits for is an invocation of a function, however far it has got. -/
theorem Frame.Awaits.congr (h : caller.Awaits program frame)
    (hfunction : inner.function = frame.function) (hbase : inner.base = frame.base) :
    caller.Awaits program inner := by
  refine ⟨?_, ?_⟩
  · rw [hfunction]
    exact h.call
  · rw [hbase]
    exact h.base_le

namespace State.Sound

/-- The running invocation goes on, with its values and its slots changed. -/
theorem proceed (h : s.Sound program limits entry) (hfunction : frame.function = s.frame.function)
    (hbase : frame.base = s.frame.base) (hfits : frame.Fits program)
    (hle : frame.base ≤ stack.size) (hsize : stack.size ≤ limits.stackDepth) :
    Sound program limits entry ⟨stack, frame, s.suspended⟩ where
  fits := by
    intro f hf
    rcases List.mem_cons.mp hf with rfl | hf
    · exact hfits
    · exact h.fits f (List.mem_cons_of_mem _ hf)
  awaits := by
    have hchain := List.isChain_cons.mp h.awaits
    refine List.isChain_cons.mpr ⟨?_, hchain.2⟩
    intro below hbelow
    exact (hchain.1 below hbelow).congr hfunction hbase
  first := by
    obtain ⟨f, hlast, hentry, hzero⟩ := h.first
    simp only [frames] at hlast ⊢
    cases hitems : s.suspended.items with
    | nil =>
      rw [hitems] at hlast
      obtain rfl : s.frame = f := Option.some.inj hlast
      exact ⟨frame, rfl, hfunction.trans hentry, hbase.trans hzero⟩
    | cons below rest =>
      rw [hitems] at hlast
      rw [List.getLast?_cons_cons] at hlast ⊢
      exact ⟨f, hlast, hentry, hzero⟩
  base_le := hle
  stack_le := hsize
  frames_le := h.frames_le

/-- A function is entered. -/
theorem call (h : Sound program limits entry ⟨stack, caller, suspended⟩)
    (hfits : inner.Fits program) (hawaits : caller.Awaits program inner)
    (hle : inner.base ≤ stack.size) (hdepth : suspended.size + 1 < limits.callDepth) :
    Sound program limits entry ⟨stack, inner, suspended.push caller⟩ where
  fits := by
    intro f hf
    rcases List.mem_cons.mp hf with rfl | hf
    · exact hfits
    · exact h.fits f hf
  awaits := List.isChain_cons_cons.mpr ⟨hawaits, h.awaits⟩
  first := by
    obtain ⟨f, hlast, hf⟩ := h.first
    exact ⟨f, List.getLast?_cons_cons.trans hlast, hf⟩
  base_le := hle
  stack_le := h.stack_le
  frames_le := by
    have hlength := suspended.length_items
    simp only [frames, Stack.items_push, List.length_cons]
    omega

/-- The running function is left, and its caller goes on. -/
theorem leave (h : Sound program limits entry ⟨stack, frame, suspended.push caller⟩) :
    Sound program limits entry ⟨stack, caller, suspended⟩ where
  fits := fun f hf => h.fits f (List.mem_cons_of_mem _ hf)
  awaits := (List.isChain_cons_cons.mp h.awaits).2
  first := by
    obtain ⟨f, hlast, hf⟩ := h.first
    exact ⟨f, List.getLast?_cons_cons.symm.trans hlast, hf⟩
  base_le := Nat.le_trans (List.isChain_cons_cons.mp h.awaits).1.base_le h.base_le
  stack_le := h.stack_le
  frames_le := Nat.le_of_succ_le h.frames_le

end State.Sound

/-- In sound code the position after an operation, and where it branches to, are in the code or at
its end. -/
theorem Proceeds.position_le (hprogram : program.Sound) {routine : Routine} {op : Op}
    {stack' : Stack Value} (hr : program[s.frame.function]? = some routine)
    (hop : routine.ops[s.frame.position]? = some op)
    (h : Proceeds limits s.frame.advance op s.stack frame stack') :
    frame.position ≤ routine.ops.size := by
  have hlt : s.frame.position < routine.ops.size := (Array.getElem?_eq_some_iff.mp hop).1
  have hscope := (hprogram hr).2 hop
  rcases h.position_eq with hposition | rfl | ⟨flag, rfl⟩
  · rw [hposition]
    exact hlt
  · exact Nat.le_of_lt hscope.1
  · exact Nat.le_of_lt hscope.1

namespace State.Sound

/-- A frame that an operation of its function has been fetched for, moved past it. -/
theorem advance_fits (h : s.Sound program limits entry) {routine : Routine} {op : Op}
    (hr : program[s.frame.function]? = some routine)
    (hop : routine.ops[s.frame.position]? = some op) : s.frame.advance.Fits program := by
  obtain ⟨routine', hr', hslots, -⟩ := h.fits s.frame List.mem_cons_self
  obtain rfl := Option.some.inj (hr'.symm.trans hr)
  exact ⟨routine', hr, hslots, (Array.getElem?_eq_some_iff.mp hop).1⟩

/-- **What a step keeps.** -/
theorem next (hprogram : program.Sound) (h : s.Sound program limits entry)
    (hnext : Next program limits s t) : t.Sound program limits entry := by
  rcases hnext.cases with ⟨frame, stack, hturn, rfl⟩ | ⟨inner, hturn, rfl⟩ |
    ⟨caller, rest, -, hpush, rfl⟩
  · obtain ⟨routine, op, hr, hop, hp⟩ := turn_eq_proceed_iff.mp hturn
    obtain ⟨hfunction, hbase, hslots⟩ := hp.frame_eq
    obtain ⟨routine', hr', hsize, -⟩ := h.advance_fits hr hop
    obtain rfl := Option.some.inj (hr'.symm.trans hr)
    have hfits : frame.Fits program := by
      refine ⟨routine', ?_, hslots.trans hsize, hp.position_le hprogram hr hop⟩
      rw [hfunction]
      exact hr
    refine h.proceed hfunction hbase hfits ?_ (hp.size_le h.stack_le)
    rw [hbase]
    exact hp.base_le h.base_le
  · obtain ⟨hlive, routine, callee, target, hr, hop, htarget, ha⟩ := turn_eq_call_iff.mp hturn
    obtain ⟨-, hroom, -, rfl⟩ := Routine.activate_eq_ok_iff.mp ha
    have hcaller : Sound program limits entry ⟨s.stack, s.frame.advance, s.suspended⟩ :=
      h.proceed rfl rfl (h.advance_fits hr hop) h.base_le h.stack_le
    have hfits : (Frame.fresh callee (s.stack.size - target.inputs.length) target.slots).Fits
        program := ⟨target, htarget, Array.size_replicate, Nat.zero_le _⟩
    refine hcaller.call hfits ⟨⟨routine, s.frame.position, hr, rfl, hop⟩, ?_⟩ (Nat.sub_le _ _) hlive
    show s.frame.base ≤ s.stack.size - target.inputs.length
    omega
  · obtain ⟨stack, frame, suspended⟩ := s
    obtain rfl : suspended = rest.push caller := hpush
    exact h.leave

theorem start {arguments : List Value}
    (h : (start program limits entry arguments).transition = .next s) :
    s.Sound program limits entry := by
  obtain ⟨routine, hr, hstack, hdepth, -, -, -, rfl⟩ := start_eq_next_iff.mp h
  refine ⟨?_, ?_, ?_, ?_, ?_, ?_⟩
  · intro f hf
    obtain rfl := List.mem_singleton.mp hf
    exact ⟨routine, hr, Array.size_replicate, Nat.zero_le _⟩
  · exact List.isChain_singleton _
  · exact ⟨_, rfl, rfl, rfl⟩
  · exact Nat.zero_le _
  · exact hstack
  · exact hdepth

end State.Sound

/-- **What a whole execution keeps.** -/
theorem Machine.Reaches.sound {m : Machine} {arguments : List Value}
    (h : m.Reaches entry arguments s) : s.Sound m.program m.limits entry := by
  obtain ⟨first, n, hstart, hpath⟩ := h
  have hprogram : m.program.Sound := validate_sound m.validated
  exact hpath.preserves (fun hs hnext => hs.next hprogram hnext) (.start hstart)

/-! ### Where a sound state gets stuck -/

namespace State

theorem Sound.inRange (hprogram : program.Sound) (h : s.Sound program limits entry) :
    s.InRange program := by
  obtain ⟨routine, hr, hslots, -⟩ := h.fits s.frame List.mem_cons_self
  have hscope : ∀ {op}, s.op? program = some op →
      op.InScope ⟨s.frame.function, routine.ops.size, routine.slots, program.size⟩
        s.frame.position := by
    intro op hop
    obtain ⟨routine', hr', hop⟩ := op?_eq_some_iff.mp hop
    obtain rfl := Option.some.inj (hr'.symm.trans hr)
    exact (hprogram hr).2 hop
  refine ⟨(Array.getElem?_eq_some_iff.mp hr).1, ?_, ?_, h.base_le, ?_⟩
  · intro slot hop
    rw [hslots]
    rcases hop with hop | hop
    · exact hscope hop
    · exact hscope hop
  · intro callee hop
    exact hscope hop
  · intro callee target _ _ hcount
    exact Nat.le_trans hcount (Nat.sub_le _ _)

theorem InRange.lastTurn_ne_stuck (h : s.InRange program) (routine : Routine) :
    routine.lastTurn s.frame s.stack ≠ .fail .stuck := by
  simp only [Routine.lastTurn]
  cases hl : routine.leave s.frame s.stack with
  | ok u => simp
  | error failure =>
    intro hstuck
    cases hstuck
    exact Routine.leave_ne_stuck h.base hl

theorem callTurn_eq_stuck_iff {callee : Nat} {target : Routine}
    (htarget : program[callee]? = some target) :
    callTurn program limits live s.frame s.stack callee = .fail .stuck ↔
      live < limits.callDepth ∧ target.activate callee s.frame.base s.stack = .error .stuck := by
  simp only [callTurn, htarget]
  by_cases hdepth : limits.callDepth < live + 1
  · rw [if_pos hdepth]
    simp only [Turn.fail.injEq, reduceCtorEq, false_iff, not_and]
    omega
  · rw [if_neg hdepth]
    have hlive : live < limits.callDepth := by omega
    cases target.activate callee s.frame.base s.stack <;> simp [hlive]

/-- If everything that a step looks up is there, only a function that is called can get it stuck. -/
theorem InRange.turn_eq_stuck_iff (h : s.InRange program) :
    turn program limits live s.frame s.stack = .fail .stuck ↔
      live < limits.callDepth ∧ ∃ callee target, s.op? program = some (.call callee) ∧
        program[callee]? = some target ∧
        target.activate callee s.frame.base s.stack = .error .stuck := by
  obtain ⟨routine, hr⟩ : ∃ routine, program[s.frame.function]? = some routine :=
    ⟨_, Array.getElem?_eq_getElem h.function⟩
  have hop? : s.op? program = routine.ops[s.frame.position]? := by
    rw [op?, hr, Option.bind_some]
  constructor
  · intro hstuck
    simp only [turn, hr] at hstuck
    cases hop : routine.ops[s.frame.position]? with
    | none =>
      rw [hop] at hstuck
      exact absurd hstuck (h.lastTurn_ne_stuck routine)
    | some op =>
      rw [hop] at hop? hstuck
      simp only at hstuck
      split at hstuck
      · rename_i failure hp
        cases hstuck
        refine absurd hp (perform_ne_stuck fun slot hslot => h.slot slot ?_)
        rcases hslot with rfl | rfl
        · exact .inl hop?
        · exact .inr hop?
      · cases hstuck
      · exact absurd hstuck (h.lastTurn_ne_stuck routine)
      · rename_i callee hp
        obtain rfl := perform_eq_call_iff.mp hp
        obtain ⟨target, htarget⟩ : ∃ target, program[callee]? = some target :=
          ⟨_, Array.getElem?_eq_getElem (h.callee callee hop?)⟩
        obtain ⟨hlive, ha⟩ := (callTurn_eq_stuck_iff htarget).mp hstuck
        exact ⟨hlive, callee, target, hop?, htarget, ha⟩
  · rintro ⟨hlive, callee, target, hop, htarget, ha⟩
    simp only [turn, hr, ← hop?, hop, perform]
    exact (callTurn_eq_stuck_iff htarget).mpr ⟨hlive, ha⟩

end State

namespace Machine

theorem Reaches.inRange {m : Machine} {arguments : List Value} (h : m.Reaches entry arguments s) :
    s.InRange m.program :=
  h.sound.inRange (validate_sound m.validated)

/-- What gets stuck has come to a function whose slots do not fit into memory. -/
theorem Ends.exists_slotLimit_le {m : Machine} {arguments : List Value}
    (h : m.Ends entry arguments (.failed .stuck)) :
    ∃ r ∈ m.program, Frame.slotLimit ≤ r.slots := by
  rcases h.cases with hstart | ⟨s, hs, halt⟩
  · obtain ⟨routine, hr, -, -, ha⟩ := start_eq_stuck_iff.mp hstart
    obtain ⟨hslots, -⟩ := (Routine.activate_eq_stuck_iff (Nat.zero_le _)).mp ha
    exact ⟨routine, Array.mem_of_getElem? hr, hslots⟩
  · rcases halt_cases halt with ⟨failure, hturn, houtcome⟩ | ⟨-, -, houtcome⟩
    · cases houtcome
      obtain ⟨-, callee, target, -, htarget, ha⟩ := hs.inRange.turn_eq_stuck_iff.mp hturn
      obtain ⟨hslots, -⟩ := (Routine.activate_eq_stuck_iff hs.inRange.base).mp ha
      exact ⟨target, Array.mem_of_getElem? htarget, hslots⟩
    · cases houtcome

/-- There are arguments of any types. -/
theorem exists_arguments (types : List ValueType) :
    ∃ arguments : List Value, arguments.map Value.type = types := by
  induction types with
  | nil => exact ⟨[], rfl⟩
  | cons t types ih =>
    obtain ⟨arguments, rfl⟩ := ih
    cases t with
    | boolean => exact ⟨.boolean false :: arguments, rfl⟩
    | integer => exact ⟨.integer 0 :: arguments, rfl⟩

/-- A function whose slots do not fit gets stuck on any arguments it asks for. -/
theorem ends_stuck_of_slotLimit_le {m : Machine} {r : Routine} {arguments : List Value}
    (hr : m.program[entry]? = some r) (hslots : Frame.slotLimit ≤ r.slots)
    (htypes : arguments.map Value.type = r.inputs)
    (hstack : arguments.length ≤ m.limits.stackDepth) (hdepth : 0 < m.limits.callDepth) :
    m.Ends entry arguments (.failed .stuck) := by
  have hlength : r.inputs.length = arguments.length := by rw [← htypes, List.length_map]
  have htop : (Stack.ofList arguments).top r.inputs.length = arguments := by
    rw [hlength, Stack.top_ofList]
  have hroom : 0 + r.inputs.length ≤ (Stack.ofList arguments).size := by
    rw [hlength, Stack.size_ofList, Nat.zero_add]
  have he : r.enter entry 0 (.ofList arguments) = .ok (.fresh entry _ r.slots) :=
    Routine.enter_eq_ok_iff.mpr ⟨hroom, htop.symm ▸ htypes, rfl⟩
  refine ends_of_start_halt (start_eq_stuck_iff.mpr ⟨r, hr, hstack, hdepth, ?_⟩)
  exact (Routine.activate_eq_stuck_iff (Nat.zero_le _)).mpr ⟨hslots, _, he⟩

/-- **An execution of a validated program only refers to what is there.**  Every state it passes
through is sound, so everything the next step looks up without checking exists.  No execution gets
stuck, under any limits, exactly if the slots of each function fit into memory. -/
theorem execution_stays_in_range (m : Machine) :
    (∀ entry arguments s, m.Reaches entry arguments s →
      s.Sound m.program m.limits entry ∧ s.InRange m.program) ∧
    ((∀ limits entry arguments fuel,
        (m.withLimits limits).call fuel entry arguments ≠ some (.failed .stuck)) ↔
      ∀ r ∈ m.program, r.slots < Frame.slotLimit) := by
  refine ⟨?_, ?_, ?_⟩
  · intro entry arguments s hs
    exact ⟨hs.sound, hs.inRange⟩
  · intro hnever r hr
    refine Nat.lt_of_not_le fun hslots => ?_
    obtain ⟨entry, hentry⟩ := Array.mem_iff_getElem?.mp hr
    obtain ⟨arguments, htypes⟩ := exists_arguments r.inputs
    obtain ⟨fuel, hstuck⟩ := ends_stuck_of_slotLimit_le (m := m.withLimits ⟨1, arguments.length⟩)
      hentry hslots htypes (Nat.le_refl _) Nat.one_pos
    exact hnever _ entry arguments fuel hstuck
  · intro hfits limits entry arguments fuel hfuel
    have hstuck : (m.withLimits limits).Ends entry arguments (.failed .stuck) := ⟨fuel, hfuel⟩
    obtain ⟨r, hr, hslots⟩ := hstuck.exists_slotLimit_le
    exact absurd (hfits r hr) (Nat.not_lt.mpr hslots)

/-- The machine that squares a number by calling a helper. -/
def squaring : Machine where
  definitions := Catalog.square.definitions
  program :=
    #[{ ops := #[.call 1], inputs := [.integer], outputs := [.integer], slots := 0 },
      { ops := #[.store 0, .load 0, .load 0, .binary (.integer .multiply)], inputs := [.integer],
        outputs := [.integer], slots := 1 }]
  validated := rfl

/-- The state in which the helper has been entered on 5, with a 7 below that is not its own. -/
def helperEntered : State where
  stack := .ofList [.integer 7, .integer 5]
  frame := .fresh 1 1 1
  suspended := Stack.empty.push (Frame.fresh 0 0 0).advance

theorem helperEntered_in_range :
    squaring.Reaches 0 [.integer 7, .integer 5] helperEntered ∧
      helperEntered.Sound squaring.program squaring.limits 0 ∧
      helperEntered.InRange squaring.program ∧
      (∀ r ∈ squaring.program, r.slots < Frame.slotLimit) ∧
      (squaring.withLimits ⟨1, 2⟩).call 10 0 [.integer 7, .integer 5] ≠ some (.failed .stuck) := by
  have hreaches : squaring.Reaches 0 [.integer 7, .integer 5] helperEntered :=
    ⟨_, 1, rfl, .single rfl⟩
  have hfits : ∀ r ∈ squaring.program, r.slots < Frame.slotLimit := by decide
  obtain ⟨hstates, hstuck⟩ := squaring.execution_stays_in_range
  obtain ⟨hsound, hrange⟩ := hstates 0 [.integer 7, .integer 5] helperEntered hreaches
  exact ⟨hreaches, hsound, hrange, hfits, hstuck.mpr hfits ⟨1, 2⟩ 0 _ 10⟩

/-- A machine whose only function has one slot too many. -/
def hoarding : Machine where
  definitions := [.ofOps [.push (.integer 1)] [] [.integer] Frame.slotLimit]
  program :=
    #[{ ops := #[.push (.integer 1)], inputs := [], outputs := [.integer],
        slots := Frame.slotLimit }]
  validated := rfl

/-- Validation accepts it, and it gets stuck as soon as it is called. -/
theorem hoarding_gets_stuck :
    validate hoarding.definitions = .ok hoarding.program ∧
      hoarding.call 10 0 [] = some (.failed .stuck) :=
  ⟨rfl, rfl⟩

end Machine

end StackMachine
