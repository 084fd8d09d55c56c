import StackMachine.Proofs.Execution.Invariant
import StackMachine.Proofs.Execution.Lockstep
import StackMachine.Proofs.Execution.Termination

/-!
# Code behind an exit

An invocation is over when it exits or when its code ends, and both are the same: the same contract
is checked, and the same caller goes on.  So a function may get an exit behind its code, and any
code behind the exit.  No branch of the old code leads there, for validation has checked its target
against the old length, and nothing falls through an exit.

`Routine.PadsTo` is what such a function and the one it was made of have in common.  As long as a
frame stands in the old code or right at its end, its turn is the same in both programs,

    turn padded limits live frame stack = turn program limits live frame stack

(`turn_padsTo`), and that every frame stands there is part of the invariant `State.Sound`.  So the
executions go through the same states and take the same number of steps
(`Machine.exit_ends_code`).  What they report differs by the exits.
-/

namespace StackMachine

/-! ### Functions with an exit behind their code -/

/-- The second function has the code of the first.  Where that ends it ends too, or it exits and
goes on with anything. -/
structure Routine.PadsTo (r padded : Routine) : Prop where
  inputs_eq : padded.inputs = r.inputs
  outputs_eq : padded.outputs = r.outputs
  slots_eq : padded.slots = r.slots
  code : ∀ {position : Nat}, position < r.ops.size →
    padded.ops[position]? = r.ops[position]?
  ending : padded.ops[r.ops.size]? = none ∨ padded.ops[r.ops.size]? = some .exit

structure Program.PadsTo (program padded : Program) : Prop where
  size_eq : padded.size = program.size
  routines : ∀ {index : Nat} {r : Routine}, program[index]? = some r →
    ∃ r', padded[index]? = some r' ∧ r.PadsTo r'

theorem Routine.PadsTo.refl (r : Routine) : r.PadsTo r where
  inputs_eq := rfl
  outputs_eq := rfl
  slots_eq := rfl
  code := fun _ => rfl
  ending := .inl (Array.getElem?_eq_none_iff.mpr (Nat.le_refl _))

/-! ### Executions -/

section Execution

variable {program padded : Program} {limits : Limits} {live : Nat} {frame : Frame}
  {stack : Stack Value} {r r' : Routine}

namespace Routine.PadsTo

theorem checkInputs_eq (h : r.PadsTo r') (function floor : Nat) (stack : Stack Value) :
    r'.checkInputs function floor stack = r.checkInputs function floor stack := by
  simp only [checkInputs, h.inputs_eq]

theorem activate_eq (h : r.PadsTo r') (function floor : Nat) (stack : Stack Value) :
    r'.activate function floor stack = r.activate function floor stack := by
  simp only [activate, enter, h.checkInputs_eq, h.inputs_eq, h.slots_eq]

theorem entryEvents_eq (h : r.PadsTo r') (function floor depth : Nat) (stack : Stack Value) :
    r'.entryEvents function floor depth stack = r.entryEvents function floor depth stack := by
  simp only [entryEvents, h.checkInputs_eq, h.inputs_eq]

theorem leave_eq (h : r.PadsTo r') (frame : Frame) (stack : Stack Value) :
    r'.leave frame stack = r.leave frame stack := by
  simp only [leave, h.outputs_eq]

theorem lastTurn_eq (h : r.PadsTo r') (frame : Frame) (stack : Stack Value) :
    r'.lastTurn frame stack = r.lastTurn frame stack := by
  simp only [lastTurn, h.leave_eq]

end Routine.PadsTo

theorem Program.PadsTo.getElem?_eq_none (h : program.PadsTo padded) {index : Nat}
    (hnone : program[index]? = none) : padded[index]? = none := by
  rw [Array.getElem?_eq_none_iff] at hnone ⊢
  rw [h.size_eq]
  exact hnone

theorem callTurn_padsTo (h : program.PadsTo padded) (callee : Nat) :
    callTurn padded limits live frame stack callee =
      callTurn program limits live frame stack callee := by
  simp only [callTurn]
  cases htarget : program[callee]? with
  | none => rw [h.getElem?_eq_none htarget]
  | some target =>
    obtain ⟨target', htarget', hpads⟩ := h.routines htarget
    simp only [htarget', hpads.activate_eq]

/-- **An exit and the end of the code are the same turn.** -/
theorem turn_padsTo (h : program.PadsTo padded) (hfits : frame.Fits program) :
    turn padded limits live frame stack = turn program limits live frame stack := by
  obtain ⟨r, hr, -, hposition⟩ := hfits
  obtain ⟨r', hr', hpads⟩ := h.routines hr
  simp only [turn, hr, hr']
  rcases Nat.lt_or_eq_of_le hposition with hlt | heq
  · simp only [hpads.code hlt, hpads.lastTurn_eq, callTurn_padsTo h]
  · have hend : r.ops[frame.position]? = none :=
      Array.getElem?_eq_none_iff.mpr (Nat.le_of_eq heq.symm)
    have hending := hpads.ending
    rw [← heq] at hending
    rcases hending with hending | hending
    · simp only [hend, hending, hpads.lastTurn_eq]
    · simp only [hend, hending, perform, hpads.lastTurn_eq]

theorem transition_start_padsTo (h : program.PadsTo padded) (entry : Nat)
    (arguments : List Value) :
    (start padded limits entry arguments).transition =
      (start program limits entry arguments).transition := by
  simp only [start]
  cases hr : program[entry]? with
  | none => simp only [h.getElem?_eq_none hr, h.size_eq]
  | some r =>
    obtain ⟨r', hr', hpads⟩ := h.routines hr
    simp only [hr', hpads.activate_eq, hpads.entryEvents_eq]

end Execution

/-! ### Validation -/

section Validation

variable {functions index : Nat} {d : Definition} {r r' : Routine} {tail : List Instruction}

/-- The function with an exit behind its code, and more instructions behind the exit. -/
def Definition.withExit (tail : List Instruction) (d : Definition) : Definition :=
  { d with code := d.code ++ Opcode.exit.withOperand none :: tail }

theorem Definition.Decodes.unique (h : d.Decodes functions index r)
    (h' : d.Decodes functions index r') : r = r' := by
  rw [← check_eq_ok_iff] at h h'
  exact Except.ok.inj (h.symm.trans h')

/-- The longer function is decoded to the same operations, then the exit, then something. -/
theorem Definition.Decodes.padsTo (h : d.Decodes functions index r)
    (h' : (d.withExit tail).Decodes functions index r') : r.PadsTo r' where
  inputs_eq := h'.inputs_eq.trans h.inputs_eq.symm
  outputs_eq := h'.outputs_eq.trans h.outputs_eq.symm
  slots_eq := h'.slots_eq.trans h.slots_eq.symm
  code := by
    intro position hlt
    obtain ⟨op, hop⟩ : ∃ op, r.ops.toList[position]? = some op :=
      ⟨_, List.getElem?_eq_getElem (by simpa using hlt)⟩
    obtain ⟨i, hi, -, hmeans⟩ := h.code.exists_left hop
    have hi' : (d.withExit tail).code[position]? = some i := by
      rw [withExit, List.getElem?_append_left (List.getElem?_eq_some_iff.mp hi).1]
      exact hi
    obtain ⟨op', hop', -, hmeans'⟩ := h'.code.related hi'
    obtain rfl := hmeans.unique hmeans'
    rw [← Array.getElem?_toList, ← Array.getElem?_toList, hop, hop']
  ending := by
    have hsize : r.ops.size = d.code.length := by simpa using h.code.length_eq
    have hi : (d.withExit tail).code[r.ops.size]? = some (Opcode.exit.withOperand none) := by
      rw [withExit, hsize, List.getElem?_append_right (Nat.le_refl _), Nat.sub_self]
      rfl
    obtain ⟨op, hop, -, hmeans⟩ := h'.code.related hi
    obtain rfl := hmeans.unique (Instruction.means_iff.mpr ⟨.exit, rfl, rfl⟩)
    rw [← Array.getElem?_toList, hop]
    exact .inr rfl

theorem padsTo_of_validate {definitions : List Definition} {program padded : Program}
    (h : validate definitions = .ok program)
    (h' : validate (definitions.modify index (.withExit tail)) = .ok padded) :
    program.PadsTo padded where
  size_eq := by rw [size_of_validate h', size_of_validate h, List.length_modify]
  routines := by
    intro i r hr
    rw [← Array.getElem?_toList] at hr
    obtain ⟨d, hd, hdecodes⟩ := (validate_eq_ok_iff.mp h).exists_left hr
    have hd' : (definitions.modify index (.withExit tail))[i]? =
        some (if index = i then d.withExit tail else d) := by
      rw [List.getElem?_modify, hd]
      rfl
    obtain ⟨r', hr', hdecodes'⟩ := (validate_eq_ok_iff.mp h').related hd'
    rw [Array.getElem?_toList] at hr'
    rw [List.length_modify] at hdecodes'
    refine ⟨r', hr', ?_⟩
    by_cases hindex : index = i
    · rw [if_pos hindex] at hdecodes'
      exact hdecodes.padsTo hdecodes'
    · rw [if_neg hindex] at hdecodes'
      obtain rfl := hdecodes.unique hdecodes'
      exact .refl r

end Validation

namespace Machine

variable {m padded : Machine}

theorem call_eq_of_padsTo (h : m.program.PadsTo padded.program)
    (hlimits : padded.limits = m.limits) (fuel entry : Nat) (arguments : List Value) :
    padded.call fuel entry arguments = m.call fuel entry arguments := by
  have hprogram : m.program.Sound := validate_sound m.validated
  rw [call, call, execute, execute, hlimits]
  refine run_eq_of_invariant (P := State.Sound m.program m.limits entry)
    (fun hs hnext => hs.next hprogram hnext) ?_ .start (transition_start_padsTo h entry arguments)
    fuel
  intro s hs
  rw [transition_step, transition_step, turn_padsTo h (hs.fits s.frame List.mem_cons_self)]

/-- **An exit ends a function as the end of its code does.**  Let a program be accepted, and again
after one of its functions has got an exit behind its code and any instructions behind the exit.
Then the two programs, executed from any function on any arguments under the same limits, take the
same number of steps to the same outcome, or both run forever. -/
theorem exit_ends_code {index : Nat} {tail : List Instruction}
    (hdefinitions : padded.definitions = m.definitions.modify index (.withExit tail))
    (hlimits : padded.limits = m.limits) (entry : Nat) (arguments : List Value) :
    (∀ fuel, padded.call fuel entry arguments = m.call fuel entry arguments) ∧
    (∀ outcome, padded.Ends entry arguments outcome ↔ m.Ends entry arguments outcome) ∧
    (padded.RunsForever entry arguments ↔ m.RunsForever entry arguments) := by
  have hvalidated := padded.validated
  rw [hdefinitions] at hvalidated
  have hpads : m.program.PadsTo padded.program := padsTo_of_validate m.validated hvalidated
  have hcall : ∀ fuel, padded.call fuel entry arguments = m.call fuel entry arguments :=
    fun fuel => call_eq_of_padsTo hpads hlimits fuel entry arguments
  refine ⟨hcall, ?_, ?_⟩
  · intro outcome
    simp only [Ends, hcall]
  · simp only [RunsForever, hcall]

/-- The machine that computes factorials, with an exit behind its code and behind that a branch
back to its beginning. -/
def factorialWithExit : Machine where
  definitions := factorial.definitions.modify 0 (.withExit [(Op.branch 0).encode])
  program :=
    #[{ ops := #[.store 0, .load 0, .push (.integer 0), .binary (.compare .equal),
          .branchIf false 7, .push (.integer 1), .exit, .load 0, .load 0, .push (.integer 1),
          .binary (.integer .subtract), .call 0, .binary (.integer .multiply), .exit, .branch 0],
        inputs := [.integer], outputs := [.integer], slots := 1 }]
  validated := rfl

/-- It computes the same, and the branch is never taken. -/
theorem factorialWithExit_computes_factorial :
    factorialWithExit.definitions =
        factorial.definitions.modify 0 (.withExit [(Op.branch 0).encode]) ∧
      factorialWithExit.limits = factorial.limits ∧
      factorial.Ends 0 [.integer 5] (.returned [.integer 120]) ∧
      factorialWithExit.Ends 0 [.integer 5] (.returned [.integer 120]) ∧
      ∀ entry arguments fuel,
        factorialWithExit.call fuel entry arguments = factorial.call fuel entry arguments := by
  have hends : factorial.Ends 0 [.integer 5] (.returned [.integer 120]) := ⟨100, rfl⟩
  have hsame := @exit_ends_code factorial factorialWithExit 0 _ rfl rfl
  exact ⟨rfl, rfl, hends, ((hsame 0 _).2.1 _).mpr hends,
    fun entry arguments => (hsame entry arguments).1⟩

end Machine

end StackMachine
