import StackMachine.Proofs.Execution.Invariant
import StackMachine.Proofs.Execution.Lockstep
import StackMachine.Proofs.Validation.Diagnosis

/-!
# Programs with more functions

Functions call each other by index, so functions that are added at the end of a program change
nothing for those before them.

For validation the number of functions matters in one place, where the index of a callee is compared
with it.  A larger number accepts more, so what has passed passes again and decodes to the same
(`Definition.Decodes.mono`), and the survey of the longer program goes through the old functions
and then through the new ones,

    survey (definitions ++ added) = ⟨program.toList ++ tail.accepted, tail.fault?⟩

(`survey_append`).  If there is a fault, it lies in a new function.

For execution, a state of the shorter program refers to old functions only, that of the running
frame and that of a call; this is the invariant `State.Sound`.  So in such a state the two programs
take the same step (`step_extend`), and executions of an old function go in lockstep.  The result is
`validate_append_extends`.
-/

namespace StackMachine

/-! ### Validation -/

section Validation

variable {functions functions' index position : Nat} {definitions added : List Definition}
  {d : Definition} {r : Routine}

/-- More functions accept more. -/
theorem Usage.Admits.mono {usage : Usage} {operand : Option Value}
    (h : usage.Admits (d.scope functions index) position operand) (hle : functions ≤ functions') :
    usage.Admits (d.scope functions' index) position operand := by
  cases usage with
  | plain | boolean | integer | target | slot => exact h
  | callee =>
    obtain ⟨i, hi, h0, hlt⟩ := h
    exact ⟨i, hi, h0, Int.lt_of_lt_of_le hlt (Int.ofNat_le.mpr hle)⟩

theorem Definition.Decodes.mono (h : d.Decodes functions index r) (hle : functions ≤ functions') :
    d.Decodes functions' index r where
  outputs_ne_nil := h.outputs_ne_nil
  code := by
    refine h.code.imp ?_
    rintro position i op ⟨⟨usage, hrow, hadmits⟩, hmeans⟩
    exact ⟨⟨usage, hrow, hadmits.mono hle⟩, hmeans⟩
  inputs_eq := h.inputs_eq
  outputs_eq := h.outputs_eq
  slots_eq := h.slots_eq

/-- Where nothing stops it, a survey goes on with the functions that follow. -/
theorem surveyFrom_append {routines : List Routine}
    (h : surveyFrom functions index definitions = ⟨routines, none⟩) :
    surveyFrom functions index (definitions ++ added) =
      ⟨routines ++ (surveyFrom functions (index + definitions.length) added).accepted,
        (surveyFrom functions (index + definitions.length) added).fault?⟩ := by
  induction definitions generalizing index routines with
  | nil =>
    cases h
    rfl
  | cons d rest ih =>
    rw [surveyFrom] at h
    rw [List.cons_append, surveyFrom]
    cases hd : d.check functions index with
    | error fault =>
      rw [hd] at h
      cases h
    | ok routine =>
      cases hrest : surveyFrom functions (index + 1) rest with
      | mk accepted fault? =>
        rw [hd, hrest] at h
        cases h
        simp only [ih hrest, List.length_cons, List.cons_append, Nat.add_assoc, Nat.add_comm 1]

/-- **The survey of a longer program** goes through the old functions with the same result, and
then through the new ones. -/
theorem survey_append {program : Program} (h : validate definitions = .ok program)
    (added : List Definition) :
    survey (definitions ++ added) =
      let tail := surveyFrom (definitions ++ added).length definitions.length added
      ⟨program.toList ++ tail.accepted, tail.fault?⟩ := by
  have hle : definitions.length ≤ (definitions ++ added).length := by
    rw [List.length_append]
    exact Nat.le_add_right _ _
  have hold : surveyFrom (definitions ++ added).length 0 definitions =
      ⟨program.toList, none⟩ := by
    refine surveyFrom_eq_iff.mpr ((validate_eq_ok_iff.mp h).imp ?_)
    intro index d r hdecodes
    rw [Nat.zero_add, Definition.check_eq_ok_iff]
    exact hdecodes.mono hle
  rw [survey, surveyFrom_append hold, Nat.zero_add]

/-- A longer program is refused for a fault in a new function, or it starts with the old ones. -/
theorem validate_append {program : Program} (h : validate definitions = .ok program)
    (added : List Definition) :
    (∃ fault index, validate (definitions ++ added) = .error fault ∧
      fault.function? = some index ∧ definitions.length ≤ index) ∨
    ∃ longer, validate (definitions ++ added) = .ok longer ∧
      program.toList <+: longer.toList := by
  rw [validate, survey_append h added]
  cases hfault : (surveyFrom (definitions ++ added).length definitions.length added).fault? with
  | some fault =>
    obtain ⟨-, hfunction⟩ := surveyFrom_stopped hfault
    exact .inl ⟨fault, _, rfl, hfunction, Nat.le_add_right _ _⟩
  | none => exact .inr ⟨_, rfl, List.prefix_append _ _⟩

end Validation

/-! ### Execution -/

section Execution

variable {program longer : Program} {limits : Limits} {entry : Nat} {s : State}

theorem getElem?_of_isPrefix (h : program.toList <+: longer.toList) {i : Nat}
    (hi : i < program.size) : longer[i]? = program[i]? := by
  obtain ⟨rest, hrest⟩ := h
  rw [← Array.getElem?_toList, ← Array.getElem?_toList, ← hrest,
    List.getElem?_append_left (by simpa using hi)]

/-- **A step within the shorter program is the same in the longer one.** -/
theorem step_extend (h : program.toList <+: longer.toList) (hs : s.InRange program) :
    step longer limits s = step program limits s := by
  simp only [step, getElem?_of_isPrefix h hs.function]
  cases hr : program[s.frame.function]? with
  | none => rfl
  | some routine =>
    simp only
    cases hop : routine.ops[s.frame.position]? with
    | none => rfl
    | some op =>
      simp only
      cases hp : perform limits s.frame.site s.frame.advance s.stack op with
      | error failure => rfl
      | ok flow =>
        cases flow with
        | proceed frame stack => rfl
        | exit => rfl
        | call callee =>
          -- the only other function that is looked up is the one that is called
          obtain rfl := perform_eq_call_iff.mp hp
          have hcallee := hs.callee callee (State.op?_eq_some_iff.mpr ⟨routine, hr, hop⟩)
          simp only [State.invoke, getElem?_of_isPrefix h hcallee]

theorem start_extend (h : program.toList <+: longer.toList) (hentry : entry < program.size)
    (arguments : List Value) :
    start longer limits entry arguments = start program limits entry arguments := by
  have hr : program[entry]? = some program[entry] := Array.getElem?_eq_getElem hentry
  simp only [start, getElem?_of_isPrefix h hentry, hr]

/-- The two executions are in the same state, which is one of the shorter program. -/
def SameOldState (program : Program) (limits : Limits) (entry : Nat) (s t : State) : Prop :=
  s = t ∧ s.Sound program limits entry

/-- A step that leads to sound states is alike to itself. -/
theorem Step.alike_self {x : Step}
    (h : ∀ {s}, x.transition = .next s → s.Sound program limits entry) :
    x.Alike (SameOldState program limits entry) Eq x := by
  refine ⟨rfl, ?_⟩
  cases htransition : x.transition with
  | next s => exact .next ⟨rfl, h htransition⟩
  | halt outcome => exact .halt rfl

end Execution

namespace Machine

variable {m m' : Machine}

/-- **Executions in a longer program.**  A function of the shorter program is executed alike. -/
theorem trace_extend (h : m.program.toList <+: m'.program.toList)
    (hlimits : m'.limits = m.limits) {entry : Nat} (hentry : entry < m.program.size)
    (arguments : List Value) (fuel : Nat) :
    m'.trace fuel entry arguments = m.trace fuel entry arguments := by
  have hprogram : m.program.Sound := validate_sound m.validated
  have hstep : ∀ {s t}, SameOldState m.program m.limits entry s t →
      (step m'.program m.limits s).Alike (SameOldState m.program m.limits entry) Eq
        (step m.program m.limits t) := by
    rintro s t ⟨rfl, hs⟩
    rw [step_extend h (hs.inRange hprogram)]
    exact Step.alike_self fun hnext => hs.next hprogram hnext
  rw [trace, trace, hlimits, start_extend h hentry]
  exact record_eq_of_alike hstep (Step.alike_self .start) #[] fuel

theorem call_eq_of_trace {fuel entry : Nat} {arguments : List Value}
    (h : m'.trace fuel entry arguments = m.trace fuel entry arguments) :
    m'.call fuel entry arguments = m.call fuel entry arguments := by
  have hsnd := congrArg Prod.snd h
  rwa [trace, trace, record_snd, record_snd] at hsnd

end Machine

/-- **Functions that are added change nothing for those before them.**  Let a program be accepted,
and add functions to it.  Either the longer program is refused for a fault in an added function; or
it is accepted and starts with what was there, and then a function of the shorter program, executed
on any arguments and under any limits, reports the same and comes to the same in both. -/
theorem validate_append_extends {definitions : List Definition} {program : Program}
    (h : validate definitions = .ok program) (added : List Definition) :
    (∃ fault index, validate (definitions ++ added) = .error fault ∧
      fault.function? = some index ∧ definitions.length ≤ index) ∨
    ∃ longer, validate (definitions ++ added) = .ok longer ∧
      program.toList <+: longer.toList ∧
      ∀ m m' : Machine, m.definitions = definitions → m'.definitions = definitions ++ added →
        m'.limits = m.limits → ∀ entry < definitions.length, ∀ arguments : List Value,
          (∀ fuel, m'.trace fuel entry arguments = m.trace fuel entry arguments) ∧
          (∀ outcome, m'.Ends entry arguments outcome ↔ m.Ends entry arguments outcome) ∧
          (m'.RunsForever entry arguments ↔ m.RunsForever entry arguments) := by
  rcases validate_append h added with hfault | ⟨longer, hlonger, hprefix⟩
  · exact .inl hfault
  refine .inr ⟨longer, hlonger, hprefix, ?_⟩
  rintro m m' rfl hdefinitions hlimits entry hentry arguments
  have hvalidated := m'.validated
  rw [hdefinitions, hlonger] at hvalidated
  obtain rfl : m.program = program := Except.ok.inj (m.validated.symm.trans h)
  obtain rfl : longer = m'.program := Except.ok.inj hvalidated
  have hentry : entry < m.program.size := size_of_validate m.validated ▸ hentry
  have htrace := Machine.trace_extend hprefix hlimits hentry arguments
  have hcall : ∀ fuel, m'.call fuel entry arguments = m.call fuel entry arguments :=
    fun fuel => Machine.call_eq_of_trace (htrace fuel)
  refine ⟨htrace, ?_, ?_⟩
  · intro outcome
    simp only [Machine.Ends, hcall]
  · simp only [Machine.RunsForever, hcall]

-- an added function is refused for its own fault, counted with the functions before it
example : validate (Catalog.square.definitions ++ [.ofOps [.call 3] [] [.integer] 0]) =
    .error (.badFunctionIndex ⟨2, 0⟩ 3 3) := rfl

namespace Machine

def fourthPower : Machine where
  definitions := squaring.definitions ++ [.ofOps [.call 0, .call 0] [.integer] [.integer] 0]
  program := squaring.program.push
    { ops := #[.call 0, .call 0], inputs := [.integer], outputs := [.integer], slots := 0 }
  validated := rfl

/-- With a third function, which squares twice, the machine squares as before. -/
theorem squaring_in_fourthPower :
    validate squaring.definitions = .ok squaring.program ∧
      squaring.Ends 0 [.integer 5] (.returned [.integer 25]) ∧
      fourthPower.Ends 0 [.integer 5] (.returned [.integer 25]) ∧
      ∀ arguments fuel,
        fourthPower.trace fuel 0 arguments = squaring.trace fuel 0 arguments := by
  have hends : squaring.Ends 0 [.integer 5] (.returned [.integer 25]) := ⟨10, rfl⟩
  rcases validate_append_extends squaring.validated
    [.ofOps [.call 0, .call 0] [.integer] [.integer] 0] with
    ⟨fault, index, hfault, -⟩ | ⟨longer, -, -, hsame⟩
  · cases hfault.symm.trans fourthPower.validated
  · have hentry : 0 < squaring.definitions.length := by decide
    have hzero := hsame squaring fourthPower rfl rfl rfl 0 hentry
    obtain ⟨-, hiff, -⟩ := hzero [.integer 5]
    exact ⟨squaring.validated, hends, (hiff _).mpr hends, fun arguments => (hzero arguments).1⟩

end Machine

end StackMachine
