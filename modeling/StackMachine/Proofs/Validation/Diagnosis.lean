import StackMachine.Proofs.Fault
import StackMachine.Proofs.Validation.Acceptance

/-!
# Validation and diagnosis

`validate` stops at the first fault and `diagnose` collects all of them.  They look at instructions
and functions in the same order, so the fault at which the one stops is the first that the other
lists: at each level the head of the collected faults is the error of the check,

    (diagnose definitions).head? = error? (validate definitions).

What `validate` reports on the way is one event for each function that passed, in order.  The fault
lies in the first function that did not pass, so there are as many events as the index of that
function (`surveyFrom_stopped`).  Together this is `diagnose_agrees_with_validate`.
-/

namespace StackMachine

variable {functions index : Nat} {definitions : List Definition}

/-! ### The first fault -/

theorem Scope.head?_codeFaults (s : Scope) (position : Nat) (code : List Instruction) :
    (s.codeFaults position code).head? = error? (s.checkCode position code) := by
  induction code generalizing position with
  | nil => rfl
  | cons i rest ih =>
    rw [codeFaults, checkCode]
    cases s.check position i with
    | error fault => rfl
    | ok op =>
      -- an instruction that passes leaves the matter to those after it
      refine (ih (position + 1)).trans ?_
      cases s.checkCode (position + 1) rest <;> rfl

theorem Definition.head?_faults (d : Definition) (functions index : Nat) :
    (d.faults functions index).head? = error? (d.check functions index) := by
  rw [faults, check, List.head?_append, Scope.head?_codeFaults]
  cases (d.scope functions index).checkCode 0 d.code with
  | error fault => rfl
  | ok ops =>
    by_cases hout : d.outputs = []
    · simp only [hout, if_true]
      rfl
    · simp only [hout, if_false]
      rfl

theorem head?_faultsFrom (functions index : Nat) (definitions : List Definition) :
    (faultsFrom functions index definitions).head? =
      (surveyFrom functions index definitions).fault? := by
  induction definitions generalizing index with
  | nil => rfl
  | cons d rest ih =>
    rw [faultsFrom, surveyFrom, List.head?_append, Definition.head?_faults, ih]
    cases d.check functions index <;> rfl

/-- **The first fault is the one that validation stops at.** -/
theorem head?_diagnose (definitions : List Definition) :
    (diagnose definitions).head? = error? (validate definitions) := by
  rw [diagnose, head?_faultsFrom, validate, survey]
  cases (surveyFrom definitions.length 0 definitions).fault? <;> rfl

/-! ### The function it lies in -/

theorem Instruction.form_keepsTo (site : Site) (i : Instruction) :
    KeepsTo site.function (i.form site) := by
  unfold form
  split
  · exact .error rfl
  · split
    · exact .ok _
    · exact .error rfl
    · exact .error rfl
    · split
      · exact .ok _
      · exact .error rfl

namespace Scope

variable (s : Scope) (position : Nat)

theorem branchTarget_keepsTo (i : Int64) : KeepsTo s.function (s.branchTarget position i) := by
  unfold branchTarget
  split
  · split
    · exact .error rfl
    · exact .ok _
  · exact .error rfl

theorem slot_keepsTo (i : Int64) : KeepsTo s.function (s.slot position i) := by
  unfold slot
  split
  · exact .ok _
  · exact .error rfl

theorem callee_keepsTo (i : Int64) : KeepsTo s.function (s.callee position i) := by
  unfold callee
  split
  · exact .ok _
  · exact .error rfl

theorem resolve_keepsTo (form : Form) : KeepsTo s.function (s.resolve position form) := by
  unfold resolve
  split
  · split
    · exact (s.branchTarget_keepsTo position _).map _
    split
    · exact (s.slot_keepsTo position _).map _
    split
    · exact (s.callee_keepsTo position _).map _
    · exact .ok _
  · exact .ok _
  · split
    · exact .ok _
    · exact .error rfl

theorem check_keepsTo (i : Instruction) : KeepsTo s.function (s.check position i) :=
  (i.form_keepsTo ⟨s.function, position⟩).bind (s.resolve_keepsTo position)

theorem checkCode_keepsTo (code : List Instruction) :
    KeepsTo s.function (s.checkCode position code) := by
  induction code generalizing position with
  | nil => exact .ok _
  | cons i rest ih =>
    refine (s.check_keepsTo position i).bind fun op => ?_
    exact (ih (position + 1)).bind fun ops => .ok _

end Scope

theorem Definition.check_keepsTo (d : Definition) (functions index : Nat) :
    KeepsTo index (d.check functions index) := by
  refine ((d.scope functions index).checkCode_keepsTo 0 d.code).bind fun ops => ?_
  by_cases hout : d.outputs = []
  · simp only [hout, if_true]
    exact .error rfl
  · simp only [hout, if_false]
    exact .ok _

/-! ### The functions before it -/

/-- Those that passed are the first of the functions, decoded. -/
theorem surveyFrom_accepted (functions index : Nat) (definitions : List Definition) :
    Matches (fun j d r => d.check functions (index + j) = .ok r)
      (definitions.take (surveyFrom functions index definitions).accepted.length)
      (surveyFrom functions index definitions).accepted := by
  induction definitions generalizing index with
  | nil => exact matches_nil_iff.mpr rfl
  | cons d rest ih =>
    rw [surveyFrom]
    cases hd : d.check functions index with
    | error fault => exact matches_nil_iff.mpr rfl
    | ok routine =>
      refine matches_cons_iff.mpr ⟨routine, _, rfl, hd, ?_⟩
      have htail := ih (index + 1)
      simp only [Nat.add_assoc, Nat.add_comm 1] at htail
      exact htail

/-- The fault lies in the function after them. -/
theorem surveyFrom_stopped {fault : Fault}
    (h : (surveyFrom functions index definitions).fault? = some fault) :
    (surveyFrom functions index definitions).accepted.length < definitions.length ∧
      fault.function? =
        some (index + (surveyFrom functions index definitions).accepted.length) := by
  induction definitions generalizing index with
  | nil => cases h
  | cons d rest ih =>
    rw [surveyFrom] at h ⊢
    cases hd : d.check functions index with
    | error fault' =>
      rw [hd] at h
      obtain rfl : fault' = fault := Option.some.inj h
      exact ⟨Nat.zero_lt_succ _, d.check_keepsTo functions index fault' hd⟩
    | ok routine =>
      rw [hd] at h
      obtain ⟨hlt, hfunction⟩ := ih h
      refine ⟨Nat.succ_lt_succ hlt, ?_⟩
      rw [hfunction, List.length_cons, Nat.add_assoc, Nat.add_comm 1]

def Definition.event (index : Nat) (d : Definition) : Event :=
  .validated index d.code.length d.inputs.length d.outputs.length d.slots

/-- The events are those of the functions that passed. -/
theorem events_survey (definitions : List Definition) :
    (survey definitions).events =
      (definitions.take (survey definitions).accepted.length).mapIdx Definition.event := by
  have hmatches := surveyFrom_accepted definitions.length 0 definitions
  simp only [Nat.zero_add, Definition.check_eq_ok_iff] at hmatches
  apply List.ext_getElem?
  intro i
  rw [Survey.events, List.getElem?_mapIdx, List.getElem?_mapIdx, survey]
  cases hd : (definitions.take
      (surveyFrom definitions.length 0 definitions).accepted.length)[i]? with
  | none =>
    have hnone : (surveyFrom definitions.length 0 definitions).accepted[i]? = none := by
      rw [List.getElem?_eq_none_iff, hmatches.length_eq]
      exact List.getElem?_eq_none_iff.mp hd
    rw [hnone]
    rfl
  | some d =>
    obtain ⟨r, hr, hdecodes⟩ := hmatches.related hd
    have hops : r.ops.size = d.code.length := by simpa using hdecodes.code.length_eq
    rw [hr]
    simp only [Option.map_some, Definition.event, hops, hdecodes.inputs_eq, hdecodes.outputs_eq,
      hdecodes.slots_eq]

/-! ### Agreement -/

/-- **Validation and diagnosis agree.**  A program is accepted exactly if nothing is wrong with it.
If it is refused, the fault that validation stops at is the first that diagnosis lists; and the
events reported until then are those of the functions before the one the fault lies in, as many as
its index says. -/
theorem diagnose_agrees_with_validate (definitions : List Definition) :
    ((∃ program, validate definitions = .ok program) ↔ diagnose definitions = []) ∧
    ∀ fault, validate definitions = .error fault →
      (diagnose definitions).head? = some fault ∧
      ∃ index < definitions.length, fault.function? = some index ∧
        (survey definitions).events.length = index ∧
        (survey definitions).events = (definitions.take index).mapIdx Definition.event := by
  refine ⟨?_, ?_⟩
  · rw [← List.head?_eq_none_iff, head?_diagnose, error?_eq_none_iff]
  · intro fault h
    have hfault : (survey definitions).fault? = some fault := by
      rw [survey, ← head?_faultsFrom, ← diagnose, head?_diagnose, h]
      rfl
    obtain ⟨hlt, hfunction⟩ := surveyFrom_stopped hfault
    rw [Nat.zero_add] at hfunction
    have hhead : (diagnose definitions).head? = some fault := by
      rw [head?_diagnose, h]
      rfl
    have hlength : (survey definitions).events.length = (survey definitions).accepted.length := by
      rw [Survey.events, List.length_mapIdx]
    exact ⟨hhead, _, hlt, hfunction, hlength, events_survey definitions⟩

/-- A program whose first function is fine.  The second one branches to itself and declares no
outputs. -/
def halfFaulty : List Definition :=
  [.ofOps [.push (.boolean true)] [] [.boolean] 0, .ofOps [.branch 0] [] [] 0]

theorem halfFaulty_diagnosed :
    validate halfFaulty = .error (.badBranchTarget ⟨1, 0⟩ 0 1) ∧
      diagnose halfFaulty = [.badBranchTarget ⟨1, 0⟩ 0 1, .noOutputs 1] ∧
      (diagnose halfFaulty).head? = some (.badBranchTarget ⟨1, 0⟩ 0 1) ∧
      (survey halfFaulty).events.length = 1 := by
  have hvalidate : validate halfFaulty = .error (.badBranchTarget ⟨1, 0⟩ 0 1) := rfl
  have hdiagnose : diagnose halfFaulty = [.badBranchTarget ⟨1, 0⟩ 0 1, .noOutputs 1] := rfl
  obtain ⟨hhead, index, -, hindex, hlength, -⟩ :=
    (diagnose_agrees_with_validate halfFaulty).2 _ hvalidate
  obtain rfl : 1 = index := Option.some.inj hindex
  exact ⟨hvalidate, hdiagnose, hhead, hlength⟩

end StackMachine
