import StackMachine.Proofs.Validation.Diagnosis

/-!
# Diagnosis lists the violations

`diagnose` promises one fault for each instruction that does not pass, and at the end of a function
one more if it declares no outputs.  This file says which faults these are, by the table of
`instructionSet` and without the check that finds them: `Instruction.Violates` has one rule for each
way to be wrong.  An instruction is checked for its code, for the presence of its operand, for the
kind of its operand and for the range of its index, in this order, and each rule asks that the
checks before its own have passed.  So an instruction has at most one violation, and has none
exactly if it is admissible (`Scope.check_eq_error_iff`, `Scope.verdict`).

The rest is bookkeeping.  The faults of code are those of its instructions by position, and the
faults of a program are those of its functions by index,

    diagnose definitions = (definitions.mapIdx fun index d => d.faults … index).flatten,

and `diagnose_lists_violations` puts the two together.
-/

namespace StackMachine

/-! ### Violations -/

def Usage.kind : Usage → OperandKind
  | .plain _ => .none
  | .boolean _ => .literal .boolean
  | .integer _ | .target _ | .slot _ | .callee _ => .literal .integer

/-- An operand is an index that a row does not take, at a position in a scope, and this is the
fault. -/
def Usage.Refuses (s : Scope) (position : Nat) (operand : Option Value) (fault : Fault) :
    Usage → Prop
  | .target _ => ∃ i, operand = some (.integer i) ∧
      ¬ (0 ≤ i.toInt ∧ i.toInt < s.length ∧ i.toInt ≠ position) ∧
      fault = .badBranchTarget ⟨s.function, position⟩ i s.length
  | .slot _ => ∃ i, operand = some (.integer i) ∧ ¬ (0 ≤ i.toInt ∧ i.toInt < s.slots) ∧
      fault = .badSlotIndex ⟨s.function, position⟩ i s.slots
  | .callee _ => ∃ i, operand = some (.integer i) ∧ ¬ (0 ≤ i.toInt ∧ i.toInt < s.functions) ∧
      fault = .badFunctionIndex ⟨s.function, position⟩ i s.functions
  | .plain _ | .boolean _ | .integer _ => False

/-- The first check that an instruction at a position in a scope does not pass, by the fault that
is reported of it. -/
inductive Instruction.Violates (s : Scope) (position : Nat) (i : Instruction) : Fault → Prop where
  /-- The table has no row for the code. -/
  | code (unassigned : ∀ usage, (i.code, usage) ∉ instructionSet) :
      Violates s position i (.unassignedCode ⟨s.function, position⟩ i.code)
  /-- The row asks for an operand, and there is none. -/
  | missing {o : Opcode} {usage : Usage} {type : ValueType} (named : o.code = i.code)
      (row : (i.code, usage) ∈ instructionSet) (kind : usage.kind = .literal type)
      (operand : i.operand = none) :
      Violates s position i (.missingOperand ⟨s.function, position⟩ o)
  /-- The row asks for none, and there is one. -/
  | unexpected {o : Opcode} {usage : Usage} {v : Value} (named : o.code = i.code)
      (row : (i.code, usage) ∈ instructionSet) (kind : usage.kind = .none)
      (operand : i.operand = some v) :
      Violates s position i (.unexpectedOperand ⟨s.function, position⟩ o)
  /-- The operand is of another kind than the row asks for. -/
  | kind {o : Opcode} {usage : Usage} {type : ValueType} {v : Value} (named : o.code = i.code)
      (row : (i.code, usage) ∈ instructionSet) (kind : usage.kind = .literal type)
      (operand : i.operand = some v) (type_ne : v.type ≠ type) :
      Violates s position i (.wrongOperandKind ⟨s.function, position⟩ o (.literal type))
  /-- The operand is an index out of range. -/
  | range {usage : Usage} {fault : Fault} (row : (i.code, usage) ∈ instructionSet)
      (refused : usage.Refuses s position i.operand fault) : Violates s position i fault

section Instructions

variable {s : Scope} {position : Nat} {i : Instruction} {o : Opcode} {usage : Usage} {fault : Fault}

/-- A violation is a fault of validation, at the place of the instruction. -/
theorem Instruction.Violates.located (h : i.Violates s position fault) :
    fault.phase = .validation ∧ fault.site? = some ⟨s.function, position⟩ := by
  cases h with
  | code | missing | unexpected | kind => exact ⟨rfl, rfl⟩
  | @range usage _ _ hrefused =>
    cases usage with
    | target | slot | callee =>
      obtain ⟨v, -, -, rfl⟩ := hrefused
      exact ⟨rfl, rfl⟩
    | plain | boolean | integer => exact hrefused.elim

theorem Opcode.kind_usage (o : Opcode) : o.usage.kind = o.operandKind := by
  cases o with
  | push type => cases type <;> rfl
  | load | store | call | exit | branch | branchIf | unary | binary => rfl

theorem Instruction.row_of_opcode? (h : i.opcode? = some o) :
    (i.code, o.usage) ∈ instructionSet :=
  mem_instructionSet_iff.mpr ⟨o, h, rfl⟩

/-- A code has one row only, so the opcode that it names takes what the row asks for. -/
theorem Instruction.operandKind_of_row {kind : OperandKind} (hnamed : o.code = i.code)
    (hrow : (i.code, usage) ∈ instructionSet) (hkind : usage.kind = kind) :
    i.opcode? = some o ∧ o.operandKind = kind := by
  have ho : i.opcode? = some o := by rw [opcode?, ← hnamed, Opcode.ofCode?_code]
  obtain ⟨o', ho', rfl⟩ := mem_instructionSet_iff.mp hrow
  obtain rfl := Option.some.inj (ho'.symm.trans ho)
  exact ⟨ho, o'.kind_usage ▸ hkind⟩

/-! ### Indices that are refused -/

/-- Where only one fault is possible, it is reported exactly of what is not accepted. -/
theorem eq_error_iff_of_index {x : Except Fault Nat} {P : Prop} {n : Nat} {bad : Fault}
    (hok : ∀ m, x = .ok m ↔ P ∧ n = m) (hbad : ∀ fault, x = .error fault → fault = bad) :
    x = .error fault ↔ ¬ P ∧ fault = bad := by
  cases x with
  | ok m =>
    obtain ⟨hP, -⟩ := (hok m).mp rfl
    simp [hP]
  | error fault' =>
    have hP : ¬ P := fun hP => by cases (hok n).mpr ⟨hP, rfl⟩
    simp [hP, hbad fault' rfl, eq_comm]

namespace Scope

variable {v : Int64}

theorem slot_eq_error_iff :
    s.slot position v = .error fault ↔ ¬ (0 ≤ v.toInt ∧ v.toInt < s.slots) ∧
      fault = .badSlotIndex ⟨s.function, position⟩ v s.slots := by
  refine eq_error_iff_of_index (fun _ => slot_eq_ok_iff) ?_
  intro fault h
  unfold slot at h
  split at h <;> cases h
  rfl

theorem callee_eq_error_iff :
    s.callee position v = .error fault ↔ ¬ (0 ≤ v.toInt ∧ v.toInt < s.functions) ∧
      fault = .badFunctionIndex ⟨s.function, position⟩ v s.functions := by
  refine eq_error_iff_of_index (fun _ => callee_eq_ok_iff) ?_
  intro fault h
  unfold callee at h
  split at h <;> cases h
  rfl

theorem branchTarget_eq_error_iff :
    s.branchTarget position v = .error fault ↔
      ¬ (0 ≤ v.toInt ∧ v.toInt < s.length ∧ v.toInt ≠ position) ∧
        fault = .badBranchTarget ⟨s.function, position⟩ v s.length := by
  refine eq_error_iff_of_index (fun _ => branchTarget_eq_ok_iff) ?_
  intro fault h
  unfold branchTarget at h
  split at h
  · split at h <;> cases h
    rfl
  · cases h
    rfl

/-- Resolving an operand of the right kind fails as the row of the opcode says. -/
theorem resolve_eq_error_iff {operand : Option Value} (h : o.operandKind.Fits operand) :
    s.resolve position ⟨o, operand⟩ = .error fault ↔
      o.usage.Refuses s position operand fault := by
  cases o with
  | load | store =>
    obtain ⟨v, rfl⟩ := OperandKind.fits_integer h
    simp only [resolve_load, resolve_store, map_eq_error_iff, slot_eq_error_iff]
    simp [Opcode.usage, Usage.Refuses]
  | call =>
    obtain ⟨v, rfl⟩ := OperandKind.fits_integer h
    rw [resolve_call, map_eq_error_iff, callee_eq_error_iff]
    simp [Opcode.usage, Usage.Refuses]
  | branch | branchIf =>
    obtain ⟨v, rfl⟩ := OperandKind.fits_integer h
    simp only [resolve_branch, resolve_branchIf, map_eq_error_iff, branchTarget_eq_error_iff]
    simp [Opcode.usage, Usage.Refuses]
  | push type =>
    obtain ⟨v, rfl, rfl⟩ := h
    rw [resolve_push]
    cases v <;> simp [Value.type, Opcode.usage, Usage.Refuses]
  | exit | unary | binary =>
    obtain rfl : operand = none := h
    simp [resolve, Opcode.bareOp?, Opcode.usage, Usage.Refuses]

end Scope

/-- Only an operand of the right kind is refused for its range. -/
theorem Usage.Refuses.fits {operand : Option Value}
    (h : o.usage.Refuses s position operand fault) : o.operandKind.Fits operand := by
  cases o with
  | load | store | call | branch | branchIf =>
    obtain ⟨v, rfl, -⟩ := h
    exact ⟨_, rfl, rfl⟩
  | push type => cases type <;> exact h.elim
  | exit | unary | binary => exact h.elim

/-! ### What the check reports -/

theorem violates_of_form (h : i.form ⟨s.function, position⟩ = .error fault) :
    i.Violates s position fault := by
  -- the cases are those of the form check: the code, then the operand against its kind
  unfold Instruction.form at h
  split at h
  · rename_i ho
    cases h
    refine .code fun usage hrow => ?_
    obtain ⟨o, ho', -⟩ := mem_instructionSet_iff.mp hrow
    cases ho.symm.trans ho'
  · rename_i o ho
    have hnamed : o.code = i.code := Opcode.code_of_ofCode? ho
    have hrow := Instruction.row_of_opcode? ho
    have hkind := o.kind_usage
    split at h
    · cases h
    · rename_i hnone hoperand
      cases h
      exact .unexpected hnamed hrow (hkind.trans hnone) hoperand
    · rename_i hliteral hoperand
      cases h
      exact .missing hnamed hrow (hkind.trans hliteral) hoperand
    · rename_i hliteral hoperand
      split at h
      · cases h
      · rename_i htype
        cases h
        exact .kind hnamed hrow (hkind.trans hliteral) hoperand htype

theorem violates_of_check (h : s.check position i = .error fault) :
    i.Violates s position fault := by
  rcases bind_eq_error_iff.mp h with hform | ⟨form, hform, hresolve⟩
  · exact violates_of_form hform
  · obtain ⟨o, ho, hfits, rfl⟩ := form_eq_ok_iff.mp hform
    exact .range (Instruction.row_of_opcode? ho) ((Scope.resolve_eq_error_iff hfits).mp hresolve)

theorem check_of_violates (h : i.Violates s position fault) :
    s.check position i = .error fault := by
  refine bind_eq_error_iff.mpr ?_
  cases h with
  | code hunassigned =>
    have ho : i.opcode? = none := by
      rw [Option.eq_none_iff_forall_ne_some]
      intro o ho
      exact hunassigned o.usage (Instruction.row_of_opcode? ho)
    exact .inl (by simp only [Instruction.form, ho])
  | missing hnamed hrow hkind hoperand =>
    obtain ⟨ho, hkind⟩ := Instruction.operandKind_of_row hnamed hrow hkind
    exact .inl (by simp only [Instruction.form, ho, hkind, hoperand])
  | unexpected hnamed hrow hkind hoperand =>
    obtain ⟨ho, hkind⟩ := Instruction.operandKind_of_row hnamed hrow hkind
    exact .inl (by simp only [Instruction.form, ho, hkind, hoperand])
  | kind hnamed hrow hkind hoperand htype =>
    obtain ⟨ho, hkind⟩ := Instruction.operandKind_of_row hnamed hrow hkind
    exact .inl (by simp only [Instruction.form, ho, hkind, hoperand, if_neg htype])
  | range hrow hrefused =>
    obtain ⟨o, ho, rfl⟩ := mem_instructionSet_iff.mp hrow
    have hfits := hrefused.fits
    exact .inr ⟨⟨o, i.operand⟩, form_eq_ok_iff.mpr ⟨o, ho, hfits, rfl⟩,
      (Scope.resolve_eq_error_iff hfits).mpr hrefused⟩

/-- **What is refused, and why.**  The check reports the violation of an instruction. -/
theorem Scope.check_eq_error_iff :
    s.check position i = .error fault ↔ i.Violates s position fault :=
  ⟨violates_of_check, check_of_violates⟩

end Instructions

/-! ### The list of violations -/

/-- What a diagnosis holds of an instruction: nothing if it is admissible, and otherwise its
violation, which names its place. -/
structure Instruction.Verdict (s : Scope) (position : Nat) (i : Instruction)
    (entry : Option Fault) : Prop where
  sound_iff : entry = none ↔ i.Admissible s position
  faulty_iff : ∀ fault, entry = some fault ↔ i.Violates s position fault
  located : ∀ fault, entry = some fault →
    fault.phase = .validation ∧ fault.site? = some ⟨s.function, position⟩

theorem Scope.verdict (s : Scope) (position : Nat) (i : Instruction) :
    i.Verdict s position (error? (s.check position i)) where
  sound_iff := by
    rw [error?_eq_none_iff]
    constructor
    · rintro ⟨op, hop⟩
      exact (check_eq_ok_iff.mp hop).1
    · intro h
      obtain ⟨op, hop⟩ := h.exists_means
      exact ⟨op, check_eq_ok_iff.mpr ⟨h, hop⟩⟩
  faulty_iff := by
    intro fault
    rw [error?_eq_some_iff, check_eq_error_iff]
  located := by
    intro fault h
    exact (check_eq_error_iff.mp (error?_eq_some_iff.mp h)).located

/-- The faults of code, one entry for each instruction. -/
theorem Scope.codeFaults_eq (s : Scope) (position : Nat) (code : List Instruction) :
    s.codeFaults position code =
      (code.mapIdx fun j i => error? (s.check (position + j) i)).filterMap id := by
  induction code generalizing position with
  | nil => rfl
  | cons i rest ih =>
    have hrest : s.codeFaults (position + 1) rest =
        (rest.mapIdx fun j i => error? (s.check (position + (j + 1)) i)).filterMap id := by
      rw [ih]
      simp only [Nat.add_assoc, Nat.add_comm 1]
    rw [codeFaults, List.mapIdx_cons, List.filterMap_cons, hrest]
    cases s.check position i <;> rfl

theorem faultsFrom_eq (functions index : Nat) (definitions : List Definition) :
    faultsFrom functions index definitions =
      (definitions.mapIdx fun j d => d.faults functions (index + j)).flatten := by
  induction definitions generalizing index with
  | nil => rfl
  | cons d rest ih =>
    rw [faultsFrom, ih, List.mapIdx_cons, List.flatten_cons]
    simp only [Nat.add_assoc, Nat.add_comm 1, Nat.add_zero]

/-- What a diagnosis holds of a function: the violations of its instructions by position, and then
that it declares no outputs, if it does not. -/
structure Definition.Report (functions index : Nat) (d : Definition) (faults : List Fault) :
    Prop where
  listed : ∃ entries : List (Option Fault),
    Matches (fun position i entry => i.Verdict (d.scope functions index) position entry) d.code
      entries ∧
    faults = entries.filterMap id ++ if d.outputs = [] then [.noOutputs index] else []
  located : ∀ fault ∈ faults, fault.phase = .validation ∧ fault.function? = some index

theorem Definition.report_faults (d : Definition) (functions index : Nat) :
    d.Report functions index (d.faults functions index) := by
  have hcode := (d.scope functions index).codeFaults_eq 0 d.code
  simp only [Nat.zero_add] at hcode
  refine ⟨⟨_, matches_mapIdx fun position i _ => Scope.verdict _ position i, ?_⟩, ?_⟩
  · rw [faults, hcode]
  · intro fault hfault
    rw [faults, hcode] at hfault
    rcases List.mem_append.mp hfault with hfault | hfault
    · obtain ⟨entry, hentry, hfault⟩ := List.mem_filterMap.mp hfault
      obtain ⟨position, _, hcheck⟩ := List.mem_mapIdx.mp hentry
      obtain ⟨hphase, hsite⟩ :=
        (Scope.verdict _ position _).located fault (hcheck.trans hfault)
      exact ⟨hphase, Fault.function?_of_site? hsite⟩
    · by_cases hout : d.outputs = []
      · rw [if_pos hout] at hfault
        obtain rfl := List.mem_singleton.mp hfault
        exact ⟨rfl, rfl⟩
      · rw [if_neg hout] at hfault
        cases hfault

/-- **Diagnosis lists the violations.**  What `diagnose` returns are the reports of the functions,
in order and end to end.  The report of a function has one entry for each instruction that is not
admissible, by position, which is its violation and names its place, and then says that the
function declares no outputs, if it does not.  All of them are faults of validation that name the
function. -/
theorem diagnose_lists_violations (definitions : List Definition) :
    ∃ reports : List (List Fault), diagnose definitions = reports.flatten ∧
      Matches (fun index d report => d.Report definitions.length index report) definitions
        reports := by
  have hfaults := faultsFrom_eq definitions.length 0 definitions
  simp only [Nat.zero_add] at hfaults
  exact ⟨_, hfaults, matches_mapIdx fun index d _ => d.report_faults definitions.length index⟩

-- every rule in one function: an operand does not save an unassigned code, nor does a target that
-- would be out of range come before the kind of the operand
example : diagnose [.ofOps [.exit] [] [.boolean] 0,
    { code := [⟨0x0200, some (.integer 0)⟩, ⟨0x0030, some (.boolean true)⟩, ⟨0x0010, none⟩,
        ⟨0x0503, some (.integer 0)⟩, ⟨0x0100, some (.boolean true)⟩, ⟨0x0031, some (.integer 6)⟩,
        ⟨0x0032, some (.integer 9)⟩, ⟨0x0011, some (.integer (-1))⟩, ⟨0x0020, some (.integer 2)⟩],
      inputs := [], outputs := [], slots := 1 }] =
    [.unassignedCode ⟨1, 0⟩ 0x0200, .wrongOperandKind ⟨1, 1⟩ .branch (.literal .integer),
      .missingOperand ⟨1, 2⟩ .load, .unexpectedOperand ⟨1, 3⟩ (.binary (.integer .add)),
      .badBranchTarget ⟨1, 6⟩ 9 9, .badSlotIndex ⟨1, 7⟩ (-1) 1, .badFunctionIndex ⟨1, 8⟩ 2 2,
      .noOutputs 1] := rfl

end StackMachine
