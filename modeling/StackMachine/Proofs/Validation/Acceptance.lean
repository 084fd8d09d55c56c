import StackMachine.Proofs.Validation.InstructionSet

/-!
# What validation accepts

Validation walks through functions and instructions and stops at the first fault.  When it does
not stop, the program it returns matches the definitions one by one: each routine has the types
and slots of its definition, and each operation is the meaning of its instruction
(`validate_eq_ok_iff`).  So what is accepted can be said without the walk, by the table of
`instructionSet` alone (`validate_follows_instructionSet`).

For execution the part that counts is that no index leads astray: `Program.Sound`, which
`validate_sound` gives.
-/

namespace StackMachine

/-! ### One function -/

theorem Scope.checkCode_eq_ok_iff {s : Scope} {position : Nat} {code : List Instruction}
    {ops : List Op} :
    s.checkCode position code = .ok ops ↔
      Matches (fun j i op => s.check (position + j) i = .ok op) code ops := by
  induction code generalizing position ops with
  | nil =>
    rw [checkCode, Except.ok.injEq, matches_nil_iff]
    exact eq_comm
  | cons i rest ih =>
    have hshift : (fun j i op => s.check (position + (j + 1)) i = .ok op) =
        fun j i op => s.check (position + 1 + j) i = .ok op := by
      funext j i op
      rw [Nat.add_assoc, Nat.add_comm 1]
    rw [checkCode, bind_eq_ok_iff, matches_cons_iff, hshift]
    constructor
    · rintro ⟨op, hop, h⟩
      obtain ⟨ops', hops', h⟩ := bind_eq_ok_iff.mp h
      cases h
      exact ⟨op, ops', rfl, hop, ih.mp hops'⟩
    · rintro ⟨op, ops', rfl, hop, hops'⟩
      exact ⟨op, hop, bind_eq_ok_iff.mpr ⟨ops', ih.mpr hops', rfl⟩⟩

/-- A function of a program, at an index, is decoded to a routine. -/
structure Definition.Decodes (functions index : Nat) (d : Definition) (r : Routine) : Prop where
  outputs_ne_nil : d.outputs ≠ []
  code : Matches
    (fun position i op => i.Admissible (d.scope functions index) position ∧ i.Means op)
    d.code r.ops.toList
  inputs_eq : r.inputs = d.inputs
  outputs_eq : r.outputs = d.outputs
  slots_eq : r.slots = d.slots

theorem Definition.check_eq_ok_iff {functions index : Nat} {d : Definition} {r : Routine} :
    d.check functions index = .ok r ↔ d.Decodes functions index r := by
  have hcode : ∀ ops, (d.scope functions index).checkCode 0 d.code = .ok ops ↔ Matches
      (fun position i op => i.Admissible (d.scope functions index) position ∧ i.Means op)
      d.code ops := by
    intro ops
    simp only [Scope.checkCode_eq_ok_iff, Nat.zero_add, Scope.check_eq_ok_iff]
  rw [check, bind_eq_ok_iff]
  constructor
  · rintro ⟨ops, hops, h⟩
    by_cases hout : d.outputs = []
    · simp only [hout, if_true] at h
      cases h
    · simp only [hout, if_false] at h
      cases h
      exact ⟨hout, (hcode ops).mp hops, rfl, rfl, rfl⟩
  · intro h
    refine ⟨r.ops.toList, (hcode _).mpr h.code, ?_⟩
    obtain ⟨ops, inputs, outputs, slots⟩ := r
    obtain ⟨hout, -, rfl, rfl, rfl⟩ := h
    simp only [hout, if_false]
    rfl

/-! ### A whole program -/

theorem surveyFrom_eq_iff {functions index : Nat} {definitions : List Definition}
    {routines : List Routine} :
    surveyFrom functions index definitions = ⟨routines, none⟩ ↔
      Matches (fun j d r => d.check functions (index + j) = .ok r) definitions routines := by
  induction definitions generalizing index routines with
  | nil =>
    rw [surveyFrom, matches_nil_iff]
    simp [eq_comm]
  | cons d rest ih =>
    have hshift : (fun j d r => Definition.check d functions (index + (j + 1)) = .ok r) =
        fun j d r => Definition.check d functions (index + 1 + j) = .ok r := by
      funext j d r
      rw [Nat.add_assoc, Nat.add_comm 1]
    rw [surveyFrom, matches_cons_iff, hshift]
    cases hd : d.check functions index with
    | error fault => simp
    | ok routine =>
      constructor
      · intro h
        cases hrest : surveyFrom functions (index + 1) rest with
        | mk accepted fault? =>
          rw [hrest] at h
          cases h
          exact ⟨routine, accepted, rfl, rfl, ih.mp hrest⟩
      · rintro ⟨r, routines', rfl, hr, hrest⟩
        obtain rfl := Except.ok.inj hr
        simp only [ih.mpr hrest]

/-- Validation returns a program exactly if each definition can be decoded, and then it returns
what they are decoded to. -/
theorem validate_eq_ok_iff {definitions : List Definition} {program : Program} :
    validate definitions = .ok program ↔
      Matches (fun index d r => d.Decodes definitions.length index r) definitions
        program.toList := by
  have hsurvey : surveyFrom definitions.length 0 definitions = ⟨program.toList, none⟩ ↔ _ :=
    surveyFrom_eq_iff
  simp only [Nat.zero_add, Definition.check_eq_ok_iff] at hsurvey
  rw [← hsurvey, validate, survey]
  cases surveyFrom definitions.length 0 definitions with
  | mk accepted fault? =>
    cases fault? with
    | some fault => simp
    | none =>
      simp only [Except.ok.injEq, Survey.mk.injEq, and_true]
      constructor
      · rintro rfl
        rfl
      · rintro rfl
        rfl

theorem size_of_validate {definitions : List Definition} {program : Program}
    (h : validate definitions = .ok program) : program.size = definitions.length := by
  simpa using (validate_eq_ok_iff.mp h).length_eq

/-- **Validation follows the instruction set.**  A program is accepted exactly if every function
declares an output and every instruction is admissible where it stands.  What is returned then has
a routine for each definition, with its types and slots, and at each position exactly the operation
that the table gives for the instruction there. -/
theorem validate_follows_instructionSet (definitions : List Definition) :
    ((∃ program, validate definitions = .ok program) ↔
      ∀ (index : Nat) (d : Definition), definitions[index]? = some d → d.outputs ≠ [] ∧
        ∀ (position : Nat) (i : Instruction), d.code[position]? = some i →
          i.Admissible (d.scope definitions.length index) position) ∧
    ∀ program, validate definitions = .ok program →
      program.size = definitions.length ∧
      ∀ (index : Nat) (d : Definition), definitions[index]? = some d →
        ∃ r : Routine, program[index]? = some r ∧
          r.inputs = d.inputs ∧ r.outputs = d.outputs ∧ r.slots = d.slots ∧
          r.ops.size = d.code.length ∧
          ∀ (position : Nat) (i : Instruction), d.code[position]? = some i →
            ∀ op, r.ops[position]? = some op ↔ i.Means op := by
  refine ⟨⟨?_, ?_⟩, ?_⟩
  · rintro ⟨program, h⟩ index d hd
    obtain ⟨r, -, hdecodes⟩ := (validate_eq_ok_iff.mp h).related hd
    refine ⟨hdecodes.outputs_ne_nil, fun position i hi => ?_⟩
    obtain ⟨op, -, hadmissible, -⟩ := hdecodes.code.related hi
    exact hadmissible
  · intro h
    have hdecodes : ∀ (index : Nat) (d : Definition), definitions[index]? = some d →
        ∃ r : Routine, d.Decodes definitions.length index r := by
      intro index d hd
      obtain ⟨hout, hcode⟩ := h index d hd
      obtain ⟨ops, hops⟩ : ∃ ops, Matches (fun position i op =>
          i.Admissible (d.scope definitions.length index) position ∧ i.Means op) d.code ops := by
        refine exists_matches fun position i hi => ?_
        obtain ⟨op, hop⟩ := (hcode position i hi).exists_means
        exact ⟨op, hcode position i hi, hop⟩
      exact ⟨⟨ops.toArray, d.inputs, d.outputs, d.slots⟩, hout, hops, rfl, rfl, rfl⟩
    obtain ⟨routines, hroutines⟩ := exists_matches hdecodes
    exact ⟨routines.toArray, validate_eq_ok_iff.mpr hroutines⟩
  · intro program h
    have hmatches := validate_eq_ok_iff.mp h
    refine ⟨by simpa using hmatches.length_eq, fun index d hd => ?_⟩
    obtain ⟨r, hr, hdecodes⟩ := hmatches.related hd
    refine ⟨r, by simpa using hr, hdecodes.inputs_eq, hdecodes.outputs_eq, hdecodes.slots_eq,
      by simpa using hdecodes.code.length_eq, fun position i hi op => ?_⟩
    obtain ⟨op', hop', -, hmeans⟩ := hdecodes.code.related hi
    rw [Array.getElem?_toList] at hop'
    rw [hop', Option.some.injEq]
    constructor
    · rintro rfl
      exact hmeans
    · exact hmeans.unique

def branching (target : Int64) : Definition where
  code := [⟨0x0500, some (.integer 7)⟩, ⟨0x0030, some (.integer target)⟩]
  inputs := []
  outputs := [.integer]
  slots := 0

/-- A function that pushes a number may branch back to the push, but not to the branch itself. -/
theorem branching_back_accepted :
    (∃ program, validate [branching 0] = .ok program ∧ program.size = 1 ∧
      ∃ r : Routine, program[0]? = some r ∧ r.ops[1]? = some (.branch 0)) ∧
    ¬ ∃ program, validate [branching 1] = .ok program := by
  have hpush : (0x0500, _) ∈ instructionSet := mem_instructionSet_iff.mpr ⟨.push .integer, rfl, rfl⟩
  have hbranch : (0x0030, _) ∈ instructionSet := mem_instructionSet_iff.mpr ⟨.branch, rfl, rfl⟩
  refine ⟨?_, ?_⟩
  · obtain ⟨haccepts, hdecodes⟩ := validate_follows_instructionSet [branching 0]
    obtain ⟨program, hprogram⟩ : ∃ program, validate [branching 0] = .ok program := by
      refine haccepts.mpr ?_
      rintro (_ | index) d hd
      · cases hd
        refine ⟨List.cons_ne_nil _ _, ?_⟩
        rintro (_ | _ | position) i hi
        · cases hi
          exact ⟨_, hpush, 7, rfl⟩
        · cases hi
          exact ⟨_, hbranch, 0, rfl, by decide, by decide, by decide⟩
        · cases hi
      · cases hd
    obtain ⟨hsize, hroutines⟩ := hdecodes program hprogram
    obtain ⟨r, hr, -, -, -, -, hops⟩ := hroutines 0 _ rfl
    exact ⟨program, hprogram, hsize, r, hr, (hops 1 _ rfl (.branch 0)).mpr ⟨_, hbranch, rfl⟩⟩
  · intro haccepted
    have hadmissible := ((validate_follows_instructionSet [branching 1]).1.mp haccepted 0 _ rfl).2
    obtain ⟨o, ho, hadmits⟩ := Instruction.admissible_iff.mp (hadmissible 1 _ rfl)
    obtain rfl : Opcode.branch = o := Option.some.inj ho
    obtain ⟨i, hi, -, -, hne⟩ := hadmits
    cases hi
    exact hne rfl

/-! ### Nothing leads astray -/

/-- An operation at a position refers to nothing out of scope. -/
def Op.InScope (s : Scope) (position : Nat) : Op → Prop
  | .load slot | .store slot => slot < s.slots
  | .call callee => callee < s.functions
  | .branch target | .branchIf _ target => target < s.length ∧ target ≠ position
  | .exit | .push _ | .unary _ | .binary _ => True

theorem Instruction.Means.inScope {s : Scope} {position : Nat} {i : Instruction} {op : Op}
    (hadmissible : i.Admissible s position) (hmeans : i.Means op) : op.InScope s position := by
  obtain ⟨o, ho, hadmits⟩ := admissible_iff.mp hadmissible
  obtain ⟨o', ho', hop⟩ := means_iff.mp hmeans
  obtain rfl := Option.some.inj (ho.symm.trans ho')
  cases o with
  | load | store | call =>
    obtain ⟨v, hv, h0, h1⟩ := hadmits
    rw [hv] at hop
    cases hop
    show v.toInt.toNat < _
    omega
  | branch | branchIf =>
    obtain ⟨v, hv, h0, h1, hne⟩ := hadmits
    rw [hv] at hop
    cases hop
    show v.toInt.toNat < _ ∧ v.toInt.toNat ≠ _
    omega
  | push type =>
    cases type with
    | boolean =>
      obtain ⟨b, hb⟩ := hadmits
      rw [hb] at hop
      cases hop
      trivial
    | integer =>
      obtain ⟨v, hv⟩ := hadmits
      rw [hv] at hop
      cases hop
      trivial
  | exit | unary | binary =>
    rw [show i.operand = none from hadmits] at hop
    cases hop
    trivial

/-- Every function declares an output, and all its operations are in scope. -/
def Program.Sound (program : Program) : Prop :=
  ∀ {index : Nat} {r : Routine}, program[index]? = some r → r.outputs ≠ [] ∧
    ∀ {position : Nat} {op : Op}, r.ops[position]? = some op →
      op.InScope ⟨index, r.ops.size, r.slots, program.size⟩ position

theorem validate_sound {definitions : List Definition} {program : Program}
    (h : validate definitions = .ok program) : program.Sound := by
  have hmatches := validate_eq_ok_iff.mp h
  have hsize := size_of_validate h
  intro index r hr
  obtain ⟨d, -, hdecodes⟩ := hmatches.exists_left (i := index) (by simpa using hr)
  refine ⟨hdecodes.outputs_eq ▸ hdecodes.outputs_ne_nil, fun {position op} hop => ?_⟩
  have hop' : r.ops.toList[position]? = some op := by simpa using hop
  obtain ⟨i, -, hadmissible, hmeans⟩ := hdecodes.code.exists_left hop'
  have hlength : r.ops.size = d.code.length := by simpa using hdecodes.code.length_eq
  rw [hsize, hlength, hdecodes.slots_eq]
  exact hmeans.inScope hadmissible

end StackMachine
